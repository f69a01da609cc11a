import Vivac.Lib.Interleave

/-!
# One thread by itself

Total correctness of a program that one thread runs to its end while the others do nothing:
`Alone exec i P p Q` says that from every state with `P` it ends, in a state with `Q`. It is a
property of the computed meaning of the commands, with a rule for each construct.
-/

set_option autoImplicit false

namespace Vivac.Lib

variable {ι ε : Type} {C : Type → Type 1} {S α β : Type}
  {exec : ι → ∀ {β : Type}, C β → S → Option (Except ε β × S)}

/-- What a program has returned in a run by itself, it may return. -/
theorem mayReturn_of_runAlone {i : ι} {p : Prog ε C α} {s s' : S} {a : α}
    (h : runAlone exec i p s = some (.ok a, s')) : p.MayReturn a := by
  induction p generalizing s with
  | ret b =>
      cases h
      rfl
  | raise e => cases h
  | call c k ih =>
      rw [runAlone] at h
      cases hexec : exec i c s with
      | none =>
          rw [hexec] at h
          cases h
      | some out =>
          rw [hexec] at h
          exact ⟨out.1, ih out.1 h⟩

/-- What every command of a program keeps, a run by itself keeps. -/
theorem runAlone_keeps {i : ι} {ok : ∀ {β : Type}, C β → Prop} {I : S → Prop}
    (hok : ∀ {β : Type} (c : C β), ok c → ∀ s r s', exec i c s = some (r, s') → I s → I s')
    {p : Prog ε C α} (hp : p.Uses ok) {s s' : S} {r : Except ε α}
    (h : runAlone exec i p s = some (r, s')) (hs : I s) : I s' := by
  induction p generalizing s with
  | ret a =>
      cases h
      exact hs
  | raise e =>
      cases h
      exact hs
  | call c k ih =>
      obtain ⟨hc, hk⟩ := hp
      rw [runAlone] at h
      cases hexec : exec i c s with
      | none =>
          rw [hexec] at h
          cases h
      | some out =>
          rw [hexec] at h
          exact ih out.1 (hk out.1) h (hok c hc s out.1 out.2 hexec hs)

/-- From every state with `P`, thread `i` runs `p` by itself to an end with `Q`. -/
def Alone (exec : ι → ∀ {β : Type}, C β → S → Option (Except ε β × S)) (i : ι) (P : S → Prop)
    (p : Prog ε C α) (Q : Except ε α → S → Prop) : Prop :=
  ∀ s, P s → ∃ r s', runAlone exec i p s = some (r, s') ∧ Q r s'

section Rules

variable {i : ι} {P P' : S → Prop} {Q Q' : Except ε α → S → Prop}

theorem Alone.conseq {p : Prog ε C α} (h : Alone exec i P p Q) (hP : ∀ s, P' s → P s)
    (hQ : ∀ r s, Q r s → Q' r s) : Alone exec i P' p Q' := by
  intro s hs
  obtain ⟨r, s', hrun, hq⟩ := h s (hP s hs)
  exact ⟨r, s', hrun, hQ r s' hq⟩

theorem Alone.ret (a : α) (h : ∀ s, P s → Q (.ok a) s) : Alone exec i P (.ret a) Q :=
  fun s hs => ⟨.ok a, s, rfl, h s hs⟩

theorem Alone.raise (e : ε) (h : ∀ s, P s → Q (.error e) s) : Alone exec i P (.raise e) Q :=
  fun s hs => ⟨.error e, s, rfl, h s hs⟩

theorem Alone.bind {p : Prog ε C β} {f : β → Prog ε C α} (M : Except ε β → S → Prop)
    (hp : Alone exec i P p M) (hok : ∀ b, Alone exec i (M (.ok b)) (f b) Q)
    (herror : ∀ e s, M (.error e) s → Q (.error e) s) : Alone exec i P (p.bind f) Q := by
  intro s hs
  obtain ⟨r, s₁, hrun, hm⟩ := hp s hs
  cases r with
  | ok b =>
    obtain ⟨r, s₂, hrun₂, hq⟩ := hok b s₁ hm
    exact ⟨r, s₂, by rw [runAlone_bind, hrun]; exact hrun₂, hq⟩
  | error e => exact ⟨.error e, s₁, by rw [runAlone_bind, hrun]; rfl, herror e s₁ hm⟩

/-- A program that is known to answer, followed by the rest. -/
theorem Alone.bind_ok {p : Prog ε C β} {b : β} {f : β → Prog ε C α} {M : S → Prop}
    (hp : Alone exec i P p fun r s => r = .ok b ∧ M s) (hf : Alone exec i M (f b) Q) :
    Alone exec i P (p.bind f) Q := by
  refine Alone.bind (fun r s => r = .ok b ∧ M s) hp (fun b' s hs => ?_) fun e s hs => ?_
  · obtain ⟨hb, hm⟩ := hs
    cases hb
    exact hf s hm
  · cases hs.1

/-- A program that is known to raise is the end. -/
theorem Alone.bind_error {p : Prog ε C β} {e : ε} {f : β → Prog ε C α} {M : S → Prop}
    (hp : Alone exec i P p fun r s => r = .error e ∧ M s) (hM : ∀ s, M s → Q (.error e) s) :
    Alone exec i P (p.bind f) Q := by
  refine Alone.bind (fun r s => r = .error e ∧ M s) hp (fun b s hs => ?_) fun e' s hs => ?_
  · cases hs.1
  · obtain ⟨he, hm⟩ := hs
    cases he
    exact hM s hm

theorem Alone.attempt {p : Prog ε C β} {M : Except ε β → S → Prop}
    {Q : Except ε (Except ε β) → S → Prop} (hp : Alone exec i P p M)
    (hQ : ∀ r s, M r s → Q (.ok r) s) : Alone exec i P p.attempt Q := by
  intro s hs
  obtain ⟨r, s', hrun, hm⟩ := hp s hs
  exact ⟨.ok r, s', by rw [runAlone_attempt, hrun]; rfl, hQ r s' hm⟩

/-- A program whose outcome the rest goes on from. -/
theorem Alone.attempt_bind {p : Prog ε C β} {f : Except ε β → Prog ε C α}
    (M : Except ε β → S → Prop)
    (hp : Alone exec i P p M) (hf : ∀ r, Alone exec i (M r) (f r) Q) :
    Alone exec i P (p.attempt.bind f) Q := by
  intro s hs
  obtain ⟨r, s₁, hrun, hm⟩ := hp s hs
  obtain ⟨r', s₂, hrun₂, hq⟩ := hf r s₁ hm
  refine ⟨r', s₂, ?_, hq⟩
  rw [runAlone_bind, runAlone_attempt, hrun]
  exact hrun₂

theorem Alone.tryCatch {p : Prog ε C α} {handler : ε → Prog ε C α} (M : Except ε α → S → Prop)
    (hp : Alone exec i P p M) (hok : ∀ a s, M (.ok a) s → Q (.ok a) s)
    (herror : ∀ e, Alone exec i (M (.error e)) (handler e) Q) :
    Alone exec i P (p.tryCatch handler) Q := by
  apply Alone.attempt_bind M hp
  intro r
  cases r with
  | ok a => exact Alone.ret a (hok a)
  | error e => exact herror e

/-- One command. -/
theorem Alone.perform {c : C α} (h : ∀ s, P s → ∃ r s', exec i c s = some (r, s') ∧ Q r s') :
    Alone exec i P (Prog.perform c) Q := by
  intro s hs
  obtain ⟨r, s', hexec, hq⟩ := h s hs
  refine ⟨r, s', ?_, hq⟩
  simp only [Prog.perform, runAlone, hexec]
  cases r <;> rfl

/-- A command whose outcome the rest goes on from. -/
theorem Alone.call {c : C β} {k : Except ε β → Prog ε C α} (M : Except ε β → S → Prop)
    (hc : Alone exec i P (Prog.perform c) M) (hk : ∀ r, Alone exec i (M r) (k r) Q) :
    Alone exec i P (.call c k) Q := by
  intro s hs
  obtain ⟨r, s₁, hrun, hm⟩ := hc s hs
  simp only [Prog.perform, runAlone] at hrun
  cases hexec : exec i c s with
  | none =>
      rw [hexec] at hrun
      cases hrun
  | some out =>
      obtain ⟨r', s'⟩ := out
      have hout : r' = r ∧ s' = s₁ := by
        rw [hexec] at hrun
        cases r' <;> cases hrun <;> exact ⟨rfl, rfl⟩
      rw [← hout.1, ← hout.2] at hm
      obtain ⟨r₂, s₂, hrest, hq⟩ := hk r' s' hm
      refine ⟨r₂, s₂, ?_, hq⟩
      rw [runAlone, hexec]
      exact hrest

end Rules

end Vivac.Lib
