import Vivac.Lib.Interleave

/-!
# Rely and guarantee

`Meets i Q p s`: started in `s`, thread `i` running `p` keeps the invariant `Inv`
and its guarantee `G i` at each of its own commands, whatever steps within its
rely `R i` the others take in between, and when it ends its outcome satisfies
`Q`. When every thread meets its contract and every guarantee is within every
other thread's rely, all contracts survive any run (`Run.meets`).

`Triple i P p Q` is the Hoare form, with one rule for each way a program is built.
-/

set_option autoImplicit false

namespace Vivac.Lib

variable {ι ε : Type} {C : Type → Type 1} {S α β : Type}

/-- Invariant, relies and guarantees of the threads of a pool. -/
structure Contract (ι S : Type) where
  Inv : S → Prop
  R : ι → S → S → Prop
  G : ι → S → S → Prop

/-- A contract fits a system: relies are preorders, each guarantee is within the
rely of every other thread, and so is every step of the environment. -/
structure Contract.Fits (con : Contract ι S) (sys : System ι ε C S) : Prop where
  rely_refl : ∀ i s, con.R i s s
  rely_trans : ∀ i {a b c}, con.R i a b → con.R i b c → con.R i a c
  guar_rely : ∀ {i j}, i ≠ j → ∀ {s s'}, con.Inv s → con.G i s s' → con.R j s s'
  env_inv : ∀ {s s'}, sys.env s s' → con.Inv s → con.Inv s'
  env_rely : ∀ j {s s'}, sys.env s s' → con.Inv s → con.R j s s'

section Meets

variable (sys : System ι ε C S) (con : Contract ι S) (i : ι)

/-- Thread `i` running `p` from `s` keeps its contract and ends with `Q`. -/
def Meets (Q : Except ε α → S → Prop) : Prog ε C α → S → Prop
  | .ret a, s => ∀ s', con.Inv s' → con.R i s s' → Q (.ok a) s'
  | .raise e, s => ∀ s', con.Inv s' → con.R i s s' → Q (.error e) s'
  | .call c k, s => ∀ s', con.Inv s' → con.R i s s' → ∀ r s'', sys.step i c s' r s'' →
      con.Inv s'' ∧ con.G i s' s'' ∧ Meets Q (k r) s''

/-- The steps of the others keep `P`. -/
def Stable (P : S → Prop) : Prop := ∀ s s', con.Inv s' → con.R i s s' → P s → P s'

/-- From every state with `P`, thread `i` running `p` meets its contract and ends with `Q`. -/
def Triple (P : S → Prop) (p : Prog ε C α) (Q : Except ε α → S → Prop) : Prop :=
  ∀ s, con.Inv s → P s → Meets sys con i Q p s

variable {sys con i}

theorem Meets.mono {Q Q' : Except ε α → S → Prop} (hQ : ∀ r s, con.Inv s → Q r s → Q' r s) :
    ∀ {p : Prog ε C α} {s : S}, Meets sys con i Q p s → Meets sys con i Q' p s
  | .ret _, _, h => fun s' hi hr => hQ _ s' hi (h s' hi hr)
  | .raise _, _, h => fun s' hi hr => hQ _ s' hi (h s' hi hr)
  | .call _ _, _, h => fun s' hi hr r s'' hstep =>
    let ⟨hi', hg, hk⟩ := h s' hi hr r s'' hstep
    ⟨hi', hg, hk.mono hQ⟩

/-- The steps of the others keep a met contract. -/
theorem Meets.stable (htrans : ∀ {a b c}, con.R i a b → con.R i b c → con.R i a c)
    {Q : Except ε α → S → Prop} {p : Prog ε C α} {s s' : S} (h : Meets sys con i Q p s)
    (hr : con.R i s s') : Meets sys con i Q p s' := by
  cases p with
  | ret a => exact fun t hi ht => h t hi (htrans hr ht)
  | raise e => exact fun t hi ht => h t hi (htrans hr ht)
  | call c k => exact fun t hi ht => h t hi (htrans hr ht)

/-- A finished thread has its postcondition. -/
theorem Meets.post_ok (hfit : con.Fits sys) {Q : Except ε α → S → Prop} {a : α} {s : S}
    (hi : con.Inv s) (h : Meets sys con i Q (.ret a) s) : Q (.ok a) s :=
  h s hi (hfit.rely_refl i s)

theorem Meets.bind (hfit : con.Fits sys) {M : α → S → Prop} {Q : Except ε β → S → Prop}
    {f : α → Prog ε C β} (hf : ∀ a, Triple sys con i (M a) (f a) Q) :
    ∀ {p : Prog ε C α} {s : S}, con.Inv s →
      Meets sys con i (fun r s => match r with | .ok a => M a s | .error e => Q (.error e) s) p s →
      Meets sys con i Q (p.bind f) s
  | .ret a, s, hi, h => hf a s hi (h s hi (hfit.rely_refl i s))
  | .raise _, _, _, h => fun s' hi' hr => h s' hi' hr
  | .call _ _, _, _, h => fun s' hi' hr r s'' hstep =>
    let ⟨hi'', hg, hk⟩ := h s' hi' hr r s'' hstep
    ⟨hi'', hg, Meets.bind hfit hf hi'' hk⟩

theorem Meets.attempt {Q : Except ε (Except ε α) → S → Prop} :
    ∀ {p : Prog ε C α} {s : S}, Meets sys con i (fun r => Q (.ok r)) p s →
      Meets sys con i Q p.attempt s
  | .ret _, _, h => h
  | .raise _, _, h => h
  | .call _ _, _, h => fun s' hi hr r s'' hstep =>
    let ⟨hi', hg, hk⟩ := h s' hi hr r s'' hstep
    ⟨hi', hg, Meets.attempt hk⟩

/-! ## Rules -/

theorem Triple.conseq {P P' : S → Prop} {Q Q' : Except ε α → S → Prop} {p : Prog ε C α}
    (h : Triple sys con i P p Q) (hP : ∀ s, con.Inv s → P' s → P s)
    (hQ : ∀ r s, con.Inv s → Q r s → Q' r s) : Triple sys con i P' p Q' :=
  fun s hi hp => (h s hi (hP s hi hp)).mono hQ

theorem Triple.ret {Q : Except ε α → S → Prop} {a : α} (hQ : Stable con i (Q (.ok a))) :
    Triple sys con i (Q (.ok a)) (.ret a) Q :=
  fun s _ hp s' hi hr => hQ s s' hi hr hp

theorem Triple.raise {Q : Except ε α → S → Prop} {e : ε} (hQ : Stable con i (Q (.error e))) :
    Triple sys con i (Q (.error e)) (.raise e) Q :=
  fun s _ hp s' hi hr => hQ s s' hi hr hp

/-- One command followed by the rest of the program. -/
theorem Triple.call {γ : Type} {c : C γ} {k : Except ε γ → Prog ε C α} {P : S → Prop}
    {Q : Except ε α → S → Prop} (M : Except ε γ → S → Prop) (hP : Stable con i P)
    (hstep : ∀ s r s', con.Inv s → P s → sys.step i c s r s' →
      con.Inv s' ∧ con.G i s s' ∧ M r s')
    (hk : ∀ r, Triple sys con i (M r) (k r) Q) : Triple sys con i P (.call c k) Q := by
  intro s _ hp s' hi hr r s'' hs
  obtain ⟨hi', hg, hm⟩ := hstep s' r s'' hi (hP s s' hi hr hp) hs
  exact ⟨hi', hg, hk r s'' hi' hm⟩

theorem Triple.perform {c : C α} {P : S → Prop} {Q : Except ε α → S → Prop}
    (hP : Stable con i P) (hQ : ∀ r, Stable con i (Q r))
    (hstep : ∀ s r s', con.Inv s → P s → sys.step i c s r s' →
      con.Inv s' ∧ con.G i s s' ∧ Q r s') : Triple sys con i P (.perform c) Q := by
  refine Triple.call Q hP hstep fun r => ?_
  cases r with
  | ok a => exact Triple.ret (hQ _)
  | error e => exact Triple.raise (hQ _)

theorem Triple.bind (hfit : con.Fits sys) {P : S → Prop} {Q : Except ε β → S → Prop}
    {p : Prog ε C α} {f : α → Prog ε C β} (M : α → S → Prop)
    (hp : Triple sys con i P p
      fun r s => match r with | .ok a => M a s | .error e => Q (.error e) s)
    (hf : ∀ a, Triple sys con i (M a) (f a) Q) : Triple sys con i P (p.bind f) Q :=
  fun s hi h => Meets.bind hfit hf hi (hp s hi h)

theorem Triple.attempt {P : S → Prop} {Q : Except ε (Except ε α) → S → Prop}
    {p : Prog ε C α} (hp : Triple sys con i P p fun r => Q (.ok r)) :
    Triple sys con i P p.attempt Q :=
  fun s hi h => Meets.attempt (hp s hi h)

/-- A program whose outcome, whatever it is, the rest goes on from. -/
theorem Triple.bind_attempt (hfit : con.Fits sys) {P : S → Prop} {Q : Except ε β → S → Prop}
    {p : Prog ε C α} {f : Except ε α → Prog ε C β} {M : Except ε α → S → Prop}
    (hp : Triple sys con i P p M) (hf : ∀ r, Triple sys con i (M r) (f r) Q) :
    Triple sys con i P (p.attempt.bind f) Q := by
  have hatt : Triple sys con i P p.attempt fun r s =>
      match r with
      | .ok r => M r s
      | .error _ => False := Triple.attempt hp
  refine Triple.bind hfit M (hatt.conseq (fun _ _ h => h) fun r s _ hr => ?_) hf
  cases r with
  | ok r => exact hr
  | error e => exact hr.elim

theorem Triple.tryCatch (hfit : con.Fits sys) {P : S → Prop} {Q : Except ε α → S → Prop}
    {p : Prog ε C α} {h : ε → Prog ε C α} (M : Except ε α → S → Prop)
    (hp : Triple sys con i P p M) (hok : ∀ a, Triple sys con i (M (.ok a)) (.ret a) Q)
    (herror : ∀ e, Triple sys con i (M (.error e)) (h e) Q) :
    Triple sys con i P (p.tryCatch h) Q := by
  refine Triple.bind_attempt hfit hp fun r => ?_
  cases r with
  | ok a => exact hok a
  | error e => exact herror e

/-- An assertion that every command of the program keeps. -/
theorem Triple.of_uses {ok : ∀ {γ : Type}, C γ → Prop} {A : S → Prop} (hA : Stable con i A)
    (hcmd : ∀ {γ : Type} (c : C γ), ok c → ∀ s r s', con.Inv s → A s → sys.step i c s r s' →
      con.Inv s' ∧ con.G i s s' ∧ A s') {p : Prog ε C α} (hp : p.Uses ok) :
    Triple sys con i A p fun _ => A := by
  induction p with
  | ret a => exact fun s _ h s' hi hr => hA s s' hi hr h
  | raise e => exact fun s _ h s' hi hr => hA s s' hi hr h
  | call c k ih =>
    apply Triple.call (fun _ => A) hA (hcmd c hp.1)
    exact fun r => ih r (hp.2 r)

/-- What every command of a program keeps beside its contract holds at its end, too. -/
theorem Meets.and_of_uses {ok : ∀ {γ : Type}, C γ → Prop} {A : S → Prop} (hA : Stable con i A)
    (hcmd : ∀ {γ : Type} (c : C γ), ok c → ∀ s r s', con.Inv s → A s → sys.step i c s r s' → A s')
    {Q : Except ε α → S → Prop} {p : Prog ε C α} {s : S} (hp : p.Uses ok)
    (h : Meets sys con i Q p s) (hs : A s) : Meets sys con i (fun r s => Q r s ∧ A s) p s := by
  induction p generalizing s with
  | ret a => exact fun s' hi hr => ⟨h s' hi hr, hA s s' hi hr hs⟩
  | raise e => exact fun s' hi hr => ⟨h s' hi hr, hA s s' hi hr hs⟩
  | call c k ih =>
    intro s' hi hr r s'' hstep
    obtain ⟨hi', hg, hk⟩ := h s' hi hr r s'' hstep
    exact ⟨hi', hg, ih r (hp.2 r) hk (hcmd c hp.1 s' r s'' hi (hA s s' hi hr hs) hstep)⟩

/-- The program keeps `A`, and an exception that is not ordinary comes with `B`. -/
theorem Triple.of_propagates {ok : ∀ {γ : Type}, C γ → Prop} {ordinary : ε → Prop}
    {A B : S → Prop} (hA : Stable con i A) (hB : Stable con i B)
    (hcmd : ∀ {γ : Type} (c : C γ), ok c → ∀ s r s', con.Inv s → A s → sys.step i c s r s' →
      con.Inv s' ∧ con.G i s s' ∧ A s' ∧ ∀ e, r = .error e → ordinary e ∨ B s')
    {p : Prog ε C α} (huses : p.Uses ok) (hp : p.Propagates ordinary) :
    Triple sys con i A p fun r s => A s ∧ ∀ e, r = .error e → ordinary e ∨ B s := by
  induction p with
  | ret a => exact fun s _ h s' hi hr => ⟨hA s s' hi hr h, by simp⟩
  | raise e =>
    intro s _ h s' hi hr
    refine ⟨hA s s' hi hr h, fun e' he => ?_⟩
    cases he
    exact .inl hp
  | call c k ih =>
    apply Triple.call (fun r s => A s ∧ ∀ e, r = .error e → ordinary e ∨ B s) hA
      (hcmd c huses.1)
    intro r
    by_cases hr : ∀ e, r = .error e → ordinary e
    · refine (ih r (huses.2 r) ((hp r).2 hr)).conseq (fun s _ h => h.1) fun _ _ _ h => h
    · push Not at hr
      obtain ⟨e, he, hnot⟩ := hr
      rw [(hp r).1 e he hnot]
      intro s _ h s' hi hr
      refine ⟨hA s s' hi hr h.1, fun e' he' => .inr ?_⟩
      exact hB s s' hi hr ((h.2 e he).resolve_left hnot)

/-! ## What holds when a program returns -/

/-- `M` holds of the returned value; nothing is promised of an exception. -/
def Returns (M : α → S → Prop) : Except ε α → S → Prop
  | .ok a, s => M a s
  | .error _, _ => True

/-- The program returns, with `M` of the value. -/
def Succeeds (M : α → S → Prop) : Except ε α → S → Prop
  | .ok a, s => M a s
  | .error _, _ => False

theorem Triple.bind_returns (hfit : con.Fits sys) {P : S → Prop} {N : β → S → Prop}
    {p : Prog ε C α} {f : α → Prog ε C β} (M : α → S → Prop)
    (hp : Triple sys con i P p (Returns M))
    (hf : ∀ a, Triple sys con i (M a) (f a) (Returns N)) :
    Triple sys con i P (p.bind f) (Returns N) := by
  refine Triple.bind hfit M (hp.conseq (fun _ _ h => h) ?_) hf
  intro r s _ hr
  cases r with
  | ok a => exact hr
  | error e => trivial

theorem Triple.ret_returns {P : S → Prop} {M : α → S → Prop} {a : α} (hP : Stable con i P)
    (hM : ∀ s, con.Inv s → P s → M a s) : Triple sys con i P (.ret a) (Returns M) :=
  fun s _ hp s' hi hr => hM s' hi (hP s s' hi hr hp)

theorem Triple.raise_returns {P : S → Prop} {M : α → S → Prop} {e : ε} :
    Triple sys con i P (.raise e) (Returns M) := fun _ _ _ _ _ _ => trivial

end Meets

/-! ## Pools -/

variable [DecidableEq ι] {sys : System ι ε C S} {con : Contract ι S}
  {Q : ι → Except ε α → S → Prop}

/-- Every thread of the pool meets its contract. -/
structure AllMeet (sys : System ι ε C S) (con : Contract ι S)
    (Q : ι → Except ε α → S → Prop) (c : Config ι ε C S α) : Prop where
  inv : con.Inv c.state
  meets : ∀ i, Meets sys con i (Q i) (c.thread i) c.state

/-- One step of the pool keeps every contract. -/
theorem AllMeet.step (hfit : con.Fits sys) {c c' : Config ι ε C S α} (h : Step sys c c')
    (hc : AllMeet sys con Q c) : AllMeet sys con Q c' := by
  cases h with
  | thread i cmd k r hcall hstep =>
    have hi := hc.meets i
    rw [hcall] at hi
    obtain ⟨hinv, hg, hk⟩ := hi _ hc.inv (hfit.rely_refl i _) r _ hstep
    refine ⟨hinv, fun j => ?_⟩
    by_cases hj : j = i
    · subst hj
      simpa using hk
    · simp only [Function.update_of_ne hj]
      exact (hc.meets j).stable (hfit.rely_trans j) (hfit.guar_rely (Ne.symm hj) hc.inv hg)
  | env hs =>
    exact ⟨hfit.env_inv hs hc.inv,
      fun j => (hc.meets j).stable (hfit.rely_trans j) (hfit.env_rely j hs hc.inv)⟩

/-- Every run keeps every contract. -/
theorem Run.allMeet (hfit : con.Fits sys) {c c' : Config ι ε C S α} (h : Run sys c c')
    (hc : AllMeet sys con Q c) : AllMeet sys con Q c' := by
  induction h with
  | refl => exact hc
  | tail _ hstep ih => exact ih.step hfit hstep

end Vivac.Lib
