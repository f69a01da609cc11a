import Vivac.Lib.OwnCommits
import Vivac.Lib.Transitions

/-!
# Programs that come to a running pool

A thread that waits is given its program while the others run (`Config.give`). Contracts and
transitions survive it when the new program keeps them. A clock dates the databases that statements
meet, so that what a session has seen is dated between its arrival and now (`SeenDated`).
-/

set_option autoImplicit false

namespace Vivac.Lib

/-! ## Programs that come -/

section Give

variable {ι ε : Type} {C : Type → Type 1} {S α : Type} [DecidableEq ι]

/-- Thread `i` goes on with `p`. -/
def Config.give (c : Config ι ε C S α) (i : ι) (p : Prog ε C α) : Config ι ε C S α :=
  ⟨c.state, Function.update c.thread i p⟩

variable {c : Config ι ε C S α} {i j : ι} {p : Prog ε C α}

@[simp] theorem Config.state_give : (c.give i p).state = c.state := rfl

@[simp] theorem Config.thread_give_self : (c.give i p).thread i = p := Function.update_self ..

theorem Config.thread_give_of_ne (h : j ≠ i) : (c.give i p).thread j = c.thread j :=
  Function.update_of_ne h ..

theorem AllMeet.give {sys : System ι ε C S} {con : Contract ι S} {Q : ι → Except ε α → S → Prop}
    (h : AllMeet sys con Q c) (hp : Meets sys con i (Q i) p c.state) :
    AllMeet sys con Q (c.give i p) := by
  refine ⟨h.inv, fun j => ?_⟩
  by_cases hj : j = i
  · subst hj
    rw [Config.thread_give_self]
    exact hp
  · rw [Config.thread_give_of_ne hj]
    exact h.meets j

end Give

/-- An outcome that is a value was returned. -/
theorem mayReturn_of_attempt {ε : Type} {C : Type → Type 1} {α : Type} {p : Prog ε C α} {a : α}
    (h : p.attempt.MayReturn (.ok a)) : p.MayReturn a := by
  induction p with
  | ret b =>
      cases h
      rfl
  | raise e => cases h
  | call c k ih =>
      obtain ⟨r, hr⟩ := h
      exact ⟨r, ih r hr⟩

section Sessions

variable {ι D K Ch V ε α β : Type} [DecidableEq ι] [DecidableEq K] [Faults ε]
  {c c' : Config ι ε (Cmd D K Ch V ε) (World ι D K Ch V) α} {i : ι}
  {p : Prog ε (Cmd D K Ch V ε) α} {ok : ι → World ι D K Ch V → World ι D K Ch V → Prop}

omit [DecidableEq K] [Faults ε] in
theorem AllTransit.give {T : D → D → Prop} {start : D} (h : AllTransit T start c)
    (hp : Transits (T start) T (fun _ => True) p) : AllTransit T start (c.give i p) := by
  refine ⟨h.course, fun j => ?_⟩
  by_cases hj : j = i
  · subst hj
    rw [Config.thread_give_self]
    exact hp
  · rw [Config.thread_give_of_ne hj]
    exact h.transits j

/-- Any program keeps the terms of sessions that promise nothing, and returns what it may return. -/
theorem meets_mayReturn {R : α → Prop} (h : ∀ a, p.MayReturn a → R a) {s : World ι D K Ch V} :
    Meets (sessions ok) (ownTerms (fun _ _ _ _ => True) ok).contract i (Returns fun a _ =>
      R a) p s := by
  induction p generalizing s with
  | ret a => exact fun _ _ _ => h a rfl
  | raise e => exact fun _ _ _ => trivial
  | call cmd k ih =>
      rintro s₁ - - r s₂ ⟨hexec, hguard⟩
      refine ⟨trivial, ⟨⟨?_, hguard⟩, fun j hj => ⟨exec_undisturbed hj hexec, trivial⟩⟩,
        ih r fun a ha => h a ⟨r, ha⟩⟩
      rcases exec_db_cases hexec with ⟨hdb, hcommits⟩ | ⟨-, rfl⟩
      · exact .quiet hdb hcommits
      · exact .commit trivial rfl commits_execCommit

/-! ## Dates -/

variable {τ : Type}

/-- What the sessions have seen is dated between their arrival and now. -/
def SeenDated [LE τ] (arrival : ι → τ) (past : List (τ × D)) (now : τ) (s : World ι D K Ch V) :
    Prop :=
  ∀ i, ∀ d ∈ s.seen i, ∃ t, (t, d) ∈ past ∧ arrival i ≤ t ∧ t ≤ now

variable [Preorder τ] {arrival : ι → τ} {past : List (τ × D)} {now later : τ} {s : World ι D K Ch V}

omit [DecidableEq ι] [DecidableEq K] in
theorem SeenDated.mono (h : SeenDated arrival past now s) (hnow : now ≤ later) :
    SeenDated arrival past later s := by
  intro i d hd
  obtain ⟨t, hpast, harrival, ht⟩ := h i d hd
  exact ⟨t, hpast, harrival, ht.trans hnow⟩

/-- One step of the pool, of a thread that has arrived. -/
theorem SeenDated.step (h : SeenDated arrival past now c.state)
    (harrived : ∀ i {β : Type} {cmd : Cmd D K Ch V ε β} {k : Except ε β →
      Prog ε (Cmd D K Ch V ε) α},
      c.thread i = .call cmd k → arrival i ≤ now)
    (hstep : Step platform c c') :
      SeenDated arrival (past ++ [(now, c.state.db)]) now c'.state := by
  have hold : ∀ i, ∀ d ∈ c.state.seen i,
      ∃ t, (t, d) ∈ past ++ [(now, c.state.db)] ∧ arrival i ≤ t ∧ t ≤ now := by
    intro i d hd
    obtain ⟨t, hpast, hbounds⟩ := h i d hd
    exact ⟨t, List.mem_append_left _ hpast, hbounds⟩
  intro j d hd
  cases hstep with
  | thread i cmd k r hcall hs =>
      by_cases hj : j = i
      · subst hj
        rcases exec_seen hs j with hsame | hsaw
        · exact hold j d (hsame ▸ hd)
        · rw [hsaw] at hd
          rcases List.mem_cons.1 hd with rfl | hd
          · -- the statement has met the committed database of now
            exact ⟨now, List.mem_append_right _ List.mem_cons_self, harrived j hcall, le_rfl⟩
          · exact hold j d hd
      · rw [(exec_undisturbed hj hs).seen] at hd
        exact hold j d hd
  | env henv =>
      rw [(henv.undisturbed j).seen] at hd
      exact hold j d hd

end Sessions

end Vivac.Lib
