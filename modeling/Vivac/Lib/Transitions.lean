import Vivac.Lib.PendingWork

/-!
# Programs whose writes are transitions

`T` is a reflexive and transitive relation of databases. When every write of every program takes
each database along `T`, so does every commit, and the committed database of any run is one that
the start has a transition to. A program may rely on that: what it reads is related to the start.

`Transits A T Q p`: on databases of which `A` holds, every write of `p` is a transition, and what
`p` returns is as `Q` says.
-/

set_option autoImplicit false

namespace Vivac.Lib

variable {ι D K Ch V ε α β R : Type}

/-- The write of the command is a transition, and `P` holds of every answer. -/
def Cmd.Transit (A : D → Prop) (T : D → D → Prop) :
    {β : Type} → Cmd D K Ch V ε β → (Except ε β → Prop) → Prop
  | _, .sql st, P =>
    (∀ locked d, A d → ∀ eff, st locked d = .ok eff →
      (∀ d', T d' (eff.write d')) ∧ P (.ok eff.result)) ∧ ∀ e, P (.error e)
  | _, .commit, P => ∀ r, P r
  | _, .rollback, P => ∀ r, P r
  | _, .savepoint, P => ∀ r, P r
  | _, .release, P => ∀ r, P r
  | _, .rollbackTo, P => ∀ r, P r
  | _, .get _, P => ∀ r, P r
  | _, .set _ _, P => ∀ r, P r
  | _, .incr _, P => ∀ r, P r

/-- Every write of the program is a transition, and it returns as `Q` says. -/
def Transits (A : D → Prop) (T : D → D → Prop) (Q : α → Prop) :
    Prog ε (Cmd D K Ch V ε) α → Prop
  | .ret a => Q a
  | .raise _ => True
  | .call c k => c.Transit A T fun r => Transits A T Q (k r)

section Rules

variable {A : D → Prop} {T : D → D → Prop} {Q : α → Prop}

theorem Cmd.Transit.mono {P P' : Except ε β → Prop} {c : Cmd D K Ch V ε β}
    (h : c.Transit A T P) (hP : ∀ r, P r → P' r) : c.Transit A T P' := by
  cases c with
  | sql st =>
      obtain ⟨hok, herror⟩ := h
      refine ⟨fun locked d hd eff heff => ?_, fun e => hP _ (herror e)⟩
      obtain ⟨hwrite, hnext⟩ := hok locked d hd eff heff
      exact ⟨hwrite, hP _ hnext⟩
  | commit => exact fun r => hP r (h r)
  | rollback => exact fun r => hP r (h r)
  | savepoint => exact fun r => hP r (h r)
  | release => exact fun r => hP r (h r)
  | rollbackTo => exact fun r => hP r (h r)
  | get key => exact fun r => hP r (h r)
  | set key v => exact fun r => hP r (h r)
  | incr key => exact fun r => hP r (h r)

theorem Transits.bind {M : β → Prop} {p : Prog ε (Cmd D K Ch V ε) β}
    {f : β → Prog ε (Cmd D K Ch V ε) α} (h : Transits A T M p)
    (hf : ∀ b, M b → Transits A T Q (f b)) : Transits A T Q (p.bind f) := by
  induction p with
  | ret b => exact hf b h
  | raise e => trivial
  | call c k ih => exact Cmd.Transit.mono h fun r h' => ih r h'

/-- The outcome as a value. -/
def Outcome (Q : α → Prop) : Except ε α → Prop
  | .ok a => Q a
  | .error _ => True

theorem Transits.attempt {p : Prog ε (Cmd D K Ch V ε) α} (h : Transits A T Q p) :
    Transits A T (Outcome Q) p.attempt := by
  induction p with
  | ret a => exact h
  | raise e => trivial
  | call c k ih => exact Cmd.Transit.mono h fun r h' => ih r h'

theorem Transits.ofExcept {r : Except ε α} (h : ∀ a, r = .ok a → Q a) :
    Transits A T Q (Prog.ofExcept r : Prog ε (Cmd D K Ch V ε) α) := by
  cases r with
  | ok a => exact h a rfl
  | error e => trivial

/-- One statement. -/
theorem Transits.sql {st : Stmt D K Ch ε R} {M : R → Prop}
    (h : ∀ locked d, A d → ∀ eff, st locked d = .ok eff →
      (∀ d', T d' (eff.write d')) ∧ M eff.result) :
    Transits A T M (Prog.perform (.sql st) : Prog ε (Cmd D K Ch V ε) R) :=
  ⟨h, fun _ => trivial⟩

/-- A `SELECT` answers of a database of which `A` holds. -/
theorem Transits.read (hrefl : ∀ d, T d d) {f : D → R} {M : R → Prop} (h : ∀ d, A d → M (f d)) :
    Transits A T M
      (Prog.perform (.sql (Stmt.read f : Stmt D K Ch ε R)) : Prog ε (Cmd D K Ch V ε) R) := by
  apply Transits.sql
  intro locked d hd eff heff
  cases heff
  exact ⟨hrefl, h d hd⟩

/-- A command whose write is a transition whatever it has seen. -/
def Cmd.Moves (T : D → D → Prop) : {β : Type} → Cmd D K Ch V ε β → Prop
  | _, .sql st => ∀ locked d eff, st locked d = .ok eff → ∀ d', T d' (eff.write d')
  | _, _ => True

theorem Transits.of_uses {p : Prog ε (Cmd D K Ch V ε) α} (h : p.Uses (Cmd.Moves T)) :
    Transits A T (fun _ => True) p := by
  induction p with
  | ret a => trivial
  | raise e => trivial
  | call c k ih =>
      obtain ⟨hc, hk⟩ := h
      cases c with
      | sql st =>
          refine ⟨fun locked d _ eff heff => ⟨hc locked d eff heff, ih _ (hk _)⟩,
            fun e => ih _ (hk _)⟩
      | commit => exact fun r => ih r (hk r)
      | rollback => exact fun r => ih r (hk r)
      | savepoint => exact fun r => ih r (hk r)
      | release => exact fun r => ih r (hk r)
      | rollbackTo => exact fun r => ih r (hk r)
      | get key => exact fun r => ih r (hk r)
      | set key v => exact fun r => ih r (hk r)
      | incr key => exact fun r => ih r (hk r)

end Rules

/-! ## Pools -/

section Pool

variable {T : D → D → Prop} {start : D} {s s' : World ι D K Ch V} {i : ι}

/-- The committed database is one the start has a transition to, and all pending work is a
transition. -/
structure OnCourse (T : D → D → Prop) (start : D) (s : World ι D K Ch V) : Prop where
  db : T start s.db
  works : ∀ i, ∀ w ∈ s.works i, ∀ d, T d (w.write d)

variable [DecidableEq ι] [DecidableEq K] [Faults ε]

omit [DecidableEq ι] [DecidableEq K] [Faults ε] in
theorem OnCourse.view (h : OnCourse T start s) (htrans : ∀ {a b c}, T a b → T b c → T a c)
    (i : ι) : T start (s.view i) :=
  htrans h.db (h.works i _ (List.mem_cons_self ..) s.db)

/-- A command of a session keeps the course, and what it commits is a transition. -/
theorem Cmd.Transit.exec (hrefl : ∀ d, T d d) (htrans : ∀ {a b c}, T a b → T b c → T a c)
    {c : Cmd D K Ch V ε β} {P : Except ε β → Prop} {r : Except ε β}
    (h : c.Transit (T start) T P) (hs : OnCourse T start s) (hexec : exec i c s = some (r, s')) :
    OnCourse T start s' ∧ T s.db s'.db ∧ P r := by
  have hdb : T s.db s'.db := by
    rcases exec_db_cases hexec with ⟨hsame, -⟩ | ⟨-, rfl⟩
    · rw [hsame]
      exact hrefl s.db
    · exact hs.works i _ (List.mem_cons_self ..) s.db
  have hown : ∀ w ∈ s'.works i, ∀ d, T d (w.write d) := by
    intro w hw
    rcases exec_works hexec w hw with hold | rfl | hext
    · exact hs.works i w hold
    · exact hrefl
    · cases c with
      | sql st =>
          obtain ⟨-, eff, heff, rfl⟩ := hext
          intro d
          exact htrans (hs.works i _ (List.mem_cons_self ..) d)
            ((h.1 _ _ (hs.view htrans i) eff heff).1 _)
      | commit => exact hext.elim
      | rollback => exact hext.elim
      | savepoint => exact hext.elim
      | release => exact hext.elim
      | rollbackTo => exact hext.elim
      | get key => exact hext.elim
      | set key v => exact hext.elim
      | incr key => exact hext.elim
  refine ⟨⟨htrans hs.db hdb, fun j => ?_⟩, hdb, ?_⟩
  · by_cases hj : j = i
    · rw [hj]
      exact hown
    · intro w hw
      rcases (exec_undisturbed hj hexec).tx with ⟨htx, -⟩ | hlost
      · rw [World.works, htx] at hw
        exact hs.works j w hw
      · rw [World.works, hlost] at hw
        have hnone : w = {} := by simpa using hw
        rw [hnone]
        exact hrefl
  · cases c with
    | sql st =>
        rcases exec_sql_cases hexec with ⟨-, ⟨e, rfl⟩, -⟩ | ⟨-, e, -, rfl, -⟩ |
            ⟨-, eff, heff, -, rfl, -⟩
        · exact h.2 e
        · exact h.2 e
        · exact (h.1 _ _ (hs.view htrans i) eff heff).2
    | commit => exact h r
    | rollback => exact h r
    | savepoint => exact h r
    | release => exact h r
    | rollbackTo => exact h r
    | get key => exact h r
    | set key v => exact h r
    | incr key => exact h r

omit [Faults ε] in
theorem OnCourse.env (hrefl : ∀ d, T d d) (hs : OnCourse T start s) (henv : Env s s') :
    OnCourse T start s' := by
  refine ⟨?_, fun j w hw => ?_⟩
  · rw [henv.db_eq]
    exact hs.db
  · rcases (henv.undisturbed j).tx with ⟨htx, -⟩ | hlost
    · rw [World.works, htx] at hw
      exact hs.works j w hw
    · rw [World.works, hlost] at hw
      have hnone : w = {} := by simpa using hw
      rw [hnone]
      exact hrefl

/-- A session that runs by itself keeps the course, and what it has committed is a transition. -/
theorem Transits.runAlone (hrefl : ∀ d, T d d) (htrans : ∀ {a b c}, T a b → T b c → T a c)
    {Q : α → Prop} {p : Prog ε (Cmd D K Ch V ε) α} {r : Except ε α} (h : Transits (T start) T Q p)
    (hs : OnCourse T start s) (hrun : runAlone (fun i => exec i) i p s = some (r, s')) :
    OnCourse T start s' ∧ T s.db s'.db := by
  induction p generalizing s with
  | ret a =>
      cases hrun
      exact ⟨hs, hrefl _⟩
  | raise e =>
      cases hrun
      exact ⟨hs, hrefl _⟩
  | call c k ih =>
      simp only [Lib.runAlone] at hrun
      split at hrun
      · rename_i r₁ s₁ hexec
        obtain ⟨hcourse, hdb, hnext⟩ := Cmd.Transit.exec hrefl htrans h hs hexec
        obtain ⟨hend, hrest⟩ := ih r₁ hnext hcourse hrun
        exact ⟨hend, htrans hdb hrest⟩
      · cases hrun

variable {Q : α → Prop} {c c' : Config ι ε (Cmd D K Ch V ε) (World ι D K Ch V) α}

/-- Every session is on course, and what is left of its program transits. -/
structure AllTransit (T : D → D → Prop) (start : D)
    (c : Config ι ε (Cmd D K Ch V ε) (World ι D K Ch V) α) : Prop where
  course : OnCourse T start c.state
  transits : ∀ i, Transits (T start) T (fun _ => True) (c.thread i)

/-- One step of the pool. -/
theorem AllTransit.step (hrefl : ∀ d, T d d) (htrans : ∀ {a b c}, T a b → T b c → T a c)
    (h : AllTransit T start c) (hstep : Step platform c c') :
    AllTransit T start c' ∧ T c.state.db c'.state.db := by
  cases hstep with
  | thread i cmd k r hcall hs =>
      have hi := h.transits i
      rw [hcall] at hi
      obtain ⟨hcourse, hdb, hnext⟩ := Cmd.Transit.exec hrefl htrans hi h.course hs
      refine ⟨⟨hcourse, fun j => ?_⟩, hdb⟩
      by_cases hj : j = i
      · subst hj
        simpa using hnext
      · simpa only [Function.update_of_ne hj] using h.transits j
  | env henv =>
      refine ⟨⟨h.course.env hrefl henv, h.transits⟩, ?_⟩
      show T c.state.db _
      rw [henv.db_eq]
      exact hrefl _

theorem AllTransit.run (hrefl : ∀ d, T d d) (htrans : ∀ {a b c}, T a b → T b c → T a c)
    (h : AllTransit T start c) (hrun : Run platform c c') : AllTransit T start c' := by
  induction hrun with
  | refl => exact h
  | tail _ hstep ih => exact (ih.step hrefl htrans hstep).1

omit [DecidableEq ι] [DecidableEq K] [Faults ε] in
/-- A pool whose sessions are idle is on course. -/
theorem onCourse_of_idle (hrefl : ∀ d, T d d) (htx : ∀ i, s.tx i = {}) : OnCourse T s.db s := by
  refine ⟨hrefl _, fun i w hw => ?_⟩
  rw [World.works, htx i] at hw
  have hnone : w = {} := by simpa using hw
  rw [hnone]
  exact hrefl

end Pool

end Vivac.Lib
