import Vivac.Lib.Program
import Mathlib.Logic.Function.Basic
import Mathlib.Order.WellFounded

/-!
# Interleaved runs of a pool of programs

A `System` gives the meaning of one command issued by one thread on a shared
state, and the steps the environment takes by itself. A `Config` is the shared
state with the residual program of every thread; a step runs one command of one
thread, or one environment step, and `Run` is any finite interleaving of them.

`System.guarded` keeps the thread steps that meet a condition, so its runs are
the runs of the system all of whose steps meet it. A deterministic system is
given by a function (`System.ofExec`), and `follow` computes the run of a
schedule; `run_of_follow` turns the computed run into a `Run`.
-/

set_option autoImplicit false

namespace Vivac.Lib

variable {ι ε : Type} {C : Type → Type 1} {S α : Type}

/-- The meaning of commands on a shared state, and the environment's own steps. -/
structure System (ι ε : Type) (C : Type → Type 1) (S : Type) where
  step : ι → ∀ {β : Type}, C β → S → Except ε β → S → Prop
  env : S → S → Prop

namespace System

/-- The system whose commands are computed; `none` is a command that has to wait. -/
def ofExec (exec : ι → ∀ {β : Type}, C β → S → Option (Except ε β × S)) (env : S → S → Prop) :
    System ι ε C S where
  step i _ c s r s' := exec i c s = some (r, s')
  env := env

/-- The system restricted to the thread steps that meet `ok`. -/
def guarded (sys : System ι ε C S) (ok : ι → S → S → Prop) : System ι ε C S where
  step i _ c s r s' := sys.step i c s r s' ∧ ok i s s'
  env := sys.env

end System

/-- A shared state with the residual program of every thread. -/
structure Config (ι ε : Type) (C : Type → Type 1) (S α : Type) where
  state : S
  thread : ι → Prog ε C α

variable [DecidableEq ι]

/-- One step of the pool: one command of one thread, or one step of the environment. -/
inductive Step (sys : System ι ε C S) : Config ι ε C S α → Config ι ε C S α → Prop
  | thread {c : Config ι ε C S α} {s' : S} (i : ι) {β : Type} (cmd : C β)
      (k : Except ε β → Prog ε C α) (r : Except ε β) (hcall : c.thread i = .call cmd k)
      (hstep : sys.step i cmd c.state r s') :
      Step sys c ⟨s', Function.update c.thread i (k r)⟩
  | env {c : Config ι ε C S α} {s' : S} (h : sys.env c.state s') : Step sys c ⟨s', c.thread⟩

/-- Any finite interleaving. -/
abbrev Run (sys : System ι ε C S) : Config ι ε C S α → Config ι ε C S α → Prop :=
  Relation.ReflTransGen (Step sys)

/-- The runs whose steps meet a condition on the pool before and after, on its programs too. -/
abbrev RunWhere (sys : System ι ε C S) (ok : Config ι ε C S α → Config ι ε C S α → Prop) :
    Config ι ε C S α → Config ι ε C S α → Prop :=
  Relation.ReflTransGen fun c c' => Step sys c c' ∧ ok c c'

/-- A guarded step is a step. -/
theorem Step.of_guarded {sys : System ι ε C S} {ok : ι → S → S → Prop}
    {c c' : Config ι ε C S α} (h : Step (sys.guarded ok) c c') : Step sys c c' := by
  cases h with
  | thread i cmd k r hcall hstep => exact .thread i cmd k r hcall hstep.1
  | env h => exact .env h

theorem Run.of_guarded {sys : System ι ε C S} {ok : ι → S → S → Prop}
    {c c' : Config ι ε C S α} (h : Run (sys.guarded ok) c c') : Run sys c c' :=
  Relation.ReflTransGen.mono (fun _ _ => Step.of_guarded) _ _ h

/-- What follows the threads' programs does not matter before they end. -/
theorem Run.bind {β : Type} {sys : System ι ε C S} (f : α → Prog ε C β) {c c' : Config ι ε C S α}
    (h : Run sys c c') :
    Run sys ⟨c.state, fun i => (c.thread i).bind f⟩ ⟨c'.state, fun i => (c'.thread i).bind f⟩ := by
  let followed (c : Config ι ε C S α) : Config ι ε C S β := ⟨c.state, fun i => (c.thread i).bind f⟩
  have hlift : ∀ c c', Step sys c c' → Step sys (followed c) (followed c') := by
    intro c c' hstep
    cases hstep with
    | @thread s' i γ cmd k r hcall hs =>
      have hbind : (fun j => (Function.update c.thread i (k r) j).bind f) =
          Function.update (fun j => (c.thread j).bind f) i ((k r).bind f) := by
        funext j
        by_cases hj : j = i
        · subst hj
          simp
        · simp [hj]
      have hcall' : (c.thread i).bind f = .call cmd fun r => (k r).bind f := by
        rw [hcall]
        rfl
      simp only [followed, hbind]
      exact .thread i cmd (fun r => (k r).bind f) r hcall' hs
    | env hs => exact .env hs
  exact Relation.ReflTransGen.lift followed hlift _ _ h

/-- A run of a system is a run of one that can do as much. -/
theorem Run.of_le {sys sys' : System ι ε C S} {c c' : Config ι ε C S α}
    (hstep : ∀ i {β : Type} (c : C β) s r s', sys.step i c s r s' → sys'.step i c s r s')
    (henv : ∀ s s', sys.env s s' → sys'.env s s') (h : Run sys c c') : Run sys' c c' := by
  refine Relation.ReflTransGen.mono (fun a b hab => ?_) _ _ h
  cases hab with
  | thread i cmd k r hcall hs => exact .thread i cmd k r hcall (hstep i cmd _ _ _ hs)
  | env hs => exact .env (henv _ _ hs)

/-- A thread with the program it started with has not moved: the run was made of steps
of the others, and has every two-state property they have. -/
theorem Run.idle {sys : System ι ε C S} {T : S → S → Prop} (j : ι) (hrefl : ∀ s, T s s)
    (htrans : ∀ {a b c}, T a b → T b c → T a c)
    (hthread : ∀ i, i ≠ j → ∀ {β : Type} (cmd : C β) s r s', sys.step i cmd s r s' → T s s')
    (henv : ∀ s s', sys.env s s' → T s s') {c c' : Config ι ε C S α} (h : Run sys c c')
    (hj : c'.thread j = c.thread j) : T c.state c'.state := by
  have hmoved : c'.thread j = c.thread j ∧ T c.state c'.state ∨
      Relation.TransGen Prog.Next (c'.thread j) (c.thread j) := by
    clear hj
    induction h with
    | refl => exact .inl ⟨rfl, hrefl _⟩
    | @tail b _ _ hstep ih =>
      cases hstep with
      | @thread s' i β cmd k r hcall hs =>
        by_cases hij : j = i
        · subst hij
          have hnext : Prog.Next (Function.update b.thread j (k r) j) (b.thread j) :=
            ⟨β, cmd, k, r, hcall, Function.update_self ..⟩
          rcases ih with ⟨hsame, -⟩ | hlater
          · exact .inr (hsame ▸ .single hnext)
          · exact .inr (.head hnext hlater)
        · have hkeep : Function.update b.thread i (k r) j = b.thread j :=
            Function.update_of_ne hij _ _
          rcases ih with ⟨hsame, hT⟩ | hlater
          · exact .inl ⟨hkeep.trans hsame, htrans hT (hthread i (Ne.symm hij) cmd _ r _ hs)⟩
          · refine .inr ?_
            show Relation.TransGen Prog.Next (Function.update b.thread i (k r) j) _
            rw [hkeep]
            exact hlater
      | env hs =>
        rcases ih with ⟨hsame, hT⟩ | hlater
        · exact .inl ⟨hsame, htrans hT (henv _ _ hs)⟩
        · exact .inr hlater
  rcases hmoved with ⟨-, hT⟩ | hlater
  · exact hT
  · rw [hj] at hlater
    exact absurd hlater (Prog.wellFounded_next.transGen.irrefl.irrefl _)

/-- A step of a system is a step under a condition that always holds. -/
theorem Step.guarded {sys : System ι ε C S} {ok : ι → S → S → Prop} (hok : ∀ i s s', ok i s s')
    {c c' : Config ι ε C S α} (h : Step sys c c') : Step (sys.guarded ok) c c' := by
  cases h with
  | thread i cmd k r hcall hs => exact .thread i cmd k r hcall ⟨hs, hok _ _ _⟩
  | env hs => exact .env hs

theorem Run.guarded {sys : System ι ε C S} {ok : ι → S → S → Prop} (hok : ∀ i s s', ok i s s')
    {c c' : Config ι ε C S α} (h : Run sys c c') : Run (sys.guarded ok) c c' :=
  Relation.ReflTransGen.mono (fun _ _ => Step.guarded hok) _ _ h

/-- A condition that every state of the run meets may be asked of its steps. -/
theorem Run.guarded_strengthen {sys : System ι ε C S} {ok ok' : ι → S → S → Prop}
    {c c' : Config ι ε C S α}
    (h : ∀ b, Run (sys.guarded ok) c b → Run (sys.guarded ok') c b →
      ∀ i s', ok i b.state s' → ok' i b.state s')
    (hrun : Run (sys.guarded ok) c c') : Run (sys.guarded ok') c c' := by
  induction hrun with
  | refl => exact .refl
  | tail hrun hstep ih =>
    apply ih.tail
    cases hstep with
    | thread j cmd k r hcall hs => exact .thread j cmd k r hcall ⟨hs.1, h _ hrun ih j _ hs.2⟩
    | env henv => exact .env henv

/-! ## Computed runs -/

section Follow

variable (exec : ι → ∀ {β : Type}, C β → S → Option (Except ε β × S))

/-- The next command of thread `i`. -/
def advance (i : ι) (c : Config ι ε C S α) : Option (Config ι ε C S α) :=
  match c.thread i with
  | .call cmd k =>
    match exec i cmd c.state with
    | some (r, s') => some ⟨s', Function.update c.thread i (k r)⟩
    | none => none
  | _ => none

/-- The run of a schedule: the threads of the list issue one command each, in order. -/
def follow : List ι → Config ι ε C S α → Option (Config ι ε C S α)
  | [], c => some c
  | i :: is, c =>
    match advance exec i c with
    | some c' => follow is c'
    | none => none

/-- The run of a schedule, if its steps meet a condition on the pool. -/
def followWhere (ok : Config ι ε C S α → Config ι ε C S α → Prop) [DecidableRel ok] :
    List ι → Config ι ε C S α → Option (Config ι ε C S α)
  | [], c => some c
  | i :: is, c =>
    match advance exec i c with
    | some c' => if ok c c' then followWhere ok is c' else none
    | none => none

/-- A computed command restricted to the steps that meet a decidable condition. -/
def guardExec (ok : ι → S → S → Prop) [∀ i s s', Decidable (ok i s s')] :
    ι → ∀ {β : Type}, C β → S → Option (Except ε β × S) :=
  fun i _ cmd s =>
    match exec i cmd s with
    | some (r, s') => if ok i s s' then some (r, s') else none
    | none => none

variable {exec}

theorem step_of_advance {env : S → S → Prop} {i : ι} {c c' : Config ι ε C S α}
    (h : advance exec i c = some c') : Step (.ofExec exec env) c c' := by
  unfold advance at h
  split at h
  · rename_i cmd k hcall
    split at h
    · rename_i r s' hexec
      cases h
      exact .thread i cmd k r hcall hexec
    · cases h
  · cases h

/-- A computed run is a run. -/
theorem run_of_follow {env : S → S → Prop} {is : List ι} {c c' : Config ι ε C S α}
    (h : follow exec is c = some c') : Run (.ofExec exec env) c c' := by
  induction is generalizing c with
  | nil =>
    cases h
    exact Relation.ReflTransGen.refl
  | cons i is ih =>
    unfold follow at h
    split at h
    · rename_i c₁ hadv
      exact Relation.ReflTransGen.head (step_of_advance hadv) (ih h)
    · cases h

theorem run_of_followWhere {env : S → S → Prop}
    {ok : Config ι ε C S α → Config ι ε C S α → Prop} [DecidableRel ok] {is : List ι}
    {c c' : Config ι ε C S α} (h : followWhere exec ok is c = some c') :
    RunWhere (.ofExec exec env) ok c c' := by
  induction is generalizing c with
  | nil =>
    cases h
    exact Relation.ReflTransGen.refl
  | cons i is ih =>
    unfold followWhere at h
    split at h
    · rename_i c₁ hadv
      split at h
      · rename_i hok
        exact Relation.ReflTransGen.head ⟨step_of_advance hadv, hok⟩ (ih h)
      · cases h
    · cases h

/-- A thread that the schedule does not name is as it was. -/
theorem thread_follow {is : List ι} {c c' : Config ι ε C S α} {j : ι} (hj : j ∉ is)
    (h : follow exec is c = some c') : c'.thread j = c.thread j := by
  induction is generalizing c with
  | nil =>
    cases h
    rfl
  | cons i is ih =>
    simp only [List.mem_cons, not_or] at hj
    unfold follow at h
    split at h
    · rename_i c₁ hadv
      rw [ih hj.2 h]
      unfold advance at hadv
      split at hadv
      · split at hadv
        · cases hadv
          exact Function.update_of_ne hj.1 _ _
        · cases hadv
      · cases hadv
    · cases h

/-- A computed run that ends as `p` says. -/
theorem exists_run_of_follow {E : S → S → Prop} (is : List ι) {c : Config ι ε C S α}
    {p : Config ι ε C S α → Bool} (h : (follow exec is c).any p = true) :
    ∃ c', Run (.ofExec exec E) c c' ∧ p c' = true := by
  obtain ⟨c', hfollow, hp⟩ := (Option.any_eq_true _ _).1 h
  exact ⟨c', run_of_follow hfollow, hp⟩

omit [DecidableEq ι] in
theorem guardExec_eq_some {ok : ι → S → S → Prop} [∀ i s s', Decidable (ok i s s')] {i : ι}
    {β : Type} {cmd : C β} {s s' : S} {r : Except ε β}
    (h : guardExec exec ok i cmd s = some (r, s')) :
    exec i cmd s = some (r, s') ∧ ok i s s' := by
  simp only [guardExec] at h
  split at h
  · rename_i r₁ s₁ h₁
    split at h
    · rename_i hok
      cases h
      exact ⟨h₁, hok⟩
    · cases h
  · cases h

/-- A step of a guarded command is a step of the guarded system. -/
theorem Step.of_guardExec {env : S → S → Prop} {ok : ι → S → S → Prop}
    [∀ i s s', Decidable (ok i s s')] {c c' : Config ι ε C S α}
    (h : Step (.ofExec (guardExec exec ok) env) c c') :
    Step ((System.ofExec exec env).guarded ok) c c' := by
  cases h with
  | thread i cmd k r hcall hs => exact .thread i cmd k r hcall (guardExec_eq_some hs)
  | env hs => exact .env hs

/-- A run of guarded commands is a run of the guarded system. -/
theorem Run.of_guardExec {env : S → S → Prop} {ok : ι → S → S → Prop}
    [∀ i s s', Decidable (ok i s s')] {c c' : Config ι ε C S α}
    (h : Run (.ofExec (guardExec exec ok) env) c c') :
    Run ((System.ofExec exec env).guarded ok) c c' :=
  Relation.ReflTransGen.mono (fun _ _ => Step.of_guardExec) _ _ h

/-- A stronger condition admits fewer runs. -/
theorem Run.guarded_mono {sys : System ι ε C S} {ok ok' : ι → S → S → Prop}
    (hok : ∀ i s s', ok' i s s' → ok i s s') {c c' : Config ι ε C S α}
    (h : Run (sys.guarded ok') c c') : Run (sys.guarded ok) c c' := by
  refine Relation.ReflTransGen.mono (fun a b hab => ?_) _ _ h
  cases hab with
  | thread i cmd k r hcall hs => exact .thread i cmd k r hcall ⟨hs.1, hok _ _ _ hs.2⟩
  | env hs => exact .env hs

/-! ## One thread by itself -/

variable (exec)

/-- Thread `i` runs the program to its end with nobody in between; `none` is a wait. -/
def runAlone (i : ι) : Prog ε C α → S → Option (Except ε α × S)
  | .ret a, s => some (.ok a, s)
  | .raise e, s => some (.error e, s)
  | .call c k, s =>
    match exec i c s with
    | some (r, s') => runAlone i (k r) s'
    | none => none

variable {exec}

omit [DecidableEq ι] in
/-- Sequencing of lone runs. -/
theorem runAlone_bind {β : Type} (i : ι) (p : Prog ε C β) (f : β → Prog ε C α) (s : S) :
    runAlone exec i (p.bind f) s =
      (runAlone exec i p s).bind fun out =>
        match out with
        | (.ok b, s') => runAlone exec i (f b) s'
        | (.error e, s') => some (.error e, s') := by
  induction p generalizing s with
  | ret a => rfl
  | raise e => rfl
  | call c k ih =>
    simp only [Prog.bind_call, runAlone]
    split
    · exact ih _ _
    · rfl

omit [DecidableEq ι] in
theorem runAlone_attempt (i : ι) (p : Prog ε C α) (s : S) :
    runAlone exec i p.attempt s = (runAlone exec i p s).map fun out => (.ok out.1, out.2) := by
  induction p generalizing s with
  | ret a => rfl
  | raise e => rfl
  | call c k ih =>
    simp only [Prog.attempt, runAlone]
    split
    · exact ih _ _
    · rfl

/-- A lone run is a run of the pool: thread `i` goes on with what follows the outcome. -/
theorem run_of_runAlone {β : Type} {env : S → S → Prop} {i : ι} {p : Prog ε C β}
    {f : Except ε β → Prog ε C α} {r : Except ε β} {c : Config ι ε C S α} {s' : S}
    (h : runAlone exec i p c.state = some (r, s')) (hc : c.thread i = p.attempt.bind f) :
    Run (.ofExec exec env) c ⟨s', Function.update c.thread i (f r)⟩ := by
  induction p generalizing c with
  | ret a =>
    cases h
    rw [show f (.ok a) = c.thread i from hc.symm, Function.update_eq_self]
  | raise e =>
    cases h
    rw [show f (.error e) = c.thread i from hc.symm, Function.update_eq_self]
  | call cmd k ih =>
    simp only [runAlone] at h
    split at h
    · rename_i r₁ s₁ hexec
      have hstep : Step (.ofExec exec env) c
          ⟨s₁, Function.update c.thread i ((k r₁).attempt.bind f)⟩ :=
        .thread i cmd (fun r => (k r).attempt.bind f) r₁ hc hexec
      have hrest := ih r₁ (c := ⟨s₁, Function.update c.thread i ((k r₁).attempt.bind f)⟩) h
        (Function.update_self ..)
      simp only [Function.update_idem] at hrest
      exact Relation.ReflTransGen.head hstep hrest
    · cases h

/-- A thread that runs to its end by itself. -/
theorem run_to_end {env : S → S → Prop} {i : ι} {r : Except ε α} {c : Config ι ε C S α} {s' : S}
    (h : runAlone exec i (c.thread i) c.state = some (r, s')) :
    Run (.ofExec exec env) c ⟨s', Function.update c.thread i (.ofExcept r)⟩ :=
  run_of_runAlone h (Prog.attempt_bind_ofExcept _).symm

end Follow

end Vivac.Lib
