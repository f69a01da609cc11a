import Vivac.Lib.FaultyPools

/-!
# Laws of pending work

A `WorkLaw` says what the pending work of a session is like on the committed database, when the
session has committed this much. It may look at the rows the work has locked and at no others, so
that it survives what the other sessions commit. When the work every statement leaves obeys the
law, all pending work does (`WorkLaw.Kept.of_step`), and what a commit publishes is work that obeys
it.

`workTerms` are the terms of sessions under a law: `WorkLaw.Publishes` is what a commit has to
keep, and `Triple.workAct` the rule for one command.
-/

set_option autoImplicit false

namespace Vivac.Lib

variable {ι D K Ch V ε ρ α β : Type}

/-- The pending work of session `i`, now and at its savepoints. -/
def World.works (s : World ι D K Ch V) (i : ι) : List (Work D K Ch) :=
  (s.tx i).work :: (s.tx i).saved

/-- The work with the effect of one more statement. -/
def Work.andThen {R : Type} (w : Work D K Ch) (eff : Effect D K Ch R) : Work D K Ch :=
  ⟨eff.write ∘ w.write, w.locks ++ eff.locks, w.changes ++ eff.changes⟩

/-- The command is a statement that makes `w` of the pending work of session `i`. -/
def Cmd.Extends [DecidableEq ι] [DecidableEq K] (i : ι) (s : World ι D K Ch V) :
    {β : Type} → Cmd D K Ch V ε β → Work D K Ch → Prop
  | _, .sql st, w =>
    (s.tx i).status = .active ∧ ∃ eff, st (s.heldByOther i) (s.view i) = .ok eff ∧
      w = (s.tx i).work.andThen eff
  | _, _, _ => False

/-- The step publishes nothing, or all the pending work of session `i`. -/
inductive Publication [DecidableEq ι] (i : ι) (s s' : World ι D K Ch V) : Prop
  | quiet (hdb : s'.db = s.db) (hcommits : s'.commits i = s.commits i)
  | commit (hactive : (s.tx i).status = .active) (hdb : s'.db = (s.tx i).work.write s.db)
      (hcommits : s'.commits i = s.commits i ++ [(s.tx i).work.changes])
      (hidle : ∀ w ∈ s'.works i, w = {})

/-- A system of locking sessions whose commands answer as the platform's do, and otherwise
leave less pending work, or fail to say that they have published it. -/
structure Transacting [DecidableEq ι] [DecidableEq K] [Faults ε] (row : K → D → ρ)
    (sys : System ι ε (Cmd D K Ch V ε) (World ι D K Ch V)) : Prop extends Locking row sys where
  answers : ∀ {i : ι} {β : Type} {c : Cmd D K Ch V ε β} {s : World ι D K Ch V} {a : β}
    {s' : World ι D K Ch V}, sys.step i c s (.ok a) s' → exec i c s = some (.ok a, s')
  works : ∀ {i : ι} {β : Type} {c : Cmd D K Ch V ε β} {s : World ι D K Ch V} {r : Except ε β}
    {s' : World ι D K Ch V}, sys.step i c s r s' →
    ∀ w ∈ s'.works i, w ∈ s.works i ∨ w = {} ∨ c.Extends i s w
  publishes : ∀ {i : ι} {β : Type} {c : Cmd D K Ch V ε β} {s : World ι D K Ch V}
    {r : Except ε β} {s' : World ι D K Ch V}, sys.step i c s r s' → Publication i s s'

section Systems

variable [DecidableEq ι] [DecidableEq K] [Faults ε] {s s' : World ι D K Ch V} {i : ι}
  {row : K → D → ρ}

omit [DecidableEq K] [Faults ε] in
theorem World.works_setTx {t : Tx D K Ch} : (s.setTx i t).works i = t.work :: t.saved := by
  simp [World.works, World.setTx]

/-- A command leaves the session with the work it had, with none, or with that of its
statement. -/
theorem exec_works {c : Cmd D K Ch V ε β} {r : Except ε β} (h : exec i c s = some (r, s')) :
    ∀ w ∈ s'.works i, w ∈ s.works i ∨ w = {} ∨ c.Extends i s w := by
  have hidle : ∀ {t : World ι D K Ch V}, ∀ w ∈ (endTx i t).works i, w = {} := by
    intro t w hw
    rw [endTx, World.works_setTx] at hw
    simpa using hw
  cases c with
  | sql st =>
    rcases exec_sql_cases h with ⟨-, -, rfl⟩ | ⟨-, e, -, -, rfl⟩ | ⟨hst, eff, heff, -, -, rfl⟩
    · exact fun w hw => .inl hw
    · intro w hw
      rw [World.works_setTx] at hw
      exact .inl hw
    · intro w hw
      rw [World.works_setTx] at hw
      rcases List.mem_cons.1 hw with rfl | hw
      · exact .inr (.inr ⟨hst, eff, heff, rfl⟩)
      · exact .inl (List.mem_cons_of_mem _ hw)
  | commit =>
    rcases exec_commit_cases h with ⟨-, -, rfl⟩ | ⟨-, -, rfl⟩ | ⟨-, -, rfl⟩
    · exact fun w hw => .inr (.inl (hidle w hw))
    · exact fun w hw => .inr (.inl (hidle w hw))
    · exact fun w hw => .inl hw
  | rollback =>
    obtain ⟨-, rfl⟩ := exec_rollback_eq h
    exact fun w hw => .inr (.inl (hidle w hw))
  | savepoint =>
    simp only [exec, onActive] at h
    split at h <;> cases h
    · intro w hw
      rw [World.works_setTx] at hw
      rcases List.mem_cons.1 hw with rfl | hw
      · exact .inl (List.mem_cons_self ..)
      · exact .inl hw
    · exact fun w hw => .inl hw
    · exact fun w hw => .inl hw
  | release =>
    simp only [exec, onActive] at h
    split at h <;> cases h
    · intro w hw
      rw [World.works_setTx] at hw
      rcases List.mem_cons.1 hw with rfl | hw
      · exact .inl (List.mem_cons_self ..)
      · exact .inl (List.mem_cons_of_mem _ (List.mem_of_mem_tail hw))
    · exact fun w hw => .inl hw
    · exact fun w hw => .inl hw
  | rollbackTo =>
    simp only [exec] at h
    split at h <;> cases h
    · exact fun w hw => .inl hw
    · unfold execRollbackTo
      split
      · exact fun w hw => .inl hw
      · rename_i v vs hsaved
        intro w hw
        rw [World.works_setTx] at hw
        refine .inl (List.mem_cons_of_mem _ ?_)
        rw [hsaved]
        exact hw
  | get key =>
    rcases exec_get_cases h with ⟨-, -, rfl⟩ | ⟨n, -, -, rfl⟩ | ⟨v, p, -, -, rfl⟩ <;>
      exact fun w hw => .inl hw
  | set key v =>
    obtain ⟨-, rfl⟩ := exec_set_eq h
    exact fun w hw => .inl hw
  | incr key =>
    rcases exec_incr_cases h with ⟨v, p, -, -, rfl⟩ | ⟨-, -, rfl⟩ <;> exact fun w hw => .inl hw

theorem exec_publishes {c : Cmd D K Ch V ε β} {r : Except ε β} (h : exec i c s = some (r, s')) :
    Publication i s s' := by
  rcases exec_db_cases h with ⟨hdb, hcommits⟩ | ⟨hactive, rfl⟩
  · exact .quiet hdb hcommits
  · apply Publication.commit hactive rfl commits_execCommit
    intro w hw
    rw [execCommit, endTx, World.works_setTx] at hw
    simpa using hw

omit [Faults ε] in
theorem works_disconnect : ∀ w ∈ (s.disconnect i).works i, w = {} := by
  intro w hw
  rw [World.disconnect, World.works_setTx] at hw
  simpa using hw

variable {ordinary atStore : ε → Prop}

theorem transacting_faulty (row : K → D → ρ) :
    Transacting row (faulty ordinary atStore : System ι ε (Cmd D K Ch V ε) (World ι D K Ch V)) where
  toLocking := locking_faulty
  answers h := h.resolve_right fun hfault => by cases hfault
  works {i β c s r s'} h := by
    rcases h with hran | hfault
    · exact exec_works hran
    · intro w hw
      cases hfault with
      | client _ => exact .inl hw
      | server _ _ _ =>
        rw [World.setStatus, World.works_setTx] at hw
        exact .inl hw
      | connection _ => exact .inr (.inl (works_disconnect w hw))
      | committed hactive => exact .inr (.inl (works_disconnect w hw))
      | store _ _ => exact .inl hw
      | stored _ _ hran => exact exec_works hran w hw
  publishes {i β c s r s'} h := by
    rcases h with hran | hfault
    · exact exec_publishes hran
    · cases hfault with
      | client _ => exact .quiet rfl rfl
      | server _ _ _ => exact .quiet rfl rfl
      | connection _ => exact .quiet rfl rfl
      | committed hactive =>
        exact .commit hactive rfl commits_execCommit works_disconnect
      | store _ _ => exact .quiet rfl rfl
      | stored _ _ hran => exact exec_publishes hran

end Systems

/-! ## Laws -/

/-- What pending work is like on the committed database, in a session that has committed this
much. -/
structure WorkLaw (row : K → D → ρ) (Ch : Type) where
  holds : List (List Ch) → D → Work D K Ch → Prop
  none : ∀ c d, holds c d {}
  rows : ∀ {c d d' w}, (∀ k ∈ w.locks, row k d' = row k d) → holds c d w → holds c d' w

namespace WorkLaw

variable {row : K → D → ρ} (law : WorkLaw row Ch) [DecidableEq ι]

/-- All pending work obeys the law. -/
def Kept (s : World ι D K Ch V) : Prop := ∀ i, ∀ w ∈ s.works i, law.holds (s.commits i) s.db w

variable {law} {s s' : World ι D K Ch V} {i j : ι}

theorem kept_of_idle (h : ∀ i, s.tx i = {}) : law.Kept s := by
  intro i w hw
  rw [World.works, h i] at hw
  have hnone : w = {} := by simpa using hw
  rw [hnone]
  exact law.none _ s.db

/-- Work of a session that others leave alone obeys the law still. -/
theorem Kept.of_undisturbed (hkept : law.Kept s) (hlocks : LocksHold row s)
    (hund : Undisturbed j s s') (hrows : KeepsRows row j s s') :
    ∀ w ∈ s'.works j, law.holds (s'.commits j) s'.db w := by
  have hlost : s'.tx j = { status := .lost } →
      ∀ w ∈ s'.works j, law.holds (s'.commits j) s'.db w := by
    intro htx w hw
    rw [World.works, htx] at hw
    have hnone : w = {} := by simpa using hw
    rw [hnone]
    exact law.none _ s'.db
  rcases hund.tx with ⟨htx, -⟩ | htx
  · rcases hrows with htx' | hsame
    · exact hlost htx'
    · intro w hw
      rw [World.works, htx] at hw
      rw [hund.commits]
      apply law.rows _ (hkept j w hw)
      intro k hk
      apply hsame
      apply hlocks.held j
      rcases List.mem_cons.1 hw with rfl | hsaved
      · exact hk
      · exact (List.pairwise_cons.1 (hlocks.nested j)).1 w hsaved hk
  · exact hlost htx

theorem Kept.of_env [DecidableEq K] (hkept : law.Kept s)
    (hlocks : LocksHold row s) (henv : Env s s') : law.Kept s' :=
  fun j => hkept.of_undisturbed hlocks (henv.undisturbed j) henv.keepsRows

variable [DecidableEq K] [Faults ε]
  {sys : System ι ε (Cmd D K Ch V ε) (World ι D K Ch V)}

/-- A confined command keeps the law when the work its statement leaves obeys it. -/
theorem Kept.of_step (hsys : Transacting row sys) {c : Cmd D K Ch V ε β} {r : Except ε β}
    (hc : c.Confined row) (hlocks : LocksHold row s) (hkept : law.Kept s)
    (hs : sys.step i c s r s')
    (hnew : ∀ w ∈ s'.works i, c.Extends i s w → law.holds (s.commits i) s.db w) :
    law.Kept s' := by
  intro j
  by_cases hj : j = i
  · subst hj
    intro w hw
    cases hsys.publishes hs with
    | quiet hdb hcommits =>
      rw [hdb, hcommits]
      rcases hsys.works hs w hw with hold | hnone | hext
      · exact hkept j w hold
      · rw [hnone]
        exact law.none _ s.db
      · exact hnew w hw hext
    | commit _ _ _ hidle =>
      rw [hidle w hw]
      exact law.none _ s'.db
  · exact hkept.of_undisturbed hlocks (hsys.others hs hj) ((hsys.locks hs hc hlocks).2 j hj)

end WorkLaw

/-! ## Contracts of sessions under a law -/

section Terms

variable {row : K → D → ρ} [DecidableEq ι] (law : WorkLaw row Ch)
  (J : D → (ι → List (List Ch)) → Prop) (own : ι → World ι D K Ch V → World ι D K Ch V → Prop)

/-- Sessions whose pending work obeys the law; `J` holds of the committed database and of what
has been committed. -/
def workTerms : Terms ι D K Ch V :=
  lockTerms row (fun s => law.Kept s ∧ J s.db s.commits) own

/-- A step that publishes nothing is an own step, and publishing work that obeys the law keeps
`J`. -/
structure WorkLaw.Publishes : Prop where
  quiet : ∀ {i : ι} {s s' : World ι D K Ch V}, s'.db = s.db → own i s s'
  commit : ∀ {i : ι} {s s' : World ι D K Ch V}, law.holds (s.commits i) s.db (s.tx i).work →
    J s.db s.commits → s'.db = (s.tx i).work.write s.db →
    s'.commits = Function.update s.commits i (s.commits i ++ [(s.tx i).work.changes]) →
    J s'.db s'.commits ∧ own i s s'

variable {law J own} [DecidableEq K] [Faults ε]
  {sys : System ι ε (Cmd D K Ch V ε) (World ι D K Ch V)} {i : ι} {s s' : World ι D K Ch V}

omit [Faults ε] in
theorem workTerms_fair : (workTerms law J own).Fair where
  refl _ _ := .of_db rfl
  trans _ _ _ _ hab hbc h₁ h₂ := h₁.trans hab hbc h₂
  env {s s'} h hi := by
    refine ⟨⟨hi.1.of_env h, hi.2.1.of_env hi.1 h, ?_⟩, fun _ => h.keepsRows⟩
    have hcommits : s'.commits = s.commits := funext fun j => h.commits_eq
    rw [h.db_eq, hcommits]
    exact hi.2.2

/-- What a step does to the commits of all sessions. -/
theorem Transacting.commits (hsys : Transacting row sys) {c : Cmd D K Ch V ε β} {r : Except ε β}
    (hs : sys.step i c s r s') :
    s'.db = s.db ∧ s'.commits = s.commits ∨
      s'.db = (s.tx i).work.write s.db ∧
        s'.commits = Function.update s.commits i (s.commits i ++ [(s.tx i).work.changes]) := by
  have hothers : ∀ j, j ≠ i → s'.commits j = s.commits j := fun j hj => (hsys.others hs hj).commits
  cases hsys.publishes hs with
  | quiet hdb hcommits =>
    refine .inl ⟨hdb, funext fun j => ?_⟩
    by_cases hj : j = i
    · rw [hj, hcommits]
    · exact hothers j hj
  | commit _ hdb hcommits _ =>
    refine .inr ⟨hdb, funext fun j => ?_⟩
    by_cases hj : j = i
    · rw [hj, hcommits, Function.update_self]
    · rw [hothers j hj, Function.update_of_ne hj]

/-- A confined command of a session under the law. -/
theorem WorkLaw.Publishes.step (hpub : law.Publishes J own) (hsys : Transacting row sys)
    {c : Cmd D K Ch V ε β} {r : Except ε β} (hc : c.Confined row)
    (hi : (workTerms law J own).inv s) (hs : sys.step i c s r s')
    (hnew : ∀ w ∈ s'.works i, c.Extends i s w → law.holds (s.commits i) s.db w) :
    (workTerms law J own).contract.Inv s' ∧ (workTerms law J own).contract.G i s s' := by
  obtain ⟨hlocks, hkept, hJ⟩ := hi
  obtain ⟨hlocks', hrows⟩ := hsys.locks hs hc hlocks
  have hkept' := hkept.of_step hsys hc hlocks hs hnew
  have hrely : ∀ j, j ≠ i → Undisturbed j s s' ∧ KeepsRows row j s s' :=
    fun j hj => ⟨hsys.others hs hj, hrows j hj⟩
  rcases hsys.commits hs with ⟨hdb, hcommits⟩ | ⟨hdb, hcommits⟩
  · refine ⟨⟨hlocks', hkept', ?_⟩, hpub.quiet hdb, hrely⟩
    rw [hdb, hcommits]
    exact hJ
  · obtain ⟨hJ', hown⟩ := hpub.commit (hkept i _ (List.mem_cons_self ..)) hJ hdb hcommits
    exact ⟨⟨hlocks', hkept', hJ'⟩, hown, hrely⟩

/-- One confined command: left to prove is that the work its statement leaves obeys the law,
and what holds afterwards. -/
theorem Triple.workAct (hpub : law.Publishes J own) (hsys : Transacting row sys)
    {c : Cmd D K Ch V ε β} {P : World ι D K Ch V → Prop} {M : Except ε β → World ι D K Ch V → Prop}
    (hc : c.Confined row) (hP : Stable (workTerms law J own).contract i P)
    (hM : ∀ r, Stable (workTerms law J own).contract i (M r))
    (hstep : ∀ s r s', (workTerms law J own).inv s → P s → sys.step i c s r s' →
      (∀ w ∈ s'.works i, c.Extends i s w → law.holds (s.commits i) s.db w) ∧ M r s') :
    Triple sys (workTerms law J own).contract i P (Prog.perform c) M := by
  apply Triple.perform hP hM
  intro s r s' hi hp hs
  obtain ⟨hnew, hm⟩ := hstep s r s' hi hp hs
  obtain ⟨hinv, hown⟩ := hpub.step hsys hc hi hs hnew
  exact ⟨hinv, hown, hm⟩

end Terms

end Vivac.Lib
