import Vivac.Lib.LocalKnowledge
import Vivac.Lib.PendingWork

/-!
# What a session knows of itself

`Own` is what a session knows of itself whatever the others do: the work of its transaction,
the committed databases its statements ran on, and what it has committed. `sessionLogic` is the
logic of it: `A` says what is known of the committed database a statement meets, from what the
session has seen and committed, and `F` what holds of the work at each commit.

A pool of such programs commits nothing but work of which `F` holds (`AllKnow.own_induct`): an
invariant of the committed database is left to check at these commits only.

`calm` is the platform without its environment: nobody loses a connection.
-/

set_option autoImplicit false

namespace Vivac.Lib

variable {ι D K Ch V ε α β γ R : Type}

/-- What a session knows of itself; `none` is a transaction that has failed or is lost. -/
structure Own (D K Ch : Type) where
  work : Option (Work D K Ch) := some {}
  seen : List D := []
  commits : List (List Ch) := []

/-- A fact about the work of a session, what its statements saw, and what it has committed. -/
abbrev CommitFact (D K Ch : Type) := Work D K Ch → List D → List (List Ch) → Prop

/-- What is known of the committed database a statement meets, when the session has seen and
committed this much. -/
abbrev MeetFact (D Ch : Type) := List D → List (List Ch) → D → Prop

namespace Own

variable (o : Own D K Ch)

/-- The transaction is of no more use. -/
def broken : Own D K Ch := { o with work := none }

/-- One more statement has run, on the committed database `d`. -/
def saw (d : D) : Own D K Ch := { o with seen := d :: o.seen }

/-- The work after a statement. -/
def withWork (w : Work D K Ch) : Own D K Ch := { o with work := some w }

/-- The work is committed, and the next transaction empty. -/
def publish (w : Work D K Ch) : Own D K Ch :=
  { o with work := some {}, commits := o.commits ++ [w.changes] }

end Own

/-- What holds after a command, for every answer it may give; `lossy` allows the server to end
the connection. -/
def Cmd.Result [Faults ε] (lossy : Prop) (A : MeetFact D Ch) (F : CommitFact D K Ch) :
    {β : Type} → Cmd D K Ch V ε β → Own D K Ch → (Except ε β → Own D K Ch → Prop) → Prop
  | _, .sql st, o, P =>
    match o.work with
    | some w =>
      (∀ locked d, A o.seen o.commits d → ∀ eff, st locked (w.write d) = .ok eff →
        (∀ k ∈ eff.locks, locked k = false) →
        P (.ok eff.result) ((o.saw d).withWork (w.andThen eff))) ∧
      (∀ locked d, A o.seen o.commits d → ∀ e, st locked (w.write d) = .error e →
        P (.error e) (o.saw d).broken) ∧
      (lossy → P (.error Faults.lostConnection) o.broken)
    | none => P (.error Faults.failedTx) o ∧ (lossy → P (.error Faults.lostConnection) o)
  | _, .commit, o, P =>
    match o.work with
    | some w => F w o.seen o.commits ∧ P (.ok ()) (o.publish w) ∧
        (lossy → P (.error Faults.lostConnection) o.broken)
    | none => P (.ok ()) (o.withWork {}) ∧ (lossy → P (.error Faults.lostConnection) o)
  | _, .rollback, o, P => P (.ok ()) (o.withWork {})
  | _, .get _, o, P => ∀ a, P (.ok a) o
  | _, .set _ _, o, P => P (.ok ()) o
  | _, .incr _, o, P => P (.ok ()) o ∧ P (.error Faults.wrongType) o
  | _, _, _, _ => False

section Result

variable [Faults ε] {lossy : Prop} {A : MeetFact D Ch} {F : CommitFact D K Ch} {o : Own D K Ch}

theorem Cmd.Result.mono {P P' : Except ε β → Own D K Ch → Prop} {c : Cmd D K Ch V ε β}
    (h : c.Result lossy A F o P) (hP : ∀ r o, P r o → P' r o) : c.Result lossy A F o P' := by
  cases c with
  | sql st =>
      simp only [Cmd.Result] at h ⊢
      split at h
      · obtain ⟨hok, herror, hlost⟩ := h
        refine ⟨fun locked d hd eff heff hfree => ?_, fun locked d hd e he => ?_, fun hl => ?_⟩
        · exact hP _ _ (hok locked d hd eff heff hfree)
        · exact hP _ _ (herror locked d hd e he)
        · exact hP _ _ (hlost hl)
      · exact ⟨hP _ _ h.1, fun hl => hP _ _ (h.2 hl)⟩
  | commit =>
      simp only [Cmd.Result] at h ⊢
      split at h
      · exact ⟨h.1, hP _ _ h.2.1, fun hl => hP _ _ (h.2.2 hl)⟩
      · exact ⟨hP _ _ h.1, fun hl => hP _ _ (h.2 hl)⟩
  | rollback => exact hP _ _ h
  | savepoint => exact h
  | release => exact h
  | rollbackTo => exact h
  | get key => exact fun a => hP _ _ (h a)
  | set key v => exact hP _ _ h
  | incr key => exact ⟨hP _ _ h.1, hP _ _ h.2⟩

end Result

/-! ## Sessions -/

variable [DecidableEq ι] [DecidableEq K] [Faults ε]

/-- `o` is what session `i` knows of itself. -/
structure Own.Of (o : Own D K Ch) (i : ι) (s : World ι D K Ch V) : Prop where
  seen : s.seen i = o.seen
  commits : s.commits i = o.commits
  tx : match o.work with
    | some w => s.tx i = { work := w } ∨ (s.tx i).status = .lost
    | none => (s.tx i).status ≠ .active

/-- A step publishes nothing, or the work of session `i`, with `F` of what it knows of itself. -/
inductive CommitStep (F : ι → CommitFact D K Ch) (i : ι) (s s' : World ι D K Ch V) : Prop
  | quiet (hdb : s'.db = s.db) (hcommits : s'.commits i = s.commits i)
  | commit (hfact : F i (s.tx i).work (s.seen i) (s.commits i))
      (hdb : s'.db = (s.tx i).work.write s.db)
      (hcommits : s'.commits i = s.commits i ++ [(s.tx i).work.changes])

variable {lossy : Prop} {F : ι → CommitFact D K Ch}
  {ok : ι → World ι D K Ch V → World ι D K Ch V → Prop} {A : MeetFact D Ch} {i j : ι}
  {s s' : World ι D K Ch V} {o : Own D K Ch}

omit [DecidableEq K] [Faults ε] in
theorem Own.Of.undisturbed (h : o.Of i s) (hund : Undisturbed i s s') : o.Of i s' := by
  rcases hund.tx with ⟨htx, -⟩ | htx
  · refine ⟨hund.seen.trans h.seen, hund.commits.trans h.commits, ?_⟩
    rw [htx]
    exact h.tx
  · refine ⟨hund.seen.trans h.seen, hund.commits.trans h.commits, ?_⟩
    rw [htx]
    split
    · exact .inr rfl
    · exact fun h => by cases h

omit [DecidableEq K] [Faults ε] in
/-- A session whose transaction is over knows only what it has seen and committed. -/
theorem Own.Of.ended {t : World ι D K Ch V} (htx : t.tx i = {}) (hseen : t.seen i = o.seen)
    (hcommits : t.commits i = o.commits) : (o.withWork {}).Of i t :=
  ⟨hseen, hcommits, .inl htx⟩

/-- A statement. -/
theorem Cmd.Result.exec_sql {P : Except ε R → Own D K Ch → Prop} {st : Stmt D K Ch ε R}
    {r : Except ε R} (h : (Cmd.sql st : Cmd D K Ch V ε R).Result lossy A (F i) o P) (ho : o.Of i s)
    (hlossy : (s.tx i).status = .lost → lossy) (hA : A o.seen o.commits s.db)
    (hexec : exec i (.sql st) s = some (r, s')) : ∃ o' : Own D K Ch, o'.Of i s' ∧ P r o' := by
  have hcommits : s'.commits i = o.commits := (exec_sql_db hexec).2.trans ho.commits
  have htx := ho.tx
  have hseen : (s.query i).seen i = (o.saw s.db).seen := by
    show Function.update s.seen i (s.db :: s.seen i) i = s.db :: o.seen
    rw [Function.update_self, ho.seen]
  simp only [Cmd.Result] at h
  split at h
  · rename_i w hw
    rw [hw] at htx
    obtain ⟨hok, herror, hlost⟩ := h
    rcases exec_sql_cases hexec with ⟨hst, -, rfl⟩ | ⟨hst, e, he, rfl, rfl⟩ |
        ⟨hst, eff, heff, hfree, rfl, rfl⟩
    · rcases htx with htx | htx
      · rw [htx] at hst
        exact absurd rfl hst
      · have hr : r = .error Faults.lostConnection := by
          simp only [Lib.exec, onActive, htx, Option.some.injEq, Prod.mk.injEq, and_true] at hexec
          exact hexec.symm
        exact ⟨o.broken, ⟨ho.seen, ho.commits, hst⟩, hr ▸ hlost (hlossy htx)⟩
    · rcases htx with htx | htx
      · have hview : s.view i = w.write s.db := by rw [World.view, htx]
        rw [hview] at he
        refine ⟨(o.saw s.db).broken, ⟨hseen, hcommits, ?_⟩, herror _ _ hA e he⟩
        show ((Function.update s.tx i _) i).status ≠ .active
        rw [Function.update_self]
        exact fun h => by cases h
      · rw [htx] at hst
        cases hst
    · rcases htx with htx | htx
      · have hview : s.view i = w.write s.db := by rw [World.view, htx]
        rw [hview] at heff
        refine ⟨(o.saw s.db).withWork (w.andThen eff), ⟨hseen, hcommits, .inl ?_⟩,
          hok _ _ hA eff heff hfree⟩
        show Function.update s.tx i _ i = _
        rw [Function.update_self, htx]
        rfl
      · rw [htx] at hst
        cases hst
  · rename_i hw
    rw [hw] at htx
    rcases exec_sql_cases hexec with ⟨hst, -, rfl⟩ | ⟨hst, -⟩ | ⟨hst, -⟩
    · cases hstatus : (s'.tx i).status with
      | active => exact absurd hstatus hst
      | failed =>
          simp only [Lib.exec, onActive, hstatus, Option.some.injEq, Prod.mk.injEq, and_true]
            at hexec
          exact ⟨o, ho, hexec ▸ h.1⟩
      | lost =>
          simp only [Lib.exec, onActive, hstatus, Option.some.injEq, Prod.mk.injEq, and_true]
            at hexec
          exact ⟨o, ho, hexec ▸ h.2 (hlossy hstatus)⟩
    · exact absurd hst htx
    · exact absurd hst htx

/-- A commit. -/
theorem Cmd.Result.exec_commit {P : Except ε Unit → Own D K Ch → Prop} {r : Except ε Unit}
    (h : (Cmd.commit : Cmd D K Ch V ε Unit).Result lossy A (F i) o P) (ho : o.Of i s)
    (hlossy : (s.tx i).status = .lost → lossy) (hexec : exec i .commit s = some (r, s')) :
    CommitStep F i s s' ∧ ∃ o' : Own D K Ch, o'.Of i s' ∧ P r o' := by
  have htx := ho.tx
  have hidle : ∀ t : World ι D K Ch V, (endTx i t).tx i = {} := fun t => Function.update_self ..
  simp only [Cmd.Result] at h
  split at h
  · rename_i w hw
    rw [hw] at htx
    obtain ⟨hfact, hok, hlost⟩ := h
    rcases exec_commit_cases hexec with ⟨hst, rfl, rfl⟩ | ⟨hst, -, -⟩ | ⟨hst, -, rfl⟩
    · rcases htx with htx | htx
      · have hwork : (s.tx i).work = w := by rw [htx]
        have hcommits := commits_execCommit (s := s) (i := i)
        refine ⟨.commit ?_ rfl hcommits, o.publish w, ⟨ho.seen, ?_, .inl (hidle _)⟩, hok⟩
        · rw [hwork, ho.seen, ho.commits]
          exact hfact
        · rw [hcommits, hwork, ho.commits]
          rfl
      · rw [htx] at hst
        cases hst
    · rcases htx with htx | htx
      · rw [htx] at hst
        cases hst
      · rw [htx] at hst
        cases hst
    · simp only [Lib.exec, hst, Option.some.injEq, Prod.mk.injEq, and_true] at hexec
      refine ⟨.quiet rfl rfl, o.broken, ⟨ho.seen, ho.commits, ?_⟩, hexec ▸ hlost (hlossy hst)⟩
      rw [Own.broken, hst]
      exact fun h => by cases h
  · rename_i hw
    rw [hw] at htx
    rcases exec_commit_cases hexec with ⟨hst, -, -⟩ | ⟨hst, rfl, rfl⟩ | ⟨hst, -, rfl⟩
    · exact absurd hst htx
    · have hcommits := commits_rollback (s := s) (i := i) (j := i)
      exact ⟨.quiet rfl hcommits, o.withWork {},
        Own.Of.ended (hidle _) ho.seen (hcommits.trans ho.commits), h.1⟩
    · simp only [Lib.exec, hst, Option.some.injEq, Prod.mk.injEq, and_true] at hexec
      exact ⟨.quiet rfl rfl, o, ho, hexec ▸ h.2 (hlossy hst)⟩

/-- One command of a session takes its knowledge to what is said of it. -/
theorem Cmd.Result.exec {P : Except ε β → Own D K Ch → Prop} {c : Cmd D K Ch V ε β}
    {r : Except ε β} (h : c.Result lossy A (F i) o P) (ho : o.Of i s)
    (hlossy : (s.tx i).status = .lost → lossy) (hA : A o.seen o.commits s.db)
    (hexec : exec i c s = some (r, s')) :
    CommitStep F i s s' ∧ ∃ o' : Own D K Ch, o'.Of i s' ∧ P r o' := by
  cases c with
  | sql st =>
      obtain ⟨hdb, hcommits⟩ := exec_sql_db hexec
      exact ⟨.quiet hdb hcommits, h.exec_sql ho hlossy hA hexec⟩
  | commit => exact h.exec_commit ho hlossy hexec
  | rollback =>
      obtain ⟨rfl, rfl⟩ := exec_rollback_eq hexec
      have hcommits := commits_rollback (s := s) (i := i) (j := i)
      exact ⟨.quiet rfl hcommits, o.withWork {},
        Own.Of.ended (Function.update_self ..) ho.seen (hcommits.trans ho.commits), h⟩
  | savepoint => exact h.elim
  | release => exact h.elim
  | rollbackTo => exact h.elim
  | get key =>
      have hlog : (s.log i (.get key)).commits i = s.commits i := by
        rw [World.commits_log]
        exact List.append_nil _
      rcases exec_get_cases hexec with ⟨-, rfl, rfl⟩ | ⟨n, -, rfl, rfl⟩ | ⟨v, q, -, rfl, rfl⟩ <;>
        exact ⟨.quiet rfl hlog, o, ⟨ho.seen, hlog.trans ho.commits, ho.tx⟩, h _⟩
  | set key v =>
      have hlog : (s.log i (.set key)).commits i = s.commits i := by
        rw [World.commits_log]
        exact List.append_nil _
      obtain ⟨rfl, rfl⟩ := exec_set_eq hexec
      exact ⟨.quiet rfl hlog, o, ⟨ho.seen, hlog.trans ho.commits, ho.tx⟩, h⟩
  | incr key =>
      have hlog : (s.log i (.incr key (s.counter key + 1))).commits i = s.commits i := by
        rw [World.commits_log]
        exact List.append_nil _
      cases hkey : s.redis key with
      | none =>
          simp only [Lib.exec, hkey, Option.some.injEq, Prod.mk.injEq] at hexec
          obtain ⟨rfl, rfl⟩ := hexec
          exact ⟨.quiet rfl hlog, o, ⟨ho.seen, hlog.trans ho.commits, ho.tx⟩, h.1⟩
      | some stored =>
          cases stored with
          | counter n =>
              simp only [Lib.exec, hkey, Option.some.injEq, Prod.mk.injEq] at hexec
              obtain ⟨rfl, rfl⟩ := hexec
              exact ⟨.quiet rfl hlog, o, ⟨ho.seen, hlog.trans ho.commits, ho.tx⟩, h.1⟩
          | body v p =>
              simp only [Lib.exec, hkey, Option.some.injEq, Prod.mk.injEq] at hexec
              obtain ⟨rfl, rfl⟩ := hexec
              exact ⟨.quiet rfl rfl, o, ho, h.2⟩

/-! ## Systems of sessions -/

/-- The platform without its environment: no connection is lost, and no cached body expires. -/
abbrev calm (ok : ι → World ι D K Ch V → World ι D K Ch V → Prop) :
    System ι ε (Cmd D K Ch V ε) (World ι D K Ch V) :=
  (System.ofExec (fun i => Lib.exec i) fun _ _ => False).guarded ok

/-- A system of sessions whose steps meet `ok`, in which a connection is lost only if `lossy`. -/
structure Attended (lossy : Prop) (ok : ι → World ι D K Ch V → World ι D K Ch V → Prop)
    (sys : System ι ε (Cmd D K Ch V ε) (World ι D K Ch V)) : Prop extends Framed sys where
  runs : ∀ {i : ι} {β : Type} {c : Cmd D K Ch V ε β} {s : World ι D K Ch V} {r : Except ε β}
    {s' : World ι D K Ch V}, sys.step i c s r s' → Lib.exec i c s = some (r, s') ∧ ok i s s'
  losses : ∀ {s s' : World ι D K Ch V}, sys.env s s' → lossy

theorem attended_sessions (ok : ι → World ι D K Ch V → World ι D K Ch V → Prop) :
    Attended True ok (sessions ok : System ι ε (Cmd D K Ch V ε) (World ι D K Ch V)) where
  toFramed := framed_sessions ok
  runs h := h
  losses _ := trivial

theorem attended_calm (ok : ι → World ι D K Ch V → World ι D K Ch V → Prop) :
    Attended False ok (calm ok : System ι ε (Cmd D K Ch V ε) (World ι D K Ch V)) where
  others h hj := exec_undisturbed hj h.1
  env h := h.elim
  runs h := h
  losses h := h

/-- The transactions the server has ended are those it could end. -/
def Connected (lossy : Prop) (s : World ι D K Ch V) : Prop :=
  ∀ i, (s.tx i).status = .lost → lossy

/-- A command does not lose the connection of a session. -/
theorem lost_of_exec {c : Cmd D K Ch V ε β} {r : Except ε β} (h : exec i c s = some (r, s'))
    (hlost : (s'.tx j).status = .lost) : (s.tx j).status = .lost := by
  have hset : ∀ (t : World ι D K Ch V) (x : Tx D K Ch), t.tx = s.tx → x.status ≠ .lost →
      ((t.setTx i x).tx j).status = .lost → (s.tx j).status = .lost := by
    intro t x htx hx hl
    by_cases hj : j = i
    · subst hj
      have hself : (t.setTx j x).tx j = x := Function.update_self ..
      rw [hself] at hl
      exact absurd hl hx
    · have hother : (t.setTx i x).tx j = t.tx j := Function.update_of_ne hj _ _
      rw [hother, htx] at hl
      exact hl
  have hend : ∀ t : World ι D K Ch V, t.tx = s.tx → ((endTx i t).tx j).status = .lost →
      (s.tx j).status = .lost := by
    intro t htx hl
    exact hset (t.unlock i []) {} htx (by simp) hl
  cases c with
  | sql st =>
      rcases exec_sql_cases h with ⟨-, -, rfl⟩ | ⟨-, e, -, -, rfl⟩ | ⟨hst, eff, -, -, -, rfl⟩
      · exact hlost
      · exact hset _ _ rfl (by simp) hlost
      · exact hset ((s.query i).lock i eff.locks) _ rfl (by simp [hst]) hlost
  | commit =>
      rcases exec_commit_cases h with ⟨-, -, rfl⟩ | ⟨-, -, rfl⟩ | ⟨-, -, rfl⟩
      · unfold execCommit at hlost
        exact hend _ rfl hlost
      · exact hend (s.log i .rollback) rfl hlost
      · exact hlost
  | rollback =>
      obtain ⟨-, rfl⟩ := exec_rollback_eq h
      exact hend (s.log i .rollback) rfl hlost
  | savepoint =>
      simp only [exec, onActive] at h
      split at h <;> rename_i hst <;> cases h
      · exact hset s _ rfl (by simp [hst]) hlost
      · exact hlost
      · exact hlost
  | release =>
      simp only [exec, onActive] at h
      split at h <;> rename_i hst <;> cases h
      · exact hset s _ rfl (by simp [hst]) hlost
      · exact hlost
      · exact hlost
  | rollbackTo =>
      simp only [exec] at h
      split at h <;> cases h
      · exact hlost
      · unfold execRollbackTo at hlost
        split at hlost
        · exact hlost
        · rename_i w ws _
          exact hset (s.unlock i w.locks) _ rfl (by simp) hlost
  | get key =>
      rcases exec_get_cases h with ⟨-, -, rfl⟩ | ⟨n, -, -, rfl⟩ | ⟨v, p, -, -, rfl⟩ <;> exact hlost
  | set key v =>
      obtain ⟨-, rfl⟩ := exec_set_eq h
      exact hlost
  | incr key =>
      rcases exec_incr_cases h with ⟨v, p, -, -, rfl⟩ | ⟨-, -, rfl⟩ <;> exact hlost

/-- The terms of sessions that promise nothing but `F` at their commits. -/
def sessionTerms (lossy : Prop) (F : ι → CommitFact D K Ch)
    (ok : ι → World ι D K Ch V → World ι D K Ch V → Prop) : Terms ι D K Ch V where
  inv := Connected lossy
  rely _ _ _ := True
  own i s s' := CommitStep F i s s' ∧ ok i s s'

variable {sys : System ι ε (Cmd D K Ch V ε) (World ι D K Ch V)}

theorem sessionTerms_fits (hsys : Attended lossy ok sys) :
    (sessionTerms lossy F ok).contract.Fits sys where
  rely_refl j s := ⟨.refl j s, trivial⟩
  rely_trans _ _ _ _ hab hbc := ⟨hab.1.trans hbc.1, trivial⟩
  guar_rely hij _ _ _ hg := hg.2 _ (Ne.symm hij)
  env_inv henv _ := fun _ _ => hsys.losses henv
  env_rely j _ _ henv _ := ⟨Env.undisturbed (hsys.env henv) j, trivial⟩

/-- The logic of what sessions know of themselves. -/
def sessionLogic (hsys : Attended lossy ok sys) (A : ι → MeetFact D Ch)
    (hA : ∀ i s s', ok i s s' → A i (s.seen i) (s.commits i) s.db) (F : ι → CommitFact D K Ch) :
    KnowledgeLogic sys (Own D K Ch) where
  con := (sessionTerms lossy F ok).contract
  fits := sessionTerms_fits hsys
  Of i o s := o.Of i s
  stable hr ho := ho.undisturbed hr.1
  Post i _ c o P := c.Result lossy (A i) (F i) o P
  mono h hP := h.mono hP
  sound {i β c o P s s' r} h hi ho hstep := by
    obtain ⟨hexec, hok⟩ := hsys.runs hstep
    have hmeet : A i o.seen o.commits s.db := by
      rw [← ho.seen, ← ho.commits]
      exact hA i s s' hok
    obtain ⟨hcommit, hknows⟩ := h.exec ho (hi i) hmeet hexec
    refine ⟨fun j hlost => hi j (lost_of_exec hexec hlost),
      ⟨⟨hcommit, hok⟩, fun j hj => ?_⟩, hknows⟩
    exact ⟨exec_undisturbed hj hexec, trivial⟩

/-! ## Rules -/

section Rules

variable {hsys : Attended lossy ok sys} {B : ι → MeetFact D Ch}
  {hB : ∀ i s s', ok i s s' → B i (s.seen i) (s.commits i) s.db}
  {Q : Except ε α → Own D K Ch → Prop} {w : Work D K Ch}

/-- A statement of a usable transaction, and what follows its answer. -/
theorem Knows.sql {st : Stmt D K Ch ε R} {k : R → Prog ε (Cmd D K Ch V ε) α}
    (hw : o.work = some w) (hlost : lossy → Q (.error Faults.lostConnection) o.broken)
    (hok : ∀ locked d, B i o.seen o.commits d → ∀ eff, st locked (w.write d) = .ok eff →
      (∀ k ∈ eff.locks, locked k = false) → Knows (sessionLogic hsys B hB F) i Q (k eff.result)
        ⟨some (w.andThen eff), d :: o.seen, o.commits⟩)
    (herror : ∀ locked d, B i o.seen o.commits d → ∀ e, st locked (w.write d) = .error e →
      Q (.error e) ⟨none, d :: o.seen, o.commits⟩) :
    Knows (sessionLogic hsys B hB F) i Q ((Prog.perform (.sql st)).bind k) o := by
  obtain ⟨work, seen, commits⟩ := o
  cases hw
  exact ⟨hok, herror, hlost⟩

omit [DecidableEq K] [DecidableEq ι] [Faults ε] in
/-- A `SELECT` leaves the work as it is. -/
theorem Work.andThen_read (w : Work D K Ch) (r : R) : w.andThen ⟨r, id, [], []⟩ = w := by
  simp [Work.andThen]

theorem Knows.read {f : D → R} {k : R → Prog ε (Cmd D K Ch V ε) α} (hw : o.work = some w)
    (hlost : lossy → Q (.error Faults.lostConnection) o.broken)
    (h : ∀ d, B i o.seen o.commits d →
      Knows (sessionLogic hsys B hB F) i Q (k (f (w.write d)))
        ⟨some w, d :: o.seen, o.commits⟩) :
    Knows (sessionLogic hsys B hB F) i Q ((Prog.perform (.sql (Stmt.read f))).bind k) o := by
  apply Knows.sql hw hlost
  · intro locked d hd eff heff _
    cases heff
    rw [Work.andThen_read]
    exact h d hd
  · intro locked d hd e he
    cases he

/-- A commit of a usable transaction. -/
theorem Knows.commit {k : Unit → Prog ε (Cmd D K Ch V ε) α} (hw : o.work = some w)
    (hlost : lossy → Q (.error Faults.lostConnection) o.broken) (hF : F i w o.seen o.commits)
    (h : Knows (sessionLogic hsys B hB F) i Q (k ()) ⟨some {}, o.seen, o.commits ++ [w.changes]⟩) :
    Knows (sessionLogic hsys B hB F) i Q ((Prog.perform .commit).bind k) o := by
  obtain ⟨work, seen, commits⟩ := o
  cases hw
  exact ⟨hF, h, hlost⟩

end Rules

/-! ## Pools -/

/-- A pool at its start: every session is idle and new. -/
structure Idle (s : World ι D K Ch V) : Prop where
  tx : ∀ i, s.tx i = {}
  seen : ∀ i, s.seen i = []
  commits : ∀ i, s.commits i = []

omit [DecidableEq K] [Faults ε] in
theorem idle_fresh (d : D) : Idle (World.fresh d : World ι D K Ch V) :=
  ⟨fun _ => rfl, fun _ => rfl, fun _ => rfl⟩

omit [DecidableEq K] [Faults ε] in
theorem Idle.of (h : Idle s) (i : ι) : ({} : Own D K Ch).Of i s :=
  ⟨h.seen i, h.commits i, .inl (h.tx i)⟩

omit [DecidableEq K] [Faults ε] in
theorem Idle.connected (h : Idle s) : Connected lossy s := by
  intro i hlost
  rw [h.tx i] at hlost
  cases hlost

/-- A statement adds the committed database it runs on to what its session has seen. -/
theorem exec_seen {c : Cmd D K Ch V ε β} {r : Except ε β} (h : exec i c s = some (r, s')) (j : ι) :
    s'.seen j = s.seen j ∨ s'.seen j = s.db :: s.seen j := by
  have hquery : (s.query i).seen j = s.seen j ∨ (s.query i).seen j = s.db :: s.seen j := by
    show Function.update s.seen i (s.db :: s.seen i) j = s.seen j ∨
      Function.update s.seen i (s.db :: s.seen i) j = s.db :: s.seen j
    by_cases hj : j = i
    · subst hj
      rw [Function.update_self]
      exact .inr rfl
    · rw [Function.update_of_ne hj]
      exact .inl rfl
  cases c with
  | sql st =>
      rcases exec_sql_cases h with ⟨-, -, rfl⟩ | ⟨-, e, -, -, rfl⟩ | ⟨-, eff, -, -, -, rfl⟩
      · exact .inl rfl
      · exact hquery
      · exact hquery
  | commit =>
      rcases exec_commit_cases h with ⟨-, -, rfl⟩ | ⟨-, -, rfl⟩ | ⟨-, -, rfl⟩ <;> exact .inl rfl
  | rollback =>
      obtain ⟨-, rfl⟩ := exec_rollback_eq h
      exact .inl rfl
  | savepoint =>
      simp only [exec, onActive] at h
      split at h <;> cases h <;> exact .inl rfl
  | release =>
      simp only [exec, onActive] at h
      split at h <;> cases h <;> exact .inl rfl
  | rollbackTo =>
      simp only [exec] at h
      split at h <;> cases h
      · exact .inl rfl
      · unfold execRollbackTo
        split <;> exact .inl rfl
  | get key =>
      rcases exec_get_cases h with ⟨-, -, rfl⟩ | ⟨n, -, -, rfl⟩ | ⟨v, p, -, -,
        rfl⟩ <;> exact .inl rfl
  | set key v =>
      obtain ⟨-, rfl⟩ := exec_set_eq h
      exact .inl rfl
  | incr key =>
      rcases exec_incr_cases h with ⟨v, p, -, -, rfl⟩ | ⟨-, -, rfl⟩ <;> exact .inl rfl

/-- What one step of the pool does to the committed database and to the commits. -/
inductive PoolStep (F : ι → CommitFact D K Ch)
    (ok : ι → World ι D K Ch V → World ι D K Ch V → Prop) (s s' : World ι D K Ch V) : Prop
  | quiet (hdb : s'.db = s.db) (hcommits : s'.commits = s.commits)
  | commit (i : ι) (hfact : F i (s.tx i).work (s.seen i) (s.commits i)) (hok : ok i s s')
      (hdb : s'.db = (s.tx i).work.write s.db)
      (hcommits : s'.commits = Function.update s.commits i
        (s.commits i ++ [(s.tx i).work.changes]))

omit [DecidableEq K] [Faults ε] in
/-- The own step of a session, among the others. -/
theorem CommitStep.poolStep (h : CommitStep F i s s') (hok : ok i s s')
    (hothers : ∀ j, j ≠ i → s'.commits j = s.commits j) : PoolStep F ok s s' := by
  cases h with
  | quiet hdb hcommits =>
      refine .quiet hdb (funext fun j => ?_)
      by_cases hj : j = i
      · rw [hj, hcommits]
      · exact hothers j hj
  | commit hfact hdb hcommits =>
      refine .commit i hfact hok hdb (funext fun j => ?_)
      by_cases hj : j = i
      · rw [hj, hcommits, Function.update_self]
      · rw [Function.update_of_ne hj]
        exact hothers j hj

section Pools

variable {hsys : Attended lossy ok sys} {B : ι → MeetFact D Ch}
  {hB : ∀ i s s', ok i s s' → B i (s.seen i) (s.commits i) s.db}
  {Q : ι → Except ε α → Own D K Ch → Prop}
  {c c' : Config ι ε (Cmd D K Ch V ε) (World ι D K Ch V) α}

theorem AllKnow.of_idle (hidle : Idle c.state)
    (h : ∀ i, Knows (sessionLogic hsys B hB F) i (Q i) (c.thread i) {}) :
    AllKnow (sessionLogic hsys B hB F) Q c :=
  AllKnow.start hidle.connected hidle.of h

theorem AllKnow.poolStep (h : AllKnow (sessionLogic hsys B hB F) Q c) (hstep : Step sys c c') :
    PoolStep F ok c.state c'.state := by
  rcases h.step hstep with ⟨i, ⟨hcommit, hok⟩, hothers⟩ | henv
  · exact hcommit.poolStep hok fun j hj => (hothers j hj).1.commits
  · exact .quiet (Env.db_eq (hsys.env henv)) (funext fun j => Env.commits_eq (hsys.env henv))

/-- An invariant of the committed database and the commits, checked at the commits. -/
theorem AllKnow.own_induct {J : D → (ι → List (List Ch)) → Prop}
    (h : AllKnow (sessionLogic hsys B hB F) Q c)
    (hcommit : ∀ i s s', F i (s.tx i).work (s.seen i) (s.commits i) → ok i s s' →
      s'.db = (s.tx i).work.write s.db →
      s'.commits = Function.update s.commits i (s.commits i ++ [(s.tx i).work.changes]) →
      J s.db s.commits → J s'.db s'.commits)
    (hrun : Run sys c c') (hJ : J c.state.db c.state.commits) :
    J c'.state.db c'.state.commits := by
  induction hrun with
  | refl => exact hJ
  | tail hrun hstep ih =>
      cases (h.run hrun).poolStep hstep with
      | quiet hdb hcommits =>
          rw [hdb, hcommits]
          exact ih
      | commit i hfact hok hdb hcommits => exact hcommit i _ _ hfact hok hdb hcommits ih

omit [DecidableEq K] [Faults ε] in
theorem Idle.seen_before {T : D → D → Prop} (h : Idle s) : ∀ i, ∀ d ∈ s.seen i, T d s.db := by
  intro i d hd
  rw [h.seen i] at hd
  cases hd

/-- What a session has seen is earlier, in every order in which the committed database moves. -/
theorem Run.seen_before {T : D → D → Prop} (hsys : Attended lossy ok sys) (hrefl : ∀ d, T d d)
    (htrans : ∀ {a b c}, T a b → T b c → T a c)
    (hmoves : ∀ b b', Run sys c b → Step sys b b' → T b.state.db b'.state.db)
    (hrun : Run sys c c') (hstart : ∀ i, ∀ d ∈ c.state.seen i, T d c.state.db) :
    ∀ i, ∀ d ∈ c'.state.seen i, T d c'.state.db := by
  induction hrun with
  | refl => exact hstart
  | tail hrun hstep ih =>
      intro i d hd
      apply htrans _ (hmoves _ _ hrun hstep)
      cases hstep with
      | thread j cmd k r hcall hs =>
          rcases exec_seen (hsys.runs hs).1 i with hsame | hmore
          · exact ih i d (hsame ▸ hd)
          · rw [hmore] at hd
            rcases List.mem_cons.1 hd with rfl | hold
            · exact hrefl _
            · exact ih i d hold
      | env henv =>
          apply ih i d
          rw [← ((hsys.env henv).undisturbed i).seen]
          exact hd

/-- What a session has seen stays seen. -/
theorem Run.seen_suffix (hsys : Attended lossy ok sys) (hrun : Run sys c c') (i : ι) :
    c.state.seen i <:+ c'.state.seen i := by
  induction hrun with
  | refl => exact List.suffix_rfl
  | tail hrun hstep ih =>
      apply ih.trans
      cases hstep with
      | thread j cmd k r hcall hs =>
          rcases exec_seen (hsys.runs hs).1 i with hsame | hmore
          · exact ⟨[], hsame.symm⟩
          · rw [hmore]
            exact List.suffix_cons _ _
      | env henv =>
          exact ⟨[], ((hsys.env henv).undisturbed i).seen.symm⟩

/-- What a session sees in a run, it sees of one of the states of the run. -/
theorem Run.seen_during (hsys : Attended lossy ok sys) (hrun : Run sys c c') {i : ι} {d : D}
    (hd : d ∈ c'.state.seen i) :
    d ∈ c.state.seen i ∨ ∃ b, Run sys c b ∧ Run sys b c' ∧ b.state.db = d := by
  induction hrun with
  | refl => exact .inl hd
  | @tail b b' hrun hstep ih =>
      have hlater : d ∈ b.state.seen i → d ∈ c.state.seen i ∨
          ∃ a, Run sys c a ∧ Run sys a b' ∧ a.state.db = d := by
        intro hold
        rcases ih hold with hstart | ⟨a, hca, hab, ha⟩
        · exact .inl hstart
        · exact .inr ⟨a, hca, hab.tail hstep, ha⟩
      have hstep' := hstep
      cases hstep with
      | thread j cmd k r hcall hs =>
          rcases exec_seen (hsys.runs hs).1 i with hsame | hmore
          · exact hlater (hsame ▸ hd)
          · rw [hmore] at hd
            rcases List.mem_cons.1 hd with rfl | hold
            · exact .inr ⟨b, hrun, .single hstep', rfl⟩
            · exact hlater hold
      | env henv =>
          rw [((hsys.env henv).undisturbed i).seen] at hd
          exact hlater hd

/-- What a session has committed stays committed. -/
theorem Run.commits_prefix (hsys : Attended lossy ok sys) (hrun : Run sys c c') (i : ι) :
    c.state.commits i <+: c'.state.commits i := by
  induction hrun with
  | refl => exact List.prefix_rfl
  | @tail b b' hrun hstep ih =>
      apply ih.trans
      cases hstep with
      | @thread s' β j cmd k r hcall hs =>
          have htrace : b.state.trace <+: s'.trace := by
            rcases exec_trace (hsys.runs hs).1 with hsame | ⟨a, hmore⟩
            · exact ⟨[], (List.append_nil _).trans hsame.symm⟩
            · rw [hmore]
              exact List.prefix_append _ _
          exact htrace.filterMap _
      | env henv =>
          exact ⟨[], (List.append_nil _).trans (Env.commits_eq (hsys.env henv)).symm⟩

/-- A session that has committed nothing more by the end had committed nothing more before. -/
theorem Run.commits_eq_of_eq (hsys : Attended lossy ok sys) {b : Config ι ε _ _ α}
    (hcb : Run sys c b) (hbc : Run sys b c') {i : ι} (h : c'.state.commits i = c.state.commits i) :
    b.state.commits i = c.state.commits i := by
  have hstart := Run.commits_prefix hsys hcb i
  have hend := Run.commits_prefix hsys hbc i
  rw [h] at hend
  exact (hstart.eq_of_length_le hend.length_le).symm

end Pools

end Vivac.Lib
