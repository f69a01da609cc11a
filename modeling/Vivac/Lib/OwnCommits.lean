import Vivac.Lib.SessionKnowledge

/-!
# What a session commits, from its own program

`Warrants A F Q p o` says of a program alone, started with the knowledge `o` of itself, that `F`
holds of it at each of its commits and `Q` at its end, if every committed database its statements
meet is as `A` says, and connections may be lost.

A pool of such programs commits nothing but work of which `F` holds (`AllWarrant.induct`): an
invariant of the committed database is left to check at these commits only.
-/

set_option autoImplicit false

namespace Vivac.Lib

variable {ι D K Ch V ε α β γ R : Type}

/-- What holds after a command, for every answer it may give. -/
def Cmd.Post [Faults ε] (A : D → Prop) (F : CommitFact D K Ch) :
    {β : Type} → Cmd D K Ch V ε β → Own D K Ch → (Except ε β → Own D K Ch → Prop) → Prop
  | _, .sql st, o, P =>
    match o.work with
    | some w =>
      (∀ locked d, A d → ∀ eff, st locked (w.write d) = .ok eff →
        P (.ok eff.result) ((o.saw d).withWork (w.andThen eff))) ∧
      (∀ locked d, A d → ∀ e, st locked (w.write d) = .error e → P (.error e) (o.saw d).broken) ∧
      P (.error Faults.lostConnection) o.broken
    | none => P (.error Faults.failedTx) o ∧ P (.error Faults.lostConnection) o
  | _, .commit, o, P =>
    match o.work with
    | some w => F w o.seen o.commits ∧ P (.ok ()) (o.publish w) ∧
        P (.error Faults.lostConnection) o.broken
    | none => P (.ok ()) (o.withWork {}) ∧ P (.error Faults.lostConnection) o
  | _, .rollback, o, P => P (.ok ()) (o.withWork {})
  | _, .get _, o, P => ∀ r, P r o
  | _, .set _ _, o, P => P (.ok ()) o
  | _, .incr _, o, P => ∀ r, P r o
  | _, _, _, _ => False

/-- The program keeps its word at each commit, and ends with `Q`. -/
def Warrants [Faults ε] (A : D → Prop) (F : CommitFact D K Ch)
    (Q : Except ε α → Own D K Ch → Prop) : Prog ε (Cmd D K Ch V ε) α → Own D K Ch → Prop
  | .ret a, o => Q (.ok a) o
  | .raise e, o => Q (.error e) o
  | .call c k, o => c.Post A F o fun r o' => Warrants A F Q (k r) o'

section Rules

variable [Faults ε] {A : D → Prop} {F : CommitFact D K Ch} {o : Own D K Ch}

theorem Cmd.Post.mono {P P' : Except ε β → Own D K Ch → Prop} {c : Cmd D K Ch V ε β}
    (h : c.Post A F o P) (hP : ∀ r o, P r o → P' r o) : c.Post A F o P' := by
  cases c with
  | sql st =>
      simp only [Cmd.Post] at h ⊢
      split at h
      · obtain ⟨hok, herror, hlost⟩ := h
        refine ⟨fun locked d hd eff heff => ?_, fun locked d hd e he => ?_, hP _ _ hlost⟩
        · exact hP _ _ (hok locked d hd eff heff)
        · exact hP _ _ (herror locked d hd e he)
      · exact ⟨hP _ _ h.1, hP _ _ h.2⟩
  | commit =>
      simp only [Cmd.Post] at h ⊢
      split at h
      · exact ⟨h.1, hP _ _ h.2.1, hP _ _ h.2.2⟩
      · exact ⟨hP _ _ h.1, hP _ _ h.2⟩
  | rollback => exact hP _ _ h
  | savepoint => exact h
  | release => exact h
  | rollbackTo => exact h
  | get key => exact fun r => hP _ _ (h r)
  | set key v => exact hP _ _ h
  | incr key => exact fun r => hP _ _ (h r)

theorem Warrants.mono {Q Q' : Except ε α → Own D K Ch → Prop} {p : Prog ε (Cmd D K Ch V ε) α}
    (h : Warrants A F Q p o) (hQ : ∀ r o, Q r o → Q' r o) : Warrants A F Q' p o := by
  induction p generalizing o with
  | ret a => exact hQ _ _ h
  | raise e => exact hQ _ _ h
  | call c k ih => exact Cmd.Post.mono h fun r o' h' => ih r h'

theorem Warrants.bind {Q : Except ε β → Own D K Ch → Prop} {p : Prog ε (Cmd D K Ch V ε) α}
    {f : α → Prog ε (Cmd D K Ch V ε) β}
    (h : Warrants A F (fun r o => match r with
      | .ok a => Warrants A F Q (f a) o
      | .error e => Q (.error e) o) p o) : Warrants A F Q (p.bind f) o := by
  induction p generalizing o with
  | ret a => exact h
  | raise e => exact h
  | call c k ih => exact Cmd.Post.mono h fun r o' h' => ih r h'

theorem Warrants.attempt {Q : Except ε (Except ε α) → Own D K Ch → Prop}
    {p : Prog ε (Cmd D K Ch V ε) α} (h : Warrants A F (fun r => Q (.ok r)) p o) :
    Warrants A F Q p.attempt o := by
  induction p generalizing o with
  | ret a => exact h
  | raise e => exact h
  | call c k ih => exact Cmd.Post.mono h fun r o' h' => ih r h'

theorem Warrants.tryCatch {Q : Except ε α → Own D K Ch → Prop} {p : Prog ε (Cmd D K Ch V ε) α}
    {handler : ε → Prog ε (Cmd D K Ch V ε) α}
    (h : Warrants A F (fun r o => match r with
      | .ok a => Q (.ok a) o
      | .error e => Warrants A F Q (handler e) o) p o) :
    Warrants A F Q (p.tryCatch handler) o := by
  apply Warrants.bind
  apply Warrants.attempt
  refine h.mono fun r o' h' => ?_
  cases r with
  | ok a => exact h'
  | error e => exact h'

section Sequence

variable {Q : Except ε α → Own D K Ch → Prop}

/-- The end `Q` allows for an exception, wherever it comes from, after these commits. -/
abbrev Allows (Q : Except ε α → Own D K Ch → Prop) (commits : List (List Ch)) : Prop :=
  ∀ e o, o.commits = commits → Q (.error e) o

omit [Faults ε] in
theorem allows_returns {M : α → Own D K Ch → Prop} {commits : List (List Ch)} :
    Allows (Returns M : Except ε α → Own D K Ch → Prop) commits := fun _ _ _ => trivial

/-- A statement, and what follows its answer. -/
theorem Warrants.sql {st : Stmt D K Ch ε R} {k : R → Prog ε (Cmd D K Ch V ε) α}
    (hQ : Allows Q o.commits)
    (h : ∀ w, o.work = some w → ∀ locked d, A d → ∀ eff, st locked (w.write d) = .ok eff →
      Warrants A F Q (k eff.result) ⟨some (w.andThen eff), d :: o.seen, o.commits⟩) :
    Warrants A F Q ((Prog.perform (.sql st)).bind k) o := by
  obtain ⟨work, seen, commits⟩ := o
  cases work with
  | some w => exact ⟨h w rfl, fun _ _ _ e _ => hQ e _ rfl, hQ _ _ rfl⟩
  | none => exact ⟨hQ _ _ rfl, hQ _ _ rfl⟩

theorem Warrants.read {f : D → R} {k : R → Prog ε (Cmd D K Ch V ε) α} (hQ : Allows Q o.commits)
    (h : ∀ w, o.work = some w → ∀ d, A d →
      Warrants A F Q (k (f (w.write d))) ⟨some w, d :: o.seen, o.commits⟩) :
    Warrants A F Q ((Prog.perform (.sql (Stmt.read f))).bind k) o := by
  apply Warrants.sql hQ
  rintro w hw locked d hd eff heff
  cases heff
  rw [Work.andThen_read]
  exact h w hw d hd

/-- A `SELECT` of a usable transaction fails by a lost connection only. -/
theorem Warrants.read_usable {f : D → R} {k : R → Prog ε (Cmd D K Ch V ε) α} {w : Work D K Ch}
    (hw : o.work = some w) (hlost : Q (.error Faults.lostConnection) o.broken)
    (h : ∀ d, A d → Warrants A F Q (k (f (w.write d))) ⟨some w, d :: o.seen, o.commits⟩) :
    Warrants A F Q ((Prog.perform (.sql (Stmt.read f))).bind k) o := by
  obtain ⟨work, seen, commits⟩ := o
  cases hw
  refine ⟨fun locked d hd eff heff => ?_, fun locked d hd e he => ?_, hlost⟩
  · cases heff
    rw [Work.andThen_read]
    exact h d hd
  · cases he

/-- A commit of a usable transaction. -/
theorem Warrants.commit {k : Unit → Prog ε (Cmd D K Ch V ε) α} {w : Work D K Ch}
    (hQ : Allows Q o.commits) (hw : o.work = some w) (hF : F w o.seen o.commits)
    (h : Warrants A F Q (k ()) ⟨some {}, o.seen, o.commits ++ [w.changes]⟩) :
    Warrants A F Q ((Prog.perform .commit).bind k) o := by
  obtain ⟨work, seen, commits⟩ := o
  cases hw
  exact ⟨hF, h, hQ _ _ rfl⟩

theorem Warrants.ofExcept {r : Except ε β} {k : β → Prog ε (Cmd D K Ch V ε) α}
    (hQ : Allows Q o.commits) (h : ∀ b, r = .ok b → Warrants A F Q (k b) o) :
    Warrants A F Q ((Prog.ofExcept r).bind k) o := by
  cases r with
  | ok b => exact h b rfl
  | error e => exact hQ e o rfl

/-- A part of a program, and what follows it. -/
theorem Warrants.seq {p : Prog ε (Cmd D K Ch V ε) β} {k : β → Prog ε (Cmd D K Ch V ε) α}
    (M : β → Own D K Ch → Prop) (hp : Warrants A F (fun r o => match r with
      | .ok b => M b o
      | .error e => Q (.error e) o) p o)
    (hk : ∀ b o', M b o' → Warrants A F Q (k b) o') : Warrants A F Q (p.bind k) o := by
  apply Warrants.bind
  refine hp.mono fun r o' h => ?_
  cases r with
  | ok b => exact hk b o' h
  | error e => exact h

/-- What every command of the program keeps. -/
theorem Warrants.of_uses {ok : ∀ {β : Type}, Cmd D K Ch V ε β → Prop} {P : Own D K Ch → Prop}
    (hcmd : ∀ {β : Type} (c : Cmd D K Ch V ε β) o, ok c → P o → c.Post A F o fun _ => P)
    {p : Prog ε (Cmd D K Ch V ε) α} (hp : p.Uses ok) (ho : P o) :
    Warrants A F (fun _ => P) p o := by
  induction p generalizing o with
  | ret a => exact ho
  | raise e => exact ho
  | call c k ih => exact (hcmd c o hp.1 ho).mono fun r o' h => ih r (hp.2 r) h

end Sequence

end Rules

/-! ## Sessions -/

variable [DecidableEq ι] [DecidableEq K] [Faults ε]

/-- The terms of sessions that promise nothing but `F` at their commits. -/
def ownTerms (F : ι → CommitFact D K Ch)
    (ok : ι → World ι D K Ch V → World ι D K Ch V → Prop) : Terms ι D K Ch V where
  inv _ := True
  rely _ _ _ := True
  own i s s' := CommitStep F i s s' ∧ ok i s s'

variable {F : ι → CommitFact D K Ch} {ok : ι → World ι D K Ch V → World ι D K Ch V → Prop}
  {A : D → Prop} {i : ι} {s s' : World ι D K Ch V} {o : Own D K Ch}

omit [DecidableEq K] [Faults ε] in
theorem ownTerms_fair [DecidableEq K] : (ownTerms F ok).Fair where
  refl _ _ := trivial
  trans _ _ _ _ _ _ _ _ := trivial
  env _ _ := ⟨trivial, fun _ => trivial⟩

omit [DecidableEq ι] [DecidableEq K] in
/-- Where a connection may be lost, and nothing is known of what a session meets. -/
theorem Cmd.Post.result {P : Except ε β → Own D K Ch → Prop} {c : Cmd D K Ch V ε β}
    {G : CommitFact D K Ch} (h : c.Post A G o P) : c.Result True (fun _ _ => A) G o P := by
  obtain ⟨work, seen, commits⟩ := o
  cases c with
  | sql st =>
      cases work with
      | some w =>
          exact ⟨fun locked d hd eff heff _ => h.1 locked d hd eff heff, h.2.1, fun _ => h.2.2⟩
      | none => exact ⟨h.1, fun _ => h.2⟩
  | commit =>
      cases work with
      | some w => exact ⟨h.1, h.2.1, fun _ => h.2.2⟩
      | none => exact ⟨h.1, fun _ => h.2⟩
  | rollback => exact h
  | savepoint => exact h
  | release => exact h
  | rollbackTo => exact h
  | get key => exact fun a => h _
  | set key v => exact h
  | incr key => exact ⟨h _, h _⟩

/-- One command of a session that keeps its word. -/
theorem Cmd.Post.exec {P : Except ε β → Own D K Ch → Prop} {c : Cmd D K Ch V ε β}
    {r : Except ε β} (h : c.Post A (F i) o P) (ho : o.Of i s) (hA : A s.db)
    (hexec : exec i c s = some (r, s')) :
    CommitStep F i s s' ∧ ∃ o' : Own D K Ch, o'.Of i s' ∧ P r o' :=
  h.result.exec ho (fun _ => trivial) hA hexec

/-- A program that keeps its word keeps it among others. -/
theorem Warrants.meets {Q : Except ε α → Own D K Ch → Prop} {p : Prog ε (Cmd D K Ch V ε) α}
    (hok : ∀ i s s', ok i s s' → A s.db) (h : Warrants A (F i) Q p o) (ho : o.Of i s) :
    Meets (sessions ok) (ownTerms F ok).contract i
      (fun r s => ∃ o' : Own D K Ch, o'.Of i s ∧ Q r o') p s := by
  induction p generalizing o s with
  | ret a => exact fun s' _ hr => ⟨o, ho.undisturbed hr.1, h⟩
  | raise e => exact fun s' _ hr => ⟨o, ho.undisturbed hr.1, h⟩
  | call c k ih =>
      rintro s₁ - hr r s₂ ⟨hexec, hguard⟩
      obtain ⟨hstep, o', ho', hrest⟩ :=
        Cmd.Post.exec h (ho.undisturbed hr.1) (hok i s₁ s₂ hguard) hexec
      refine ⟨trivial, ⟨⟨hstep, hguard⟩, fun j hj => ?_⟩, ih r hrest ho'⟩
      exact ⟨exec_undisturbed hj hexec, trivial⟩

/-! ## Pools -/

variable {Q : ι → Except ε α → Own D K Ch → Prop}
  {c c' : Config ι ε (Cmd D K Ch V ε) (World ι D K Ch V) α}

/-- Every session of a pool keeps its word. -/
abbrev AllWarrant (F : ι → CommitFact D K Ch)
    (ok : ι → World ι D K Ch V → World ι D K Ch V → Prop)
    (Q : ι → Except ε α → Own D K Ch → Prop)
    (c : Config ι ε (Cmd D K Ch V ε) (World ι D K Ch V) α) : Prop :=
  AllMeet (sessions ok) (ownTerms F ok).contract
    (fun i r s => ∃ o : Own D K Ch, o.Of i s ∧ Q i r o) c

theorem AllWarrant.of_idle (hok : ∀ i s s', ok i s s' → A s.db) (hidle : Idle c.state)
    (h : ∀ i, Warrants A (F i) (Q i) (c.thread i) {}) : AllWarrant F ok Q c :=
  ⟨trivial, fun i => (h i).meets hok (hidle.of i)⟩

theorem AllWarrant.poolStep (h : AllWarrant F ok Q c) (hstep : Step (sessions ok) c c') :
    PoolStep F ok c.state c'.state := by
  cases hstep with
  | thread i cmd k r hcall hs =>
      have hi := h.meets i
      rw [hcall] at hi
      obtain ⟨-, ⟨⟨hcommit, hguard⟩, -⟩, -⟩ := hi _ trivial ⟨.refl i _, trivial⟩ r _ hs
      exact hcommit.poolStep hguard fun j hj => (exec_undisturbed hj hs.1).commits
  | env henv => exact .quiet (Env.db_eq henv) (funext fun j => Env.commits_eq henv)

theorem AllWarrant.run (h : AllWarrant F ok Q c) (hrun : Run (sessions ok) c c') :
    AllWarrant F ok Q c' :=
  Run.allMeet (ownTerms_fair.fits (framed_sessions ok)) hrun h

/-- An invariant of the committed database and the commits, checked at the commits. -/
theorem AllWarrant.induct {J : D → (ι → List (List Ch)) → Prop} (h : AllWarrant F ok Q c)
    (hcommit : ∀ i s s', F i (s.tx i).work (s.seen i) (s.commits i) → ok i s s' →
      s'.db = (s.tx i).work.write s.db →
      s'.commits = Function.update s.commits i (s.commits i ++ [(s.tx i).work.changes]) →
      J s.db s.commits → J s'.db s'.commits)
    (hrun : Run (sessions ok) c c') (hJ : J c.state.db c.state.commits) :
    J c'.state.db c'.state.commits := by
  induction hrun with
  | refl => exact hJ
  | tail hrun hstep ih =>
      cases (h.run hrun).poolStep hstep with
      | quiet hdb hcommits =>
          rw [hdb, hcommits]
          exact ih
      | commit i hfact hok hdb hcommits => exact hcommit i _ _ hfact hok hdb hcommits ih

/-! ## One session of a pool -/

/-- A session keeps its word whatever the others do. -/
theorem Run.meets_own {Q : Except ε α → World ι D K Ch V → Prop} (hrun : Run (sessions ok) c c')
    (h : Meets (sessions ok) (ownTerms F ok).contract i Q (c.thread i) c.state) :
    Meets (sessions ok) (ownTerms F ok).contract i Q (c'.thread i) c'.state := by
  have hframed : Framed (sessions ok : System ι ε (Cmd D K Ch V ε) (World ι D K Ch V)) :=
    framed_sessions ok
  have hfits := (@ownTerms_fair ι D K Ch V _ F ok _).fits hframed
  induction hrun with
  | refl => exact h
  | @tail b c'' _ hstep ih =>
      have hothers : ∀ s', Undisturbed i b.state s' →
          Meets (sessions ok) (ownTerms F ok).contract i Q (b.thread i) s' := fun s' hund =>
        ih.stable (hfits.rely_trans i) ⟨hund, trivial⟩
      cases hstep with
      | thread j cmd k r hcall hs =>
          by_cases hj : i = j
          · subst hj
            rw [hcall] at ih
            have hnext := (ih _ trivial (hfits.rely_refl i _) r _ hs).2.2
            simpa using hnext
          · simp only [Function.update_of_ne hj]
            exact hothers _ (exec_undisturbed hj hs.1)
      | env henv => exact hothers _ (henv.undisturbed i)

/-- The step at which a session that keeps its word commits is its own, and of what it warrants. -/
theorem commit_of_meets {Q : Except ε α → World ι D K Ch V → Prop}
    (h : Meets (sessions ok) (ownTerms F ok).contract i Q (c.thread i) c.state)
    (hstep : Step (sessions ok) c c') (hchanged : c'.state.commits i ≠ c.state.commits i) :
    F i (c.state.tx i).work (c.state.seen i) (c.state.commits i) ∧ ok i c.state c'.state ∧
      c'.state.db = (c.state.tx i).work.write c.state.db := by
  cases hstep with
  | thread j cmd k r hcall hs =>
      by_cases hj : i = j
      · subst hj
        rw [hcall] at h
        obtain ⟨-, ⟨⟨hcommit, hguard⟩, -⟩, -⟩ := h _ trivial ⟨.refl i _, trivial⟩ r _ hs
        cases hcommit with
        | quiet _ hcommits => exact absurd hcommits hchanged
        | commit hfact hdb _ => exact ⟨hfact, hguard, hdb⟩
      · exact absurd (exec_undisturbed hj hs.1).commits hchanged
  | env henv => exact absurd (Env.commits_eq henv) hchanged

/-- A session that is to read next reads. -/
theorem exists_read {f : D → R} {k : Except ε R → Prog ε (Cmd D K Ch V ε) α}
    (hcall : c.thread i = .call (.sql (Stmt.read f)) k) (htx : c.state.tx i = {})
    (hok : ∀ s', s'.commits i = c.state.commits i → ok i c.state s') :
    ∃ c₁, Step (sessions ok) c c₁ ∧ c₁.thread i = k (.ok (f c.state.db)) ∧
      c₁.state.tx i = {} ∧ c₁.state.db = c.state.db := by
  obtain ⟨s', hexec, htx', hdb⟩ : ∃ s', exec i (.sql (Stmt.read f) : Cmd D K Ch V ε R) c.state =
      some (.ok (f c.state.db), s') ∧ s'.tx i = {} ∧ s'.db = c.state.db := by
    simp only [Lib.exec, onActive, htx, execSql, Stmt.read, World.view, id, List.any_nil]
    refine ⟨_, rfl, ?_, rfl⟩
    show Function.update _ i _ i = _
    rw [Function.update_self]
    rfl
  refine ⟨⟨s', Function.update c.thread i (k (.ok (f c.state.db)))⟩,
    .thread i _ k _ hcall ⟨hexec, hok _ (exec_sql_db hexec).2⟩, Function.update_self .., htx', hdb⟩

/-- A session that is to roll back next does. -/
theorem exists_rollback {k : Except ε Unit → Prog ε (Cmd D K Ch V ε) α}
    (hcall : c.thread i = .call .rollback k)
    (hok : ∀ s', s'.commits i = c.state.commits i → ok i c.state s') :
    ∃ c₁, Step (sessions ok) c c₁ ∧ c₁.thread i = k (.ok ()) := by
  have hstep : (sessions ok).step i (.rollback : Cmd D K Ch V ε Unit) c.state (.ok ())
      (endTx i (c.state.log i .rollback)) := ⟨rfl, hok _ commits_rollback⟩
  exact ⟨_, .thread i _ k _ hcall hstep, Function.update_self ..⟩

/-- A condition that every state of the run meets may be asked of its steps. -/
theorem Run.strengthen {ok' : ι → World ι D K Ch V → World ι D K Ch V → Prop}
    (h : ∀ b, Run (sessions ok) c b → ∀ i s', ok i b.state s' → ok' i b.state s')
    (hrun : Run (sessions ok) c c') : Run (sessions ok') c c' :=
  Run.guarded_strengthen (fun b hb _ => h b hb) hrun

theorem Step.strengthen {ok' : ι → World ι D K Ch V → World ι D K Ch V → Prop}
    (h : ∀ i s', ok i c.state s' → ok' i c.state s') (hstep : Step (sessions ok) c c') :
    Step (sessions ok') c c' := by
  cases hstep with
  | thread i cmd k r hcall hs => exact .thread i cmd k r hcall ⟨hs.1, h i _ hs.2⟩
  | env henv => exact .env henv

/-- A session that has not begun is as it was. -/
theorem Run.idle_own (hrun : Run (sessions ok) c c') (hidle : c'.thread i = c.thread i)
    (ho : o.Of i c.state) : o.Of i c'.state := by
  apply ho.undisturbed
  refine Run.idle (T := Undisturbed i) i (.refl i) (fun hab hbc => hab.trans hbc) ?_ ?_ hrun hidle
  · intro j hj β cmd s r s' hs
    exact exec_undisturbed (Ne.symm hj) hs.1
  · intro s s' henv
    exact Env.undisturbed henv i

end Vivac.Lib
