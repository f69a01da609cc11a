import Vivac.Lib.SessionContract

/-!
# Contracts that name the session

`Terms` say what every command keeps (`inv`), what session `j` may rely on while the others
move (`rely j`), and what the steps of session `i` are like (`own i`). The frame
(`Undisturbed`) is the platform's. `Triple.act` is the rule for one command.

`World.commits` is the history of what a session has committed, which the others leave alone.
-/

set_option autoImplicit false

namespace Vivac.Lib

variable {ι D K Ch V ε α β R : Type}

/-! ## What a session has committed -/

/-- The changes an event commits for session `j`. -/
def Event.committed [DecidableEq ι] (j : ι) (e : Event ι Ch) : Option (List Ch) :=
  match e.action with
  | .commit chs => if e.session = j then some chs else none
  | _ => none

/-- The changes of the commits of session `j`, in order. -/
def World.commits [DecidableEq ι] (s : World ι D K Ch V) (j : ι) : List (List Ch) :=
  s.trace.filterMap (Event.committed j)

section Commits

variable [DecidableEq ι] {s s' : World ι D K Ch V} {i j : ι}

/-- An event of another session, and an event that is no commit, commits nothing. -/
theorem Event.committed_of_ne {e : Event ι Ch} (h : e.session ≠ j) : e.committed j = none := by
  unfold Event.committed
  split
  · exact if_neg h
  · rfl

theorem World.commits_of_append {evs : List (Event ι Ch)} (htr : s'.trace = s.trace ++ evs)
    (hne : ∀ e ∈ evs, e.session ≠ j) : s'.commits j = s.commits j := by
  have hnone : evs.filterMap (Event.committed j) = [] := by
    rw [List.filterMap_eq_nil_iff]
    intro e he
    exact Event.committed_of_ne (hne e he)
  simp [World.commits, htr, hnone]

theorem Undisturbed.commits (h : Undisturbed j s s') : s'.commits j = s.commits j := by
  obtain ⟨evs, htr, hne⟩ := h.trace
  exact World.commits_of_append htr hne

theorem World.commits_log {a : Action Ch} :
    (s.log i a).commits j = s.commits j ++ (Event.committed j ⟨i, a⟩).toList := by
  have hlog : (s.log i a).trace = s.trace ++ [⟨i, a⟩] := rfl
  simp only [World.commits, hlog, List.filterMap_append]
  cases h : Event.committed j (⟨i, a⟩ : Event ι Ch) with
  | none => simp [h]
  | some chs => simp [h]

end Commits

variable [DecidableEq ι] [DecidableEq K] [Faults ε]

section Database

variable {s s' : World ι D K Ch V} {i j : ι}

/-- Only a commit of a usable transaction changes the committed database, and only it adds to
what the session has committed. -/
theorem exec_db_cases {c : Cmd D K Ch V ε β} {r : Except ε β} (h : exec i c s = some (r, s')) :
    (s'.db = s.db ∧ s'.commits i = s.commits i) ∨
    ((s.tx i).status = .active ∧ s' = execCommit i s (s.tx i)) := by
  have hlog : ∀ {t : World ι D K Ch V} {a : Action Ch}, (∀ chs, a ≠ .commit chs) →
      t.trace = s.trace ++ [⟨i, a⟩] → t.commits i = s.commits i := by
    intro t a ha htr
    have hnone : Event.committed i (⟨i, a⟩ : Event ι Ch) = none := by
      cases a with
      | commit chs => exact absurd rfl (ha chs)
      | _ => rfl
    simp [World.commits, htr, hnone]
  cases c with
  | sql st =>
    rcases exec_sql_cases h with ⟨-, -, rfl⟩ | ⟨-, e, -, -, rfl⟩ | ⟨-, eff, -, -, -, rfl⟩
    · exact .inl ⟨rfl, rfl⟩
    · exact .inl ⟨rfl, hlog (a := .query) (by simp) rfl⟩
    · exact .inl ⟨rfl, hlog (a := .query) (by simp) rfl⟩
  | commit =>
    rcases exec_commit_cases h with ⟨hst, -, rfl⟩ | ⟨-, -, rfl⟩ | ⟨-, -, rfl⟩
    · exact .inr ⟨hst, rfl⟩
    · exact .inl ⟨rfl, hlog (a := .rollback) (by simp) rfl⟩
    · exact .inl ⟨rfl, rfl⟩
  | rollback =>
    obtain ⟨-, rfl⟩ := exec_rollback_eq h
    exact .inl ⟨rfl, hlog (a := .rollback) (by simp) rfl⟩
  | savepoint =>
    simp only [exec, onActive] at h
    split at h <;> cases h <;> exact .inl ⟨rfl, rfl⟩
  | release =>
    simp only [exec, onActive] at h
    split at h <;> cases h <;> exact .inl ⟨rfl, rfl⟩
  | rollbackTo =>
    simp only [exec] at h
    split at h <;> cases h
    · exact .inl ⟨rfl, rfl⟩
    · unfold execRollbackTo
      split <;> exact .inl ⟨rfl, rfl⟩
  | get key =>
    rcases exec_get_cases h with ⟨-, -, rfl⟩ | ⟨n, -, -, rfl⟩ | ⟨v, p, -, -, rfl⟩ <;>
      exact .inl ⟨rfl, hlog (a := .get key) (by simp) rfl⟩
  | set key v =>
    obtain ⟨-, rfl⟩ := exec_set_eq h
    exact .inl ⟨rfl, hlog (a := .set key) (by simp) rfl⟩
  | incr key =>
    rcases exec_incr_cases h with ⟨v, p, -, -, rfl⟩ | ⟨-, -, rfl⟩
    · exact .inl ⟨rfl, rfl⟩
    · exact .inl ⟨rfl, hlog (a := .incr key (s.counter key + 1)) (by simp) rfl⟩

/-- A statement commits nothing. -/
theorem exec_sql_db {st : Stmt D K Ch ε R} {r : Except ε R} (h : exec i (.sql st) s =
    some (r, s')) :
    s'.db = s.db ∧ s'.commits i = s.commits i := by
  have hquery : (s.query i).commits i = s.commits i := by
    have hlog : (s.log i .query).commits i = s.commits i := by
      rw [World.commits_log]
      exact List.append_nil _
    exact hlog
  rcases exec_sql_cases h with ⟨-, -, rfl⟩ | ⟨-, e, -, -, rfl⟩ | ⟨-, eff, -, -, -, rfl⟩
  · exact ⟨rfl, rfl⟩
  · exact ⟨rfl, hquery⟩
  · exact ⟨rfl, hquery⟩

omit [Faults ε] in
theorem commits_execCommit :
    (execCommit i s (s.tx i)).commits i = s.commits i ++ [(s.tx i).work.changes] := by
  have hcommit : Event.committed i (⟨i, .commit (s.tx i).work.changes⟩ : Event ι Ch) =
      some (s.tx i).work.changes := if_pos rfl
  have hlog := World.commits_log (s := { s with db := (s.tx i).work.write s.db }) (i := i) (j := i)
    (a := .commit (s.tx i).work.changes)
  rw [hcommit] at hlog
  exact hlog

omit [Faults ε] in
theorem commits_rollback : (endTx i (s.log i .rollback)).commits j = s.commits j := by
  have hlog : (s.log i .rollback).commits j = s.commits j := by
    rw [World.commits_log]
    exact List.append_nil _
  exact hlog

omit [Faults ε] in
theorem Env.commits_eq (h : Env s s') : s'.commits i = s.commits i := by
  cases h with
  | expire key hk => rfl
  | lose j => rfl

end Database

/-! ## Terms -/

/-- What every command keeps, what a session relies on, and what its own steps are like. -/
structure Terms (ι D K Ch V : Type) where
  inv : World ι D K Ch V → Prop
  rely : ι → World ι D K Ch V → World ι D K Ch V → Prop
  own : ι → World ι D K Ch V → World ι D K Ch V → Prop

namespace Terms

variable (t : Terms ι D K Ch V)

def contract : Contract ι (World ι D K Ch V) where
  Inv := t.inv
  R j s s' := Undisturbed j s s' ∧ t.rely j s s'
  G i s s' := t.own i s s' ∧ ∀ j, j ≠ i → Undisturbed j s s' ∧ t.rely j s s'

/-- The relies are preorders on undisturbed stretches, and the environment keeps to the terms. -/
structure Fair : Prop where
  refl : ∀ j s, t.rely j s s
  trans : ∀ j {a b c}, Undisturbed j a b → Undisturbed j b c → t.rely j a b → t.rely j b c →
    t.rely j a c
  env : ∀ {s s'}, Env s s' → t.inv s → t.inv s' ∧ ∀ j, t.rely j s s'

end Terms

/-! ## Systems of sessions -/

/-- The commands of a session leave the others alone, and the environment is the platform's. -/
structure Framed (sys : System ι ε (Cmd D K Ch V ε) (World ι D K Ch V)) : Prop where
  others : ∀ {i j : ι} {β : Type} {c : Cmd D K Ch V ε β} {s : World ι D K Ch V} {r : Except ε β}
    {s' : World ι D K Ch V}, sys.step i c s r s' → j ≠ i → Undisturbed j s s'
  env : ∀ {s s' : World ι D K Ch V}, sys.env s s' → Env s s'

theorem framed_sessions (ok : ι → World ι D K Ch V → World ι D K Ch V → Prop) :
    Framed (sessions ok : System ι ε (Cmd D K Ch V ε) (World ι D K Ch V)) where
  others h hj := exec_undisturbed hj h.1
  env h := h

variable {sys : System ι ε (Cmd D K Ch V ε) (World ι D K Ch V)} {t : Terms ι D K Ch V} {i : ι}
  {P : World ι D K Ch V → Prop}

omit [DecidableEq ι] [DecidableEq K] [Faults ε] in
theorem Terms.Fair.fits [DecidableEq ι] [DecidableEq K] (h : t.Fair) (hsys : Framed sys) :
    t.contract.Fits sys where
  rely_refl j s := ⟨.refl j s, h.refl j s⟩
  rely_trans j _ _ _ hab hbc := ⟨hab.1.trans hbc.1, h.trans j hab.1 hbc.1 hab.2 hbc.2⟩
  guar_rely hij _ _ _ hg := hg.2 _ (Ne.symm hij)
  env_inv henv hi := (h.env (hsys.env henv) hi).1
  env_rely j _ _ henv hi := ⟨Env.undisturbed (hsys.env henv) j, (h.env (hsys.env henv) hi).2 j⟩

omit [Faults ε] in
/-- One command: left to prove is that it keeps the invariant, is a step of its session, moves
the others within their relies, and establishes its postcondition. -/
theorem Triple.act (hsys : Framed sys) {c : Cmd D K Ch V ε β}
    {M : Except ε β → World ι D K Ch V → Prop}
    (hP : Stable t.contract i P) (hM : ∀ r, Stable t.contract i (M r))
    (hstep : ∀ s r s', t.inv s → P s → sys.step i c s r s' →
      t.inv s' ∧ t.own i s s' ∧ (∀ j, j ≠ i → t.rely j s s') ∧ M r s') :
    Triple sys t.contract i P (Prog.perform c) M := by
  apply Triple.perform hP hM
  intro s r s' hi hp hs
  obtain ⟨hinv, hown, hrely, hm⟩ := hstep s r s' hi hp hs
  exact ⟨hinv, ⟨hown, fun j hj => ⟨hsys.others hs hj, hrely j hj⟩⟩, hm⟩

omit [Faults ε] in
/-- Every step of a pool that meets its contracts is one session's own step, or one of the
environment. -/
theorem AllMeet.own {Q : ι → Except ε α → World ι D K Ch V → Prop}
    {c c' : Config ι ε (Cmd D K Ch V ε) (World ι D K Ch V) α} (hsys : Framed sys) (hfair : t.Fair)
    (h : AllMeet sys t.contract Q c) (hstep : Step sys c c') :
    (∃ i, t.own i c.state c'.state) ∨ Env c.state c'.state := by
  cases hstep with
  | thread i cmd k r hcall hs =>
    have hi := h.meets i
    rw [hcall] at hi
    obtain ⟨-, hg, -⟩ := hi _ h.inv ⟨.refl i _, hfair.refl i _⟩ r _ hs
    exact .inl ⟨i, hg.1⟩
  | env henv => exact .inr (hsys.env henv)

end Vivac.Lib
