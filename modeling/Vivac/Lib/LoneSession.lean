import Vivac.Lib.Evaluation
import Vivac.Lib.LoneRuns
import Vivac.Lib.SessionRules

/-!
# A session by itself

Total correctness of a program that one session runs to its end while the others do
nothing: `Lone i P p Q` says that from every state with `P` it ends, in a state with `Q`
(`Alone`).

`Sees i db ds d` describes the session: the committed database is `db`, the session sees
`d`, and rolling back to its open savepoints would show `ds`, innermost first. After a
failed statement only `Holds i db ds` is left, until a rollback to a savepoint.
-/

set_option autoImplicit false

namespace Vivac.Lib

variable {ι D K Ch V ε R α β : Type} [DecidableEq ι] [DecidableEq K] [Faults ε]

/-- From every state with `P`, session `i` runs `p` by itself to an end with `Q`. -/
def Lone (i : ι) (P : World ι D K Ch V → Prop) (p : Prog ε (Cmd D K Ch V ε) α)
    (Q : Except ε α → World ι D K Ch V → Prop) : Prop :=
  Alone (fun i => exec i) i P p Q

section Rules

variable {i : ι} {P P' : World ι D K Ch V → Prop} {Q Q' : Except ε α → World ι D K Ch V → Prop}

theorem Lone.conseq {p : Prog ε (Cmd D K Ch V ε) α} (h : Lone i P p Q) (hP : ∀ s, P' s → P s)
    (hQ : ∀ r s, Q r s → Q' r s) : Lone i P' p Q' := Alone.conseq h hP hQ

theorem Lone.ret (a : α) (h : ∀ s, P s → Q (.ok a) s) : Lone i P (.ret a) Q := Alone.ret a h

theorem Lone.raise (e : ε) (h : ∀ s, P s → Q (.error e) s) : Lone i P (.raise e) Q :=
  Alone.raise e h

theorem Lone.bind {p : Prog ε (Cmd D K Ch V ε) β} {f : β → Prog ε (Cmd D K Ch V ε) α}
    (M : Except ε β → World ι D K Ch V → Prop) (hp : Lone i P p M)
    (hok : ∀ b, Lone i (M (.ok b)) (f b) Q) (herror : ∀ e s, M (.error e) s → Q (.error e) s) :
    Lone i P (p.bind f) Q := Alone.bind M hp hok herror

/-- A program that is known to answer, followed by the rest. -/
theorem Lone.bind_ok {p : Prog ε (Cmd D K Ch V ε) β} {b : β}
    {f : β → Prog ε (Cmd D K Ch V ε) α} {M : World ι D K Ch V → Prop}
    (hp : Lone i P p fun r s => r = .ok b ∧ M s) (hf : Lone i M (f b) Q) :
    Lone i P (p.bind f) Q := Alone.bind_ok hp hf

theorem Lone.attempt {p : Prog ε (Cmd D K Ch V ε) β} {M : Except ε β → World ι D K Ch V → Prop}
    {Q : Except ε (Except ε β) → World ι D K Ch V → Prop} (hp : Lone i P p M)
    (hQ : ∀ r s, M r s → Q (.ok r) s) : Lone i P p.attempt Q := Alone.attempt hp hQ

/-- One command. -/
theorem Lone.perform {c : Cmd D K Ch V ε α}
    (h : ∀ s, P s → ∃ r s', exec i c s = some (r, s') ∧ Q r s') :
    Lone i P (Prog.perform c) Q := Alone.perform h

end Rules

/-! ## What the session sees -/

/-- The committed database is `db`, nobody else holds a lock, and the open savepoints of
session `i` show `ds`. The transaction is not lost. -/
structure Holds (i : ι) (db : D) (ds : List D) (s : World ι D K Ch V) : Prop where
  db_eq : s.db = db
  free : s.heldByOther i = fun _ => false
  alive : (s.tx i).status ≠ .lost
  saved : (s.tx i).saved.map (fun w => w.write db) = ds

/-- The transaction of session `i` is usable, too, and the session sees `d`. -/
structure Sees (i : ι) (db : D) (ds : List D) (d : D) (s : World ι D K Ch V) : Prop where
  holds : Holds i db ds s
  active : (s.tx i).status = .active
  view_eq : s.view i = d

section Commands

variable {i : ι} {db d : D} {ds : List D}

omit [DecidableEq K] [Faults ε] in
theorem Sees.view_write {s : World ι D K Ch V} (h : Sees i db ds d s) :
    (s.tx i).work.write db = d := by
  rw [← h.view_eq, ← h.holds.db_eq]
  rfl

/-- The session ends as `out` says: with an answer and what it sees then, or an exception. -/
def Ends (i : ι) (db : D) (ds : List D) (out : Except ε (α × D)) (r : Except ε α)
    (s : World ι D K Ch V) : Prop :=
  match out with
  | .ok (a, d') => r = .ok a ∧ Sees i db ds d' s
  | .error e => r = .error e ∧ Holds i db ds s

/-- A statement does to what the session sees what it does to tables. -/
theorem Lone.statement (st : Stmt D K Ch ε R) :
    Lone i (Sees i db ds d) (Prog.perform (.sql st) : Prog ε (Cmd D K Ch V ε) R)
      (Ends i db ds (st.apply d)) := by
  cases hst : st (fun _ => false) d with
  | error e =>
    simp only [Stmt.apply, hst, Except.map]
    refine Lone.perform fun s h => ⟨_, (s.query i).setTx i { s.tx i with status := .failed },
      ?_, rfl, ?_⟩
    · simp only [exec, onActive, h.active, execSql, h.holds.free, h.view_eq, hst]
    · refine ⟨h.holds.db_eq, h.holds.free, ?_, ?_⟩
      · simp [World.setTx]
      · simpa [World.setTx] using h.holds.saved
  | ok eff =>
    simp only [Stmt.apply, hst, Except.map]
    refine Lone.perform fun s h => ⟨_, ((s.query i).lock i eff.locks).setTx i
      { s.tx i with work := ⟨eff.write ∘ (s.tx i).work.write, (s.tx i).work.locks ++ eff.locks,
        (s.tx i).work.changes ++ eff.changes⟩ }, ?_, rfl, ?_⟩
    · simp only [exec, onActive, h.active, execSql, h.holds.free, h.view_eq, hst, List.any_eq_true,
        Bool.false_eq_true, and_false, exists_false, if_false]
    · refine ⟨⟨h.holds.db_eq, ?_, ?_, ?_⟩, ?_, ?_⟩
      · funext k
        have hfree : s.heldByOther i k = false := congrFun h.holds.free k
        show World.heldByOther (World.lock _ i eff.locks) i k = false
        by_cases hk : k ∈ eff.locks
        · simp [World.heldByOther, World.lock, hk]
        · simpa [World.heldByOther, World.lock, World.query, World.log, hk] using hfree
      · simpa [World.setTx] using h.holds.alive
      · simpa [World.setTx] using h.holds.saved
      · simpa [World.setTx] using h.active
      · simp only [World.view, World.setTx, Function.update_self, Function.comp_apply]
        exact congrArg eff.write h.view_eq

/-- A statement, and what follows on what it does. -/
theorem Lone.statement_bind {st : Stmt D K Ch ε R} {f : R → Prog ε (Cmd D K Ch V ε) α}
    {Q : Except ε α → World ι D K Ch V → Prop}
    (hok : ∀ a d', st.apply d = .ok (a, d') → Lone i (Sees i db ds d') (f a) Q)
    (herror : ∀ e, st.apply d = .error e → ∀ s, Holds i db ds s → Q (.error e) s) :
    Lone i (Sees i db ds d)
      ((Prog.perform (.sql st) : Prog ε (Cmd D K Ch V ε) R).bind f) Q := by
  have hrun : Lone i (Sees i db ds d) (Prog.perform (.sql st) : Prog ε (Cmd D K Ch V ε) R)
      (Ends i db ds (st.apply d)) := Lone.statement st
  cases hst : st.apply d with
  | ok out =>
    rw [hst] at hrun
    exact Lone.bind_ok hrun (hok out.1 out.2 hst)
  | error e =>
    rw [hst] at hrun
    exact Alone.bind_error hrun (herror e hst)

/-- A `SELECT` answers what the session sees. -/
theorem Lone.read (f : D → R) :
    Lone i (Sees i db ds d)
      (Prog.perform (.sql (Stmt.read f : Stmt D K Ch ε R)) : Prog ε (Cmd D K Ch V ε) R)
      fun r s => r = .ok (f d) ∧ Sees i db ds d s :=
  Lone.statement (Stmt.read f)

/-- A savepoint remembers what the session sees. -/
theorem Lone.savepoint :
    Lone i (Sees i db ds d) (Prog.perform .savepoint : Prog ε (Cmd D K Ch V ε) Unit)
      fun r s => r = .ok () ∧ Sees i db (d :: ds) d s := by
  refine Lone.perform fun s h =>
    ⟨_, s.setTx i { s.tx i with saved := (s.tx i).work :: (s.tx i).saved },
    ?_, rfl, ?_⟩
  · simp only [exec, onActive, h.active]
  · refine ⟨⟨h.holds.db_eq, h.holds.free, ?_, ?_⟩, ?_, ?_⟩
    · simpa [World.setTx] using h.holds.alive
    · simp only [World.setTx, Function.update_self, List.map_cons, h.holds.saved, h.view_write]
    · simpa [World.setTx] using h.active
    · simpa [World.view, World.setTx] using h.view_eq

/-- A released savepoint leaves the work done since. -/
theorem Lone.release {d' : D} :
    Lone i (Sees i db (d' :: ds) d) (Prog.perform .release : Prog ε (Cmd D K Ch V ε) Unit)
      fun r s => r = .ok () ∧ Sees i db ds d s := by
  refine Lone.perform fun s h => ⟨_, s.setTx i { s.tx i with saved := (s.tx i).saved.tail },
    ?_, rfl, ?_⟩
  · simp only [exec, onActive, h.active]
  · refine ⟨⟨h.holds.db_eq, h.holds.free, ?_, ?_⟩, ?_, ?_⟩
    · simpa [World.setTx] using h.holds.alive
    · simp only [World.setTx, Function.update_self, List.map_tail, h.holds.saved, List.tail_cons]
    · simpa [World.setTx] using h.active
    · simpa [World.view, World.setTx] using h.view_eq

/-- A rollback to a savepoint shows what it remembers, also after a failed statement. -/
theorem Lone.rollbackTo {d' : D} :
    Lone i (Holds i db (d' :: ds)) (Prog.perform .rollbackTo : Prog ε (Cmd D K Ch V ε) Unit)
      fun r s => r = .ok () ∧ Sees i db ds d' s := by
  refine Lone.perform fun s h => ?_
  obtain ⟨w, ws, hsaved, hw, hws⟩ : ∃ w ws, (s.tx i).saved = w :: ws ∧ w.write db = d' ∧
      ws.map (fun w => w.write db) = ds := by
    have hmap := h.saved
    cases hcase : (s.tx i).saved with
    | nil => simp [hcase] at hmap
    | cons w ws =>
      rw [hcase, List.map_cons, List.cons.injEq] at hmap
      exact ⟨w, ws, rfl, hmap⟩
  refine ⟨.ok (), (s.unlock i w.locks).setTx i ⟨w, ws, .active⟩, ?_, rfl, ?_⟩
  · have halive := h.alive
    simp only [exec, execRollbackTo, hsaved]
  · refine ⟨⟨h.db_eq, ?_, ?_, ?_⟩, ?_, ?_⟩
    · funext k
      have hfree : s.heldByOther i k = false := congrFun h.free k
      show World.heldByOther (World.unlock s i w.locks) i k = false
      by_cases hk : s.holder k = some i ∧ k ∉ w.locks
      · simp [World.heldByOther, World.unlock, hk]
      · simpa only [World.heldByOther, World.unlock, if_neg hk] using hfree
    · simp [World.setTx]
    · simpa [World.setTx] using hws
    · simp [World.setTx]
    · simp only [World.view, World.setTx, Function.update_self]
      show w.write s.db = d'
      rw [h.db_eq, hw]

omit [DecidableEq K] [Faults ε] in
/-- A session whose transaction has just ended, and the locks with it. -/
theorem Sees.of_ended [DecidableEq K] {s : World ι D K Ch V}
    (hfree : s.heldByOther i = fun _ => false) (hdb : s.db = db) :
    Sees i db [] db (endTx i s) := by
  have htx : (endTx i s).tx i = {} := Function.update_self ..
  refine ⟨⟨hdb, ?_, ?_, ?_⟩, ?_, ?_⟩
  · funext k
    have hk : s.heldByOther i k = false := congrFun hfree k
    show World.heldByOther (World.unlock s i []) i k = false
    by_cases hown : s.holder k = some i
    · simp [World.heldByOther, World.unlock, hown]
    · simpa [World.heldByOther, World.unlock, hown] using hk
  · simp [htx]
  · simp [htx]
  · rw [htx]
  · rw [World.view, htx]
    exact hdb

/-- A commit publishes what the session sees. -/
theorem Lone.commit :
    Lone i (Sees i db ds d) (Prog.perform .commit : Prog ε (Cmd D K Ch V ε) Unit)
      fun r s => r = .ok () ∧ Sees i d [] d s := by
  refine Lone.perform fun s h => ⟨.ok (), execCommit i s (s.tx i), ?_, rfl, ?_⟩
  · simp only [exec, h.active]
  · apply Sees.of_ended
    · exact h.holds.free
    · rw [← h.view_eq]
      rfl

/-- A rollback shows the committed database, whatever the transaction has come to. -/
theorem Lone.rollback :
    Lone i (fun s => s.heldByOther i = (fun _ => false) ∧ s.db = db)
      (Prog.perform .rollback : Prog ε (Cmd D K Ch V ε) Unit)
      fun r s => r = .ok () ∧ Sees i db [] db s := by
  refine Lone.perform fun s h => ⟨.ok (), endTx i (s.log i .rollback), rfl, rfl, ?_⟩
  exact Sees.of_ended h.1 h.2

omit [DecidableEq K] [Faults ε] in
/-- What a session sees does not depend on the cache and the history. -/
theorem Sees.of_same {s s' : World ι D K Ch V} (h : Sees i db ds d s) (hdb : s'.db = s.db)
    (hholder : s'.holder = s.holder) (htx : s'.tx i = s.tx i) : Sees i db ds d s' := by
  refine ⟨⟨hdb.trans h.holds.db_eq, ?_, htx ▸ h.holds.alive, htx ▸ h.holds.saved⟩,
    htx ▸ h.active, ?_⟩
  · funext k
    have hfree : s.heldByOther i k = false := congrFun h.holds.free k
    simpa only [World.heldByOther, hholder] using hfree
  · rw [← h.view_eq]
    simp only [World.view, hdb, htx]

/-- A raise of a counter does not concern the database. -/
theorem Lone.incr (key : String) :
    Lone i (Sees i db ds d) (Prog.perform (.incr key) : Prog ε (Cmd D K Ch V ε) Unit)
      fun r s => (r = .ok () ∨ r = .error Faults.wrongType) ∧ Sees i db ds d s := by
  refine Lone.perform fun s h => ?_
  simp only [exec]
  split
  · exact ⟨_, s, rfl, .inr rfl, h⟩
  · exact ⟨_, _, rfl, .inl rfl, h.of_same rfl rfl rfl⟩

end Commands

/-! ## Programs of statements -/

/-- By itself a session makes of a program of statements what the program means. -/
theorem Lone.of_evaluates {i : ι} {p : Prog ε (Cmd D K Ch V ε) α} {d : D}
    {out : Except ε (α × D)} (h : Evaluates p d out) (db : D) (ds : List D) :
    Lone i (Sees i db ds d) p (Ends i db ds out) := by
  induction h with
  | ret a d => exact Lone.ret a fun _ hs => ⟨rfl, hs⟩
  | raise e d => exact Lone.raise e fun _ hs => ⟨rfl, hs.holds⟩
  | @sql R st k d d' a out hk hst _ ih =>
    have hrun : Lone i (Sees i db ds d) (Prog.perform (.sql st) : Prog ε (Cmd D K Ch V ε) R)
        (Ends i db ds (st.apply d)) := Lone.statement st
    rw [hst] at hrun
    rw [Prog.call_eq_bind hk]
    exact Lone.bind_ok hrun ih
  | @sql_error R st k d e hk hst =>
    have hrun : Lone i (Sees i db ds d) (Prog.perform (.sql st) : Prog ε (Cmd D K Ch V ε) R)
        (Ends i db ds (st.apply d)) := Lone.statement st
    rw [hst] at hrun
    rw [Prog.call_eq_bind hk]
    refine Lone.bind _ hrun (fun b s hs => ?_) fun e' s hs => ?_
    · cases hs.1
    · obtain ⟨he, hs⟩ := hs
      cases he
      exact ⟨rfl, hs⟩

end Vivac.Lib
