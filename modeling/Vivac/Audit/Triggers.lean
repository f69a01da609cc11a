import Vivac.Lib.VersionChains
import Vivac.Models.Records

/-!
# The audit triggers

The trigger `log_audit` of the audit migration, and the transactions that it fires in. Any number of
transactions change rows of the audited tables, interleaved statement by statement: a changed row
stays locked to the end of its transaction, the numbers of log rows come from one sequence, which no
rollback sets back, and `changed_at` is `now()`, the start of the transaction (`AuditStep`).

Whatever the interleaving, the log rows of one row are a chain of versions from its insert to what
is there now, and their numbers grow along it (`Logged`).
-/

set_option autoImplicit false

namespace Vivac.Audit

open Lib

/-- The value of a column of `jsonb`, up to Python's equality; `none` is `null`. -/
abbrev Value (V : Type) : Type := Option V

/-- A row as `to_jsonb` shows it. -/
abbrev Data (V : Type) : Type := List (String × Value V)

/-- An audited table and the uid of a row in it, which no statement changes. -/
structure RowId where
  tableName : String
  uid : String
  deriving DecidableEq

inductive TgOp where
  | insert
  | update
  | delete
  deriving DecidableEq

/-- A row of `audit_log`. -/
structure AuditLog (V : Type) where
  id : ℕ
  tableName : String
  rowUid : String
  action : TgOp
  oldData : Option (Data V)
  newData : Option (Data V)
  changedBy : Option String
  changedAt : Timestamp

variable {ι V : Type}

/-- `TG_OP` of a change from `old` to `new`. -/
def tgOp : Option (Data V) → Option (Data V) → TgOp
  | none, _ => .insert
  | some _, some _ => .update
  | some _, none => .delete

/-- `log_audit()`, in a transaction that started at `now` and has set `app.user_id` to `userId`. -/
def logAudit (id : ℕ) (k : RowId) (old new : Option (Data V)) (userId : Option String)
    (now : Timestamp) : AuditLog V where
  id := id
  tableName := k.tableName
  rowUid := k.uid
  action := tgOp old new
  oldData := if tgOp old new = .insert then none else old
  newData := if tgOp old new = .delete then none else new
  changedBy := userId
  changedAt := now

/-- The trigger logs the row as it was and as it is. -/
theorem logAudit_data (id : ℕ) (k : RowId) (old new : Option (Data V)) (userId : Option String)
    (now : Timestamp) :
    (logAudit id k old new userId now).oldData = old ∧
      (logAudit id k old new userId now).newData = new := by
  cases old <;> cases new <;> exact ⟨rfl, rfl⟩

/-! ## Transactions -/

/-- What a transaction has done: `app.user_id`, the rows it has changed and holds locked, with what
they are in it, and the log rows its triggers have inserted. -/
structure AuditWork (V : Type) where
  userId : Option String := none
  rows : RowId → Option (Option (Data V)) := fun _ => none
  entries : List (AuditLog V) := []

/-- An open transaction: its start, its work, and the work at each of its savepoints, the last
first. -/
structure AuditTx (V : Type) where
  startedAt : Timestamp
  work : AuditWork V := {}
  saved : List (AuditWork V) := []

/-- What is committed, the clock and the sequence of the log, and the open transactions. -/
structure AuditWorld (ι V : Type) where
  now : Timestamp
  nextId : ℕ
  rows : RowId → Option (Data V)
  log : List (AuditLog V)
  tx : ι → Option (AuditTx V)

namespace AuditWorld

variable (s : AuditWorld ι V)

/-- A row as a transaction with this work sees it. -/
def current (w : AuditWork V) (k : RowId) : Option (Data V) := (w.rows k).getD (s.rows k)

/-- Nobody else holds the row locked. -/
def FreeFor (i : ι) (k : RowId) : Prop := ∀ j t, j ≠ i → s.tx j = some t → t.work.rows k = none

/-- The work after a change of a row, with the log row of the trigger. -/
def changed (t : AuditTx V) (k : RowId) (new : Option (Data V)) (id : ℕ) : AuditWork V where
  userId := t.work.userId
  rows := Function.update t.work.rows k (some new)
  entries := t.work.entries ++
    [logAudit id k (s.current t.work k) new t.work.userId t.startedAt]

variable [DecidableEq ι]

/-- The transaction goes on as `t`. -/
def put (i : ι) (t : Option (AuditTx V)) : AuditWorld ι V :=
  { s with tx := Function.update s.tx i t }

end AuditWorld

section Steps

variable [DecidableEq ι]

/-- One statement, commit or rollback of a transaction, or time that passes. -/
inductive AuditStep : AuditWorld ι V → AuditWorld ι V → Prop
  | wait {s : AuditWorld ι V} (now : Timestamp) (h : s.now ≤ now) :
      AuditStep s { s with now := now }
  | start {s : AuditWorld ι V} (i : ι) (h : s.tx i = none) :
      AuditStep s (s.put i (some { startedAt := s.now }))
  | setUser {s : AuditWorld ι V} {t : AuditTx V} (i : ι) (userUid : String) (h : s.tx i = some t) :
      AuditStep s (s.put i (some { t with work := { t.work with userId := some userUid } }))
  | change {s : AuditWorld ι V} {t : AuditTx V} (i : ι) (k : RowId) (new : Option (Data V)) (id : ℕ)
      (h : s.tx i = some t) (hfree : s.FreeFor i k) (hid : s.nextId ≤ id)
      (hrow : s.current t.work k ≠ none ∨ new ≠ none) :
      AuditStep s ({ s with nextId := id + 1 }.put i (some { t with work := s.changed t k new id }))
  | savepoint {s : AuditWorld ι V} {t : AuditTx V} (i : ι) (h : s.tx i = some t) :
      AuditStep s (s.put i (some { t with saved := t.work :: t.saved }))
  | release {s : AuditWorld ι V} {t : AuditTx V} (i : ι) (h : s.tx i = some t) :
      AuditStep s (s.put i (some { t with saved := t.saved.tail }))
  | rollbackTo {s : AuditWorld ι V} {t : AuditTx V} (i : ι) (w : AuditWork V) (h : s.tx i = some t)
      (hsaved : t.saved.head? = some w) : AuditStep s (s.put i (some { t with work := w }))
  | commit {s : AuditWorld ι V} {t : AuditTx V} (i : ι) (h : s.tx i = some t) :
      AuditStep s ({ s with
        rows := s.current t.work
        log := s.log ++ t.work.entries }.put i none)
  | rollback {s : AuditWorld ι V} {t : AuditTx V} (i : ι) (h : s.tx i = some t) :
      AuditStep s (s.put i none)

/-- Any number of steps. -/
abbrev AuditRun : AuditWorld ι V → AuditWorld ι V → Prop := Relation.ReflTransGen AuditStep

end Steps

/-- The log rows of one row, in the order in which they were inserted. -/
def logOf (k : RowId) (es : List (AuditLog V)) : List (AuditLog V) :=
  es.filter fun e => e.tableName == k.tableName && e.rowUid == k.uid

section LogOf

variable {k k' : RowId}

theorem logOf_append (k : RowId) (es fs : List (AuditLog V)) :
    logOf k (es ++ fs) = logOf k es ++ logOf k fs := List.filter_append ..

theorem logOf_logAudit_self (id : ℕ) (old new : Option (Data V)) (userId : Option String)
    (now : Timestamp) :
    logOf k [logAudit id k old new userId now] = [logAudit id k old new userId now] := by
  simp [logOf, logAudit]

theorem logOf_logAudit_of_ne (h : k' ≠ k) (id : ℕ) (old new : Option (Data V))
    (userId : Option String) (now : Timestamp) :
    logOf k [logAudit id k' old new userId now] = [] := by
  have hne : ¬ (k'.tableName = k.tableName ∧ k'.uid = k.uid) := by
    rintro ⟨htable, huid⟩
    cases k
    cases k'
    exact h (by simp_all)
  simpa [logOf, logAudit] using hne

end LogOf

/-! ## The log of one row -/

/-- The work of a transaction and its log rows of `k`: they go on from the committed ones, from the
committed version to the one in the transaction. -/
structure WorkLogged (s : AuditWorld ι V) (k : RowId) (startedAt : Timestamp) (w : AuditWork V) :
    Prop where
  unlocked : w.rows k = none → logOf k w.entries = []
  chain : VersionChain AuditLog.oldData AuditLog.newData (s.rows k) (logOf k w.entries)
    (s.current w k)
  numbered : (logOf k s.log ++ logOf k w.entries).Pairwise fun a b => a.id < b.id
  bounded : ∀ e ∈ logOf k w.entries, e.id < s.nextId
  dated : ∀ e ∈ logOf k w.entries, e.changedAt = startedAt

/-- The committed log rows of `k` lead from no row to the row that is there, and so do those of
every open transaction, of which one at most holds the row locked. -/
structure Logged (k : RowId) (s : AuditWorld ι V) : Prop where
  chain : VersionChain AuditLog.oldData AuditLog.newData none (logOf k s.log) (s.rows k)
  numbered : (logOf k s.log).Pairwise fun a b => a.id < b.id
  bounded : ∀ e ∈ logOf k s.log, e.id < s.nextId
  works : ∀ i t, s.tx i = some t → ∀ w ∈ t.work :: t.saved, WorkLogged s k t.startedAt w
  nested : ∀ i t, s.tx i = some t →
    (t.work :: t.saved).Pairwise fun a b => a.rows k = none → b.rows k = none
  alone : ∀ i j t t', i ≠ j → s.tx i = some t → s.tx j = some t' →
    t.work.rows k = none ∨ t'.work.rows k = none

section Invariant

variable {s s' : AuditWorld ι V} {k : RowId} {startedAt : Timestamp} {w : AuditWork V}

/-- A transaction that has not changed the row says nothing of it. -/
theorem WorkLogged.of_unlocked (hrow : w.rows k = none) (hentries : logOf k w.entries = [])
    (hnumbered : (logOf k s.log).Pairwise fun a b => a.id < b.id) : WorkLogged s k startedAt w := by
  refine ⟨fun _ => hentries, ?_, ?_, ?_, ?_⟩
  · have hcurrent : s.current w k = s.rows k := by
      rw [AuditWorld.current, hrow]
      rfl
    rw [hentries, hcurrent]
    exact .nil _
  · rw [hentries, List.append_nil]
    exact hnumbered
  · rw [hentries]
    exact fun e he => by cases he
  · rw [hentries]
    exact fun e he => by cases he

/-- The row and its committed log rows stay, and the sequence goes on. -/
theorem WorkLogged.of_same (h : WorkLogged s k startedAt w) (hrows : s'.rows k = s.rows k)
    (hlog : logOf k s'.log = logOf k s.log) (hid : s.nextId ≤ s'.nextId) :
    WorkLogged s' k startedAt w := by
  have hcurrent : s'.current w k = s.current w k := by
    rw [AuditWorld.current, AuditWorld.current, hrows]
  refine ⟨h.unlocked, ?_, ?_, fun e he => (h.bounded e he).trans_le hid, h.dated⟩
  · rw [hrows, hcurrent]
    exact h.chain
  · rw [hlog]
    exact h.numbered

/-- Later numbers do not concern what is logged. -/
theorem Logged.advance (h : Logged k s) {now : Timestamp} {id : ℕ} (hid : s.nextId ≤ id) :
    Logged k { s with now := now, nextId := id } :=
  ⟨h.chain, h.numbered, fun e he => (h.bounded e he).trans_le hid,
    fun i t ht w hw => (h.works i t ht w hw).of_same rfl rfl hid, h.nested, h.alone⟩

/-- The savepoints of a transaction that holds no lock on the row hold none either. -/
theorem Logged.saved_unlocked (h : Logged k s) {i : ι} {t : AuditTx V} (ht : s.tx i = some t)
    (hrow : t.work.rows k = none) : ∀ w ∈ t.work :: t.saved, w.rows k = none := by
  intro w hw
  rcases List.mem_cons.1 hw with rfl | hw
  · exact hrow
  · exact List.rel_of_pairwise_cons (h.nested i t ht) hw hrow

/-- A transaction holds the row locked, or it has not changed it. -/
theorem Logged.unlocked_or_free (h : Logged k s) {i : ι} {t : AuditTx V} (ht : s.tx i = some t) :
    t.work.rows k = none ∨ s.FreeFor i k := by
  by_cases hrow : t.work.rows k = none
  · exact .inl hrow
  · exact .inr fun j u hj hu => (h.alone i j t u hj.symm ht hu).resolve_left hrow

/-- A change of the row goes on from the version that the transaction sees, under a new number. -/
theorem WorkLogged.changed {t : AuditTx V} {new : Option (Data V)} {id : ℕ}
    (h : WorkLogged s k t.startedAt t.work) (hbounded : ∀ e ∈ logOf k s.log, e.id < s.nextId)
    (hid : s.nextId ≤ id) :
    WorkLogged { s with nextId := id + 1 } k t.startedAt (s.changed t k new id) := by
  have hentries : logOf k (s.changed t k new id).entries = logOf k t.work.entries ++
      [logAudit id k (s.current t.work k) new t.work.userId t.startedAt] := by
    rw [AuditWorld.changed, logOf_append, logOf_logAudit_self]
  obtain ⟨hold, hnew⟩ := logAudit_data id k (s.current t.work k) new t.work.userId t.startedAt
  have hcurrent : ({ s with nextId := id + 1 } : AuditWorld ι V).current (s.changed t k new id) k =
      new := by
    simp [AuditWorld.current, AuditWorld.changed]
  refine ⟨fun hrow => ?_, ?_, ?_, ?_, ?_⟩
  · simp [AuditWorld.changed] at hrow
  · rw [hentries, hcurrent]
    refine h.chain.append ?_
    have hlast : VersionChain AuditLog.oldData AuditLog.newData _ [_] _ :=
      .single (logAudit id k (s.current t.work k) new t.work.userId t.startedAt)
    rw [hold, hnew] at hlast
    exact hlast
  · rw [hentries, ← List.append_assoc, List.pairwise_append]
    refine ⟨h.numbered, List.pairwise_singleton .., fun e he e' he' => ?_⟩
    rw [List.mem_singleton.1 he']
    rcases List.mem_append.1 he with hcommitted | hown
    · exact (hbounded e hcommitted).trans_le hid
    · exact (h.bounded e hown).trans_le hid
  · rw [hentries]
    intro e he
    rcases List.mem_append.1 he with hown | hlast
    · exact ((h.bounded e hown).trans_le hid).trans (Nat.lt_succ_self id)
    · rw [List.mem_singleton.1 hlast]
      exact Nat.lt_succ_self id
  · rw [hentries]
    intro e he
    rcases List.mem_append.1 he with hown | hlast
    · exact h.dated e hown
    · rw [List.mem_singleton.1 hlast]
      rfl

/-- A change of another row leaves this one alone. -/
theorem WorkLogged.changed_other {t : AuditTx V} {k' : RowId} {new : Option (Data V)} {id : ℕ}
    (h : WorkLogged s k t.startedAt t.work) (hk : k' ≠ k) (hid : s.nextId ≤ id) :
    WorkLogged { s with nextId := id + 1 } k t.startedAt (s.changed t k' new id) := by
  have hentries : logOf k (s.changed t k' new id).entries = logOf k t.work.entries := by
    rw [AuditWorld.changed, logOf_append, logOf_logAudit_of_ne hk, List.append_nil]
  have hrow : (s.changed t k' new id).rows k = t.work.rows k := Function.update_of_ne hk.symm ..
  have hcurrent : ({ s with nextId := id + 1 } : AuditWorld ι V).current (s.changed t k' new id) k =
      s.current t.work k := by
    rw [AuditWorld.current, AuditWorld.current, hrow]
  refine ⟨?_, ?_, ?_, ?_, ?_⟩
  · rw [hrow, hentries]
    exact h.unlocked
  · rw [hentries, hcurrent]
    exact h.chain
  · rw [hentries]
    exact h.numbered
  · rw [hentries]
    exact fun e he => ((h.bounded e he).trans_le hid).trans (Nat.lt_succ_self id)
  · rw [hentries]
    exact h.dated

variable [DecidableEq ι]

/-- One transaction goes on, or ends without a trace. -/
theorem Logged.put (h : Logged k s) (i : ι) {t' : Option (AuditTx V)}
    (hworks : ∀ t, t' = some t → ∀ w ∈ t.work :: t.saved, WorkLogged s k t.startedAt w)
    (hnested : ∀ t, t' = some t →
      (t.work :: t.saved).Pairwise fun a b => a.rows k = none → b.rows k = none)
    (halone : ∀ t, t' = some t → t.work.rows k = none ∨ s.FreeFor i k) :
    Logged k (s.put i t') := by
  have hself : (s.put i t').tx i = t' := Function.update_self ..
  have hother : ∀ j, j ≠ i → (s.put i t').tx j = s.tx j := fun j hj => Function.update_of_ne hj ..
  refine ⟨h.chain, h.numbered, h.bounded, fun j t ht w hw => ?_, fun j t ht => ?_, ?_⟩
  · by_cases hj : j = i
    · subst hj
      exact (hworks t (hself ▸ ht) w hw).of_same rfl rfl le_rfl
    · rw [hother j hj] at ht
      exact (h.works j t ht w hw).of_same rfl rfl le_rfl
  · by_cases hj : j = i
    · subst hj
      exact hnested t (hself ▸ ht)
    · rw [hother j hj] at ht
      exact h.nested j t ht
  · intro j j' t u hjj' ht hu
    by_cases hj : j = i
    · subst hj
      rw [hself] at ht
      rw [hother j' hjj'.symm] at hu
      rcases halone t ht with hfree | hfree
      · exact .inl hfree
      · exact .inr (hfree j' u hjj'.symm hu)
    · by_cases hj' : j' = i
      · subst hj'
        rw [hother j hj] at ht
        rw [hself] at hu
        rcases halone u hu with hfree | hfree
        · exact .inr hfree
        · exact .inl (hfree j t hj ht)
      · rw [hother j hj] at ht
        rw [hother j' hj'] at hu
        exact h.alone j j' t u hjj' ht hu

/-- A transaction commits: what it has done of the row follows what was committed. -/
theorem Logged.publish (h : Logged k s) {i : ι} {t : AuditTx V} (ht : s.tx i = some t) :
    Logged k ({ s with rows := s.current t.work, log := s.log ++ t.work.entries }.put i none) := by
  have hwork : WorkLogged s k t.startedAt t.work := h.works i t ht _ List.mem_cons_self
  have hlog : logOf k (s.log ++ t.work.entries) = logOf k s.log ++ logOf k t.work.entries :=
    logOf_append ..
  -- the others have not changed the row, or this transaction has not
  have hothers : ∀ j u, j ≠ i → s.tx j = some u → ∀ w ∈ u.work :: u.saved,
      WorkLogged { s with rows := s.current t.work, log := s.log ++ t.work.entries } k u.startedAt
        w := by
    intro j u hj hu w hw
    have hold : WorkLogged s k u.startedAt w := h.works j u hu w hw
    rcases h.alone i j t u hj.symm ht hu with hmine | htheirs
    · apply hold.of_same
      · show s.current t.work k = s.rows k
        rw [AuditWorld.current, hmine]
        rfl
      · show logOf k (s.log ++ t.work.entries) = logOf k s.log
        rw [hlog, hwork.unlocked hmine, List.append_nil]
      · exact le_rfl
    · have hrow : w.rows k = none := h.saved_unlocked hu htheirs w hw
      apply WorkLogged.of_unlocked hrow (hold.unlocked hrow)
      show (logOf k (s.log ++ t.work.entries)).Pairwise _
      rw [hlog]
      exact hwork.numbered
  have htx : ∀ j u, (Function.update s.tx i none) j = some u → j ≠ i ∧ s.tx j = some u := by
    intro j u hu
    by_cases hj : j = i
    · subst hj
      rw [Function.update_self] at hu
      cases hu
    · rw [Function.update_of_ne hj] at hu
      exact ⟨hj, hu⟩
  refine ⟨?_, ?_, ?_, fun j u hu w hw => ?_, fun j u hu => ?_, fun j j' u u' hjj' hu hu' => ?_⟩
  · show VersionChain _ _ none (logOf k (s.log ++ t.work.entries)) (s.current t.work k)
    rw [hlog]
    exact h.chain.append hwork.chain
  · show (logOf k (s.log ++ t.work.entries)).Pairwise _
    rw [hlog]
    exact hwork.numbered
  · show ∀ e ∈ logOf k (s.log ++ t.work.entries), e.id < s.nextId
    rw [hlog]
    intro e he
    rcases List.mem_append.1 he with hold | hnew
    · exact h.bounded e hold
    · exact hwork.bounded e hnew
  · obtain ⟨hj, hold⟩ := htx j u hu
    exact (hothers j u hj hold w hw).of_same rfl rfl le_rfl
  · exact h.nested j u (htx j u hu).2
  · exact h.alone j j' u u' hjj' (htx j u hu).2 (htx j' u' hu').2

/-- Every step keeps the log of the row. -/
theorem Logged.step (h : Logged k s) (hstep : AuditStep s s') : Logged k s' := by
  cases hstep with
  | wait now hnow => exact h.advance le_rfl
  | start i hi =>
      apply h.put
      · rintro t ht w hw
        cases ht
        rw [List.mem_singleton.1 hw]
        exact .of_unlocked rfl rfl h.numbered
      · rintro t ht
        cases ht
        exact List.pairwise_singleton ..
      · rintro t ht
        cases ht
        exact .inl rfl
  | @setUser t i userUid hi =>
      have hworks := h.works i t hi
      have hfree := h.unlocked_or_free hi
      have hnested := h.nested i t hi
      rw [List.pairwise_cons] at hnested
      apply h.put
      · rintro u hu w hw
        cases hu
        rcases List.mem_cons.1 hw with rfl | hw
        · obtain ⟨hunlocked, hchain, hnumbered, hbounded, hdated⟩ := hworks _ List.mem_cons_self
          exact ⟨hunlocked, hchain, hnumbered, hbounded, hdated⟩
        · exact hworks w (List.mem_cons_of_mem _ hw)
      · rintro u hu
        cases hu
        exact List.pairwise_cons.2 hnested
      · rintro u hu
        cases hu
        exact hfree
  | @change t i k' new id hi hfree hid hrow =>
      have hworks := h.works i t hi
      have hnested := h.nested i t hi
      rw [List.pairwise_cons] at hnested
      -- the log entry takes its id from the sequence, which no rollback gives back
      have hlater : Logged k { s with nextId := id + 1 } :=
        h.advance (hid.trans (Nat.le_succ id))
      by_cases hk : k' = k
      · subst hk
        apply hlater.put
        · rintro u hu w hw
          cases hu
          rcases List.mem_cons.1 hw with rfl | hw
          · exact (hworks _ List.mem_cons_self).changed h.bounded hid
          · exact (hworks w (List.mem_cons_of_mem _ hw)).of_same rfl rfl
              (hid.trans (Nat.le_succ id))
        · rintro u hu
          cases hu
          refine List.pairwise_cons.2 ⟨fun b _ hnone => ?_, hnested.2⟩
          simp [AuditWorld.changed] at hnone
        · exact fun u _ => .inr hfree
      · have hsame : (s.changed t k' new id).rows k = t.work.rows k :=
          Function.update_of_ne (Ne.symm hk) ..
        apply hlater.put
        · rintro u hu w hw
          cases hu
          rcases List.mem_cons.1 hw with rfl | hw
          · exact (hworks _ List.mem_cons_self).changed_other hk hid
          · exact (hworks w (List.mem_cons_of_mem _ hw)).of_same rfl rfl
              (hid.trans (Nat.le_succ id))
        · rintro u hu
          cases hu
          refine List.pairwise_cons.2 ⟨fun b hb hnone => ?_, hnested.2⟩
          exact hnested.1 b hb (hsame ▸ hnone)
        · rintro u hu
          cases hu
          exact (h.unlocked_or_free hi).imp hsame.trans fun hfree => hfree
  | @savepoint t i hi =>
      have hworks := h.works i t hi
      have hfree := h.unlocked_or_free hi
      have hnested := h.nested i t hi
      apply h.put
      · rintro u hu w hw
        cases hu
        rcases List.mem_cons.1 hw with rfl | hw
        · exact hworks _ List.mem_cons_self
        · exact hworks w hw
      · rintro u hu
        cases hu
        refine List.pairwise_cons.2 ⟨fun b hb hnone => ?_, hnested⟩
        rcases List.mem_cons.1 hb with rfl | hb
        · exact hnone
        · exact List.rel_of_pairwise_cons hnested hb hnone
      · rintro u hu
        cases hu
        exact hfree
  | @release t i hi =>
      have hworks := h.works i t hi
      have hfree := h.unlocked_or_free hi
      have hnested := h.nested i t hi
      rw [List.pairwise_cons] at hnested
      apply h.put
      · rintro u hu w hw
        cases hu
        rcases List.mem_cons.1 hw with rfl | hw
        · exact hworks _ List.mem_cons_self
        · exact hworks w (List.mem_cons_of_mem _ (List.mem_of_mem_tail hw))
      · rintro u hu
        cases hu
        refine List.pairwise_cons.2 ⟨fun b hb => ?_, hnested.2.sublist (List.tail_sublist _)⟩
        exact hnested.1 b (List.mem_of_mem_tail hb)
      · rintro u hu
        cases hu
        exact hfree
  | @rollbackTo t i w hi hsaved =>
      have hworks := h.works i t hi
      have hnested := h.nested i t hi
      -- the work that comes back is the last one saved, and it stays saved
      obtain ⟨ws, hlist⟩ : ∃ ws, t.saved = w :: ws := List.head?_eq_some_iff.1 hsaved
      have hmem : w ∈ t.saved := by
        rw [hlist]
        exact List.mem_cons_self
      rw [List.pairwise_cons, hlist] at hnested
      apply h.put
      · rintro u hu v hv
        cases hu
        rcases List.mem_cons.1 hv with rfl | hv
        · exact hworks _ (List.mem_cons_of_mem _ hmem)
        · exact hworks v (List.mem_cons_of_mem _ hv)
      · rintro u hu
        cases hu
        show (w :: t.saved).Pairwise _
        rw [hlist]
        refine List.pairwise_cons.2 ⟨fun b hb hnone => ?_, hnested.2⟩
        rcases List.mem_cons.1 hb with rfl | hb
        · exact hnone
        · exact List.rel_of_pairwise_cons hnested.2 hb hnone
      · rintro u hu
        cases hu
        exact (h.unlocked_or_free hi).imp
          (fun hrow => h.saved_unlocked hi hrow w (List.mem_cons_of_mem _ hmem)) fun hfree => hfree
  | commit i hi => exact h.publish hi
  | rollback i hi =>
      apply h.put
      · rintro t ht
        cases ht
      · rintro t ht
        cases ht
      · rintro t ht
        cases ht

/-- The row is not there, and nothing of it is logged or under way. -/
structure Untouched (k : RowId) (s : AuditWorld ι V) : Prop where
  row : s.rows k = none
  log : logOf k s.log = []
  tx : ∀ i t, s.tx i = some t → ∀ w ∈ t.work :: t.saved, w.rows k = none ∧ logOf k w.entries = []

omit [DecidableEq ι] in
theorem Untouched.logged (h : Untouched k s) : Logged k s := by
  have hempty : (logOf k s.log).Pairwise fun a b => a.id < b.id := by
    rw [h.log]
    exact .nil
  refine ⟨?_, hempty, ?_, fun i t ht w hw => ?_, fun i t ht => ?_, fun i j t t' _ ht _ => ?_⟩
  · rw [h.log, h.row]
    exact .nil _
  · rw [h.log]
    exact fun e he => by cases he
  · obtain ⟨hrow, hentries⟩ := h.tx i t ht w hw
    exact .of_unlocked hrow hentries hempty
  · refine List.pairwise_of_forall_mem_list fun a ha b hb _ => ?_
    exact (h.tx i t ht b hb).1
  · exact .inl (h.tx i t ht _ List.mem_cons_self).1

/-- In every run from before the row was there, its log is a chain of versions. -/
theorem Logged.of_run (h : Untouched k s) (hrun : AuditRun s s') : Logged k s' := by
  induction hrun with
  | refl => exact h.logged
  | tail _ hstep ih => exact ih.step hstep

end Invariant

end Vivac.Audit
