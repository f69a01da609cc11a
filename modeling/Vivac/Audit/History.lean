import Vivac.Audit.Triggers
import Vivac.Models.Records
import Vivac.Lib.Table
import Mathlib.Data.List.Dedup

/-!
# The history of a row

`crud/audit.py`: what `get_history` makes of the log rows of one row. In every run, under any
interleaving of transactions, the entries of the history are the changes of the row, the newest
first, they agree with each other and replay to the row that is there, exactly when the transactions
have changed the row in the order of their starts (`history_replays`): the log is listed by
`changed_at`, which is the start of the transaction, and the lock of the row decides who changes it
first.
-/

set_option autoImplicit false

namespace Vivac.Audit

open Lib

variable {ι V : Type}

/-! ## `crud/audit.py` -/

/-- `_IGNORED_FIELDS`. -/
def ignoredFields : List String := ["updated_at"]

structure FieldChange (V : Type) where
  before : Value V
  after : Value V

structure AuditLogEntry (V : Type) where
  changedAt : Timestamp
  action : TgOp
  changedBy : Option String
  changedByName : Option String
  changes : List (String × FieldChange V)

/-- `(data or {}).get(column)`. -/
def field (data : Option (Data V)) (column : String) : Value V :=
  ((data.getD []).lookup column).getD none

section

variable [DecidableEq V]

/-- `_compute_changes`. -/
def computeChanges (old new : Option (Data V)) : List (String × FieldChange V) :=
  let keys := (((old.getD []).map Prod.fst ++ (new.getD []).map Prod.fst).dedup).filter fun k =>
    k ∉ ignoredFields
  (keys.filter fun k => field old k ≠ field new k).map fun k => (k, ⟨field old k, field new k⟩)

/-- `name or nickname` of the user that the log row names, if there is one. -/
def changedByName (user : Option User) : Option String :=
  user.map fun u => if (u.name.getD "") = "" then u.nickname else u.name.getD ""

/-- The entry of a log row. -/
def toEntry (users : Table User.uid) (log : AuditLog V) : AuditLogEntry V where
  changedAt := log.changedAt
  action := log.action
  changedBy := log.changedBy
  changedByName := changedByName (log.changedBy.bind users.find?)
  changes := computeChanges log.oldData log.newData

/-- `get_history`. -/
def getHistory (users : Table User.uid) (log : List (AuditLog V)) (tableName rowUid : String)
    (limit : ℕ := 100) : List (AuditLogEntry V) :=
  ((latestFirst AuditLog.changedAt AuditLog.id (logOf ⟨tableName, rowUid⟩ log)).take limit).map
    (toEntry users)

/-- `get_spot_history`. -/
def getSpotHistory (users : Table User.uid) (log : List (AuditLog V)) (uid : String) :
    List (AuditLogEntry V) := getHistory users log "spots" uid

/-- `get_spot_business_info_history`. -/
def getSpotBusinessInfoHistory (users : Table User.uid) (log : List (AuditLog V)) (uid : String) :
    List (AuditLogEntry V) := getHistory users log "spot_business_info" uid

/-- A column that no change leaves out. -/
theorem lookup_computeChanges (old new : Option (Data V)) (column : String) :
    (computeChanges old new).lookup column =
      if column ∉ ignoredFields ∧ field old column ≠ field new column then
        some ⟨field old column, field new column⟩
      else none := by
  have hkeys : ∀ keys : List String,
      (keys.map fun k => (k, (⟨field old k, field new k⟩ : FieldChange V))).lookup column =
        if column ∈ keys then some ⟨field old column, field new column⟩ else none := by
    intro keys
    induction keys with
    | nil => rfl
    | cons k keys ih =>
        rw [List.map_cons, List.lookup_cons, ih]
        by_cases hk : column = k
        · subst hk
          simp
        · simp only [beq_eq_false_iff_ne.2 hk, List.mem_cons, hk, false_or]
  have habsent : ∀ data : Option (Data V), column ∉ (data.getD []).map Prod.fst →
      field data column = none := by
    intro data hnot
    have hnone : (data.getD []).lookup column = none := by
      rw [List.lookup_eq_none_iff]
      intro p hp
      rw [bne_iff_ne]
      rintro rfl
      exact hnot (List.mem_map_of_mem hp)
    rw [field, hnone]
    rfl
  unfold computeChanges
  dsimp only
  rw [hkeys]
  congr 1
  simp only [List.mem_filter, List.mem_dedup, List.mem_append, decide_eq_true_eq, eq_iff_iff]
  constructor
  · rintro ⟨⟨-, hkept⟩, hdiffer⟩
    exact ⟨hkept, hdiffer⟩
  · rintro ⟨hkept, hdiffer⟩
    refine ⟨⟨?_, hkept⟩, hdiffer⟩
    -- a column in neither row is null in both
    by_contra hnot
    rw [not_or] at hnot
    exact hdiffer (by rw [habsent old hnot.1, habsent new hnot.2])

/-! ## Replays -/

/-- The value of a column after the changes of the entries, the newest first; the row is empty
before them. -/
def replayed (history : List (AuditLogEntry V)) (column : String) : Value V :=
  history.foldr (fun entry value =>
    ((entry.changes.lookup column).map FieldChange.after).getD value) none

/-- The history is the log of the row backwards, the entries agree with each other, and all of them
lead to the row that is there. -/
structure Replays (users : Table User.uid) (k : RowId) (s : AuditWorld ι V) : Prop where
  backwards : getHistory users s.log k.tableName k.uid = (logOf k s.log).reverse.map (toEntry users)
  before : ∀ newer entry older,
    getHistory users s.log k.tableName k.uid = newer ++ entry :: older →
    ∀ column change, entry.changes.lookup column = some change → change.before =
      replayed older column
  current : ∀ column, column ∉ ignoredFields →
    replayed (getHistory users s.log k.tableName k.uid) column = field (s.rows k) column

/-- What an entry tells a column is after it. -/
def told (log : AuditLog V) (column : String) : Option (Value V) :=
  ((computeChanges log.oldData log.newData).lookup column).map FieldChange.after

/-- A change tells what becomes of each column that it changes. -/
theorem getD_told (log : AuditLog V) {column : String} (h : column ∉ ignoredFields) :
    (told log column).getD (field log.oldData column) = field log.newData column := by
  unfold told
  rw [lookup_computeChanges]
  by_cases hdiffer : field log.oldData column ≠ field log.newData column
  · rw [if_pos ⟨h, hdiffer⟩]
    rfl
  · rw [if_neg fun hboth => hdiffer hboth.2]
    exact not_not.1 hdiffer

/-- The entries of a log, newest first, replay as the log does. -/
theorem replayed_reverse (users : Table User.uid) (es : List (AuditLog V)) (column : String) :
    replayed (es.reverse.map (toEntry users)) column = replay told (fun _ => none) es column := by
  unfold replayed replay
  rw [List.foldr_map, List.foldr_reverse]
  have hfold : ∀ f : String → Value V, ∀ v, v = f column →
      es.foldl (fun v e =>
        ((toEntry users e).changes.lookup column |>.map FieldChange.after).getD v) v =
        es.foldl (fun f e k => (told e k).getD (f k)) f column := by
    induction es with
    | nil => exact fun f v hv => hv
    | cons e es ih =>
        intro f v hv
        rw [List.foldl_cons, List.foldl_cons]
        apply ih
        rw [hv]
        rfl
  exact hfold (fun _ => none) none rfl

/-- A chain of versions of the row replays to the last one. -/
theorem replay_of_chain {es : List (AuditLog V)} {v : Option (Data V)}
    (h : VersionChain AuditLog.oldData AuditLog.newData none es v) {column : String}
    (hcolumn : column ∉ ignoredFields) :
    replay told (fun _ => none) es column = field v column := by
  have htells : ∀ (e : AuditLog V) (column : String), column ∉ ignoredFields →
      (told e column).getD (field e.oldData column) = field e.newData column :=
    fun e _ hk => getD_told e hk
  exact h.replay_eq htells (fun _ _ => rfl) hcolumn

/-- A log that is listed backwards replays. -/
theorem Logged.replays {users : Table User.uid} {k : RowId} {s : AuditWorld ι V} (h : Logged k s)
    (hback : getHistory users s.log k.tableName k.uid =
      (logOf k s.log).reverse.map (toEntry users)) :
    Replays users k s := by
  refine ⟨hback, fun newer entry older hsplit column change hchange => ?_, fun column hcolumn => ?_⟩
  · rw [hback] at hsplit
    obtain ⟨fs, es, hlist, rfl, htail⟩ := List.map_eq_append_iff.1 hsplit
    obtain ⟨e, es, rfl, rfl, rfl⟩ := List.map_eq_cons_iff.1 htail
    have hlog : logOf k s.log = es.reverse ++ e :: fs.reverse := by
      rw [← List.reverse_inj, hlist]
      simp
    have hchain := h.chain
    rw [hlog] at hchain
    obtain ⟨v, hbefore, hafter⟩ := hchain.split
    have hlookup : (toEntry users e).changes.lookup column = if column ∉ ignoredFields ∧
        field e.oldData column ≠ field e.newData column then
          some ⟨field e.oldData column, field e.newData column⟩ else none :=
      lookup_computeChanges _ _ _
    rw [hlookup] at hchange
    split at hchange
    · rename_i hkept
      cases hchange
      have hreplay := replay_of_chain hbefore hkept.1
      rw [← hafter.old_eq] at hreplay
      rw [← hreplay, ← replayed_reverse users, List.reverse_reverse]
    · cases hchange
  · rw [hback, replayed_reverse]
    exact replay_of_chain h.chain hcolumn

/-- The changes of the row are dated in the order in which they were made. -/
def InOrder (k : RowId) (s : AuditWorld ι V) : Prop :=
  (logOf k s.log).Pairwise fun a b => a.changedAt ≤ b.changedAt

/-- A history that is not cut off replays exactly when the changes are dated in their order. -/
theorem Logged.replays_iff (users : Table User.uid) {k : RowId} {s : AuditWorld ι V}
    (h : Logged k s)
    (hfew : (logOf k s.log).length ≤ 100) : Replays users k s ↔ InOrder k s := by
  have hall : getHistory users s.log k.tableName k.uid =
      (latestFirst AuditLog.changedAt AuditLog.id (logOf k s.log)).map (toEntry users) := by
    unfold getHistory
    rw [List.take_of_length_le]
    rwa [latestFirst, List.length_insertionSort]
  have hshown : ∀ e : AuditLog V, (toEntry users e).changedAt = e.changedAt := fun _ => rfl
  have hiff := map_latestFirst_eq_reverse_iff hshown h.numbered
  rw [← hall] at hiff
  exact ⟨fun hreplays => hiff.1 hreplays.backwards, fun horder => h.replays (hiff.2 horder)⟩

variable [DecidableEq ι]

/-- No transaction commits changes of the row that started before one whose changes are
committed. -/
def InTurn (k : RowId) (s s' : AuditWorld ι V) : Prop :=
  ∀ i t, s.tx i = some t → s'.log = s.log ++ t.work.entries → logOf k t.work.entries ≠ [] →
    ∀ e ∈ logOf k s.log, e.changedAt ≤ t.startedAt

omit [DecidableEq V] in
theorem AuditStep.log_eq {s s' : AuditWorld ι V} (h : AuditStep s s') :
    s'.log = s.log ∨ ∃ i t, s.tx i = some t ∧ s'.log = s.log ++ t.work.entries := by
  cases h with
  | commit i hi => exact .inr ⟨i, _, hi, rfl⟩
  | _ => exact .inl rfl

omit [DecidableEq V] in
/-- A step in turn keeps the changes in the order of their dates. -/
theorem InOrder.step {k : RowId} {s s' : AuditWorld ι V} (horder : InOrder k s) (h : Logged k s)
    (hstep : AuditStep s s') (hturn : InTurn k s s') : InOrder k s' := by
  rcases hstep.log_eq with hsame | ⟨i, t, ht, hlog⟩
  · unfold InOrder
    rw [hsame]
    exact horder
  · unfold InOrder
    rw [hlog, logOf_append, List.pairwise_append]
    have hdated := (h.works i t ht _ List.mem_cons_self).dated
    refine ⟨horder, ?_, fun e he e' he' => ?_⟩
    · -- all changes of one transaction have one date
      refine List.pairwise_of_forall_mem_list fun a ha b hb => ?_
      rw [hdated a ha, hdated b hb]
    · rw [hdated e' he']
      exact hturn i t ht hlog (List.ne_nil_of_mem he') e he

/-- For every row and every run, under any interleaving of the transactions, the history of the row
is its log backwards, with entries that agree and replay to the row, if and only if the changes are
dated in the order in which they were made; and so it is after every run in which no transaction
commits a change of the row that started before one whose change of it is committed. -/
theorem history_replays (users : Table User.uid) {k : RowId} {s s' : AuditWorld ι V}
    (hs : Untouched k s) (hrun : AuditRun s s') (hfew : (logOf k s'.log).length ≤ 100) :
    (Replays users k s' ↔ InOrder k s') ∧
      (Relation.ReflTransGen (fun a b => AuditStep a b ∧ InTurn k a b) s s' →
        Replays users k s') := by
  have hiff := (Logged.of_run hs hrun).replays_iff users hfew
  refine ⟨hiff, fun hturns => hiff.2 ?_⟩
  have hkept : Logged k s' ∧ InOrder k s' := by
    clear hrun hfew hiff
    induction hturns with
    | refl =>
        refine ⟨hs.logged, ?_⟩
        unfold InOrder
        rw [hs.log]
        exact .nil
    | tail _ hstep ih => exact ⟨ih.1.step hstep.1, ih.2.step ih.1 hstep.1 hstep.2⟩
  exact hkept.2

/-- In every run, under any interleaving, with savepoints and rollbacks, the log of a row in the
order of its ids is complete: it leads from no row, version by version, to the row that is there,
each change from the version that the one before has left, and what an entry of it shows replays to
the row. -/
theorem log_replays_by_id {k : RowId} {s s' : AuditWorld ι V} (hs : Untouched k s)
    (hrun : AuditRun s s') :
    (logOf k s'.log).Pairwise (fun a b => a.id < b.id) ∧
      VersionChain AuditLog.oldData AuditLog.newData none (logOf k s'.log) (s'.rows k) ∧
      (∀ newer e older, logOf k s'.log = older ++ e :: newer → ∀ column, column ∉ ignoredFields →
        field e.oldData column = replay told (fun _ => none) older column) ∧
      ∀ column, column ∉ ignoredFields →
        replay told (fun _ => none) (logOf k s'.log) column = field (s'.rows k) column := by
  have hlogged := Logged.of_run hs hrun
  refine ⟨hlogged.numbered, hlogged.chain, fun newer e older hsplit column hcolumn => ?_,
    fun column hcolumn => replay_of_chain hlogged.chain hcolumn⟩
  have hchain := hlogged.chain
  rw [hsplit] at hchain
  obtain ⟨v, hbefore, hafter⟩ := hchain.split
  rw [hafter.old_eq]
  exact (replay_of_chain hbefore hcolumn).symm

end

namespace Sample

/-- Two transactions may come, and no row is there. -/
def blank : AuditWorld Bool ℕ where
  now := 0
  nextId := 1
  rows _ := none
  log := []
  tx _ := none

/-- A spot with a title. -/
def titled (title : ℕ) : Option (Data ℕ) := some [("uid", some 7), ("title", some title)]

def spotRow : RowId := ⟨"spots", "cabin"⟩

theorem untouched_blank : Untouched spotRow blank := by
  refine ⟨rfl, rfl, fun i t ht => ?_⟩
  cases ht

/-- One transaction inserts the spot, and the next one changes its title. -/
theorem run_in_turn : ∃ s : AuditWorld Bool ℕ,
    Relation.ReflTransGen (fun a b => AuditStep a b ∧ InTurn spotRow a b) blank s ∧
    (logOf spotRow s.log).length = 2 := by
  have hquiet : ∀ {s s' : AuditWorld Bool ℕ}, s'.log = s.log → InTurn spotRow s s' := by
    intro s s' hsame i t ht hlog hne
    rw [hsame, List.self_eq_append_right] at hlog
    rw [hlog] at hne
    exact absurd rfl hne
  refine ⟨_, (((((Relation.ReflTransGen.refl
    |>.tail ⟨AuditStep.start true rfl, hquiet rfl⟩)
    |>.tail ⟨AuditStep.change true spotRow (titled 1) 1 rfl ?insertFree le_rfl (.inr (by decide)),
      hquiet rfl⟩)
    |>.tail ⟨AuditStep.commit true rfl, ?insertTurn⟩)
    |>.tail ⟨AuditStep.start false rfl, hquiet rfl⟩)
    |>.tail ⟨AuditStep.change false spotRow (titled 2) 2 rfl ?updateFree le_rfl (.inr (by decide)),
      hquiet rfl⟩)
    |>.tail ⟨AuditStep.commit false rfl, ?updateTurn⟩, ?length⟩
  case insertFree =>
      intro j t hj ht
      cases j with
      | false => cases ht
      | true => exact absurd rfl hj
  case insertTurn =>
      intro i t ht hlog hne e he
      cases he
  case updateFree =>
      intro j t hj ht
      cases j with
      | false => exact absurd rfl hj
      | true => cases ht
  case updateTurn =>
      intro i t ht hlog hne e he
      cases i with
      | false =>
          -- every transaction of this run starts at 0
          have hdate : some (0 : Timestamp) = some t.startedAt :=
            congrArg (Option.map AuditTx.startedAt) ht
          rw [List.mem_singleton.1 he]
          exact le_of_eq (Option.some.inj hdate)
      | true => cases ht
  case length => decide

end Sample

/-- The history of a spot that is inserted and changed replays. -/
theorem history_replays_titled : ∃ s : AuditWorld Bool ℕ,
    (logOf Sample.spotRow s.log).length = 2 ∧ Replays Table.empty Sample.spotRow s := by
  obtain ⟨s, hturns, hlength⟩ := Sample.run_in_turn
  have hrun : AuditRun Sample.blank s := Relation.ReflTransGen.mono (fun _ _ h => h.1) _ _ hturns
  exact ⟨s, hlength, (history_replays _ Sample.untouched_blank hrun (by omega)).2 hturns⟩

/-- The log of a spot that is inserted and changed is complete. -/
theorem log_replays_by_id_titled : ∃ s : AuditWorld Bool ℕ,
    (logOf Sample.spotRow s.log).length = 2 ∧
    VersionChain AuditLog.oldData AuditLog.newData none (logOf Sample.spotRow s.log)
      (s.rows Sample.spotRow) := by
  obtain ⟨s, hturns, hlength⟩ := Sample.run_in_turn
  have hrun : AuditRun Sample.blank s := Relation.ReflTransGen.mono (fun _ _ h => h.1) _ _ hturns
  exact ⟨s, hlength, (log_replays_by_id Sample.untouched_blank hrun).2.1⟩

/-- A transaction that started first changes the spot last: the history shows its change as the
older one. -/
theorem history_out_of_order : ∃ s : AuditWorld Bool ℕ,
    AuditRun Sample.blank s ∧ Untouched Sample.spotRow Sample.blank ∧
    (logOf Sample.spotRow s.log).length = 2 ∧ ¬ Replays Table.empty Sample.spotRow s := by
  have hrun : ∃ s : AuditWorld Bool ℕ, AuditRun Sample.blank s ∧
      (logOf Sample.spotRow s.log).map AuditLog.changedAt = [1, 0] := by
    refine ⟨_, ((((((Relation.ReflTransGen.refl
      |>.tail (AuditStep.start true rfl))
      |>.tail (AuditStep.wait 1 (by decide)))
      |>.tail (AuditStep.start false rfl))
      |>.tail (AuditStep.change false Sample.spotRow (Sample.titled 1) 1 rfl ?insertFree le_rfl
        (.inr (by decide))))
      |>.tail (AuditStep.commit false rfl))
      |>.tail (AuditStep.change true Sample.spotRow (Sample.titled 2) 2 rfl ?updateFree le_rfl
        (.inr (by decide))))
      |>.tail (AuditStep.commit true rfl), ?dates⟩
    case insertFree =>
        intro j t hj ht
        cases j with
        | false => exact absurd rfl hj
        | true =>
            cases ht
            rfl
    case updateFree =>
        intro j t hj ht
        cases j with
        | false => cases ht
        | true => exact absurd rfl hj
    case dates => decide
  obtain ⟨s, hrun, hdates⟩ := hrun
  have hlength : (logOf Sample.spotRow s.log).length = 2 := by
    rw [← List.length_map AuditLog.changedAt, hdates]
    rfl
  refine ⟨s, hrun, Sample.untouched_blank, hlength, fun hreplays => ?_⟩
  have horder := ((Logged.of_run Sample.untouched_blank hrun).replays_iff _ (by omega)).1 hreplays
  have hpairwise := List.pairwise_map.2 horder
  rw [hdates] at hpairwise
  exact absurd hpairwise (by decide)

end Vivac.Audit
