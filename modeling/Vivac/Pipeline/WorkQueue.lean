import Vivac.Crud.AdminLists
import Vivac.Pipeline.Assignments
import Vivac.Pipeline.DecayPacing

/-!
# The work queue

A call that takes spots from the queue while nobody else works: it takes the first `count` rows it
wants (`QueueCall.Serves.leaves`). It does not look at the deletion of a row, which the work list of
a user does, so the list grows by what the call answers exactly when no row taken is deleted
(`taken_visible_iff`). And it wants ENRICHED rows only, so a PUBLISHED row that decay sends back to
the queue is never taken (`requeued_taken_iff`).
-/

set_option autoImplicit false

namespace Vivac

open Lib App

namespace QueueCall

/-- The rows the call takes when nobody else works. -/
def picks (call : QueueCall) (d : Db) : List Spot := (d.spots.select call.wanted).take call.count

/-- The call runs to its end, with the outcome `r`. -/
def Serves (be : Backend) (now : Timestamp) (call : QueueCall) (r : Except Exc ℕ)
    (s s' : State Unit) : Prop :=
  runAlone (fun i => exec i) () (withSession (call.program be now)) s = some (r, s')

/-- A call that answers has assigned the rows it takes, and one that raises has changed nothing. -/
def Leaves (call : QueueCall) (now : Timestamp) (d : Db) : Except Exc ℕ → Db → Prop
  | .ok n, d' => n = (call.picks d).length ∧ d'.spots.rows = d.spots.rows.map fun s =>
      if s.uid ∈ (call.picks d).map Spot.uid then call.assigned now s else s
  | .error _, d' => d' = d

end QueueCall

/-! ## A call by itself -/

section Lone

variable {ι : Type} [DecidableEq ι] {i : ι} {be : Backend} {now : Timestamp}

/-- Rows nobody holds are locked in order. -/
theorem lone_lockSpots {p : Spot → Bool} {db d : Db} {uids : List String}
    (hp : ∀ u ∈ uids, (d.spots.find? u).any p = true) (count : ℕ) :
    Lone i (Sees i db [] d) (lockSpots p count uids)
      fun r s => r = .ok (uids.take count) ∧ Sees i db [] d s := by
  induction uids generalizing count with
  | nil =>
      have hnone : lockSpots p count [] = .ret [] := by cases count <;> rfl
      rw [hnone, List.take_nil]
      exact Lone.ret _ fun s hs => ⟨rfl, hs⟩
  | cons u uids ih =>
      cases count with
      | zero => exact Lone.ret _ fun s hs => ⟨rfl, hs⟩
      | succ count =>
          have hlock : (lockSpot p u).apply d = .ok (true, d) := by
            simp [Stmt.apply, lockSpot, hp u (List.mem_cons_self ..), Except.map]
          apply Lone.statement_bind
          · intro locked d' h
            rw [hlock] at h
            cases h
            refine Lone.bind_ok (ih (fun v hv => hp v (List.mem_cons_of_mem _ hv)) count) ?_
            exact Lone.ret _ fun s hs => ⟨rfl, hs⟩
          · intro e h
            rw [hlock] at h
            cases h

theorem lone_pickSpots {p : Spot → Bool} {db d : Db} (count : ℕ) :
    Lone i (Sees i db [] d) (pickSpots p count) fun r s =>
      r = .ok (((d.spots.select p).take count).map Spot.uid) ∧ Sees i db [] d s := by
  apply Lone.bind_ok (Lone.read fun d : Db => (d.spots.select p).map Spot.uid)
  rw [List.map_take]
  apply lone_lockSpots
  intro u hu
  obtain ⟨s, hs, rfl⟩ := List.mem_map.1 hu
  obtain ⟨hrow, hp⟩ := Table.mem_select.1 hs
  rw [Table.find?_eq_some.2 ⟨hrow, rfl⟩]
  exact hp

theorem lone_queueCall (call : QueueCall) (db : Db) :
    Lone i (Sees i db [] db) (call.program be now) fun r s => call.Leaves now db r s.db := by
  rw [QueueCall.program_eq]
  apply Lone.bind_ok (lone_pickSpots call.count)
  change Lone i _ (if ((call.picks db).map Spot.uid).isEmpty then _ else _) _
  split
  · rename_i hempty
    have hnone : (call.picks db).map Spot.uid = [] := List.isEmpty_iff.1 hempty
    refine Lone.ret _ fun s hs => ⟨?_, ?_⟩
    · rw [← List.length_map Spot.uid, hnone]
      rfl
    · rw [hs.holds.db_eq, hnone]
      simp
  · apply Lone.statement_bind
    · intro uids d' h
      apply Lone.bind_ok Lone.commit
      refine Lone.ret _ fun s hs => ⟨List.length_map .., ?_⟩
      obtain ⟨eff, heff, -, rfl⟩ := Stmt.ok_of_apply h
      rw [hs.holds.db_eq, rows_updateSpots heff]
      simp only [decide_eq_true_eq]
      rfl
    · exact fun e _ s hs => hs.db_eq

end Lone

section Call

variable {be : Backend} {now : Timestamp} {call : QueueCall} {r : Except Exc ℕ} {s s' : State Unit}

/-- What a call leaves. -/
theorem QueueCall.Serves.leaves (h : call.Serves be now r s s') (hs : Between s) :
    call.Leaves now s.db r s'.db := by
  have hbody : Lone () (Sees () s.db [] s.db) (call.program be now)
      fun r s' => call.Leaves now s.db r s'.db := lone_queueCall call s.db
  obtain ⟨r', s'', hrun, -, hleaves⟩ := lone_withSession hbody s hs.sees
  have hsame : some (r', s'') = some (r, s') := hrun.symm.trans h
  cases hsame
  exact hleaves

/-- The rows taken are among those the call wants. -/
theorem QueueCall.mem_picks {d : Db} {row : Spot} (h : row ∈ call.picks d) :
    row ∈ d.spots.rows ∧ call.wanted row = true := Table.mem_select.1 (List.mem_of_mem_take h)

/-- A row is taken under its uid. -/
theorem QueueCall.mem_picks_uids {d : Db} {row : Spot} (hrow : row ∈ d.spots.rows) :
    row.uid ∈ (call.picks d).map Spot.uid ↔ row ∈ call.picks d := by
  constructor
  · intro h
    obtain ⟨row', hrow', huid⟩ := List.mem_map.1 h
    rwa [d.spots.eq_of_key_eq hrow (QueueCall.mem_picks hrow').1 huid.symm]
  · exact List.mem_map_of_mem

end Call

/-! ## Assigned work is visible -/

/-- The filters of the work list of a user. -/
def workFilters (userUid : String) : List (String × Option String) :=
  [("pipeline_status", some PipelineStatus.enriched.value), ("assigned_to_uid", some userUid)]

/-- The work list of the user, in some order and cut somehow, has this many rows in all. -/
def WorkListTotal (texts : TextRules) (userUid : String) (d : Db) (total : ℕ) : Prop :=
  ∃ (sort order : String) (found : (adminOrder texts sort order).Arrangement) (offset limit : ℕ)
    (items : List Spot), Evaluates
      (listSpotsAdmin texts sort order found offset limit none (workFilters userUid)) d
      (.ok ((items, total), d))

/-- The row is in the work list of the user. -/
def isVisibleWork (userUid : String) (s : Spot) : Bool :=
  s.deletedAt.isNone && s.pipelineStatus == .enriched && s.assignedToUid == some userUid

/-- A staff user, under a uid of the format that the table checks. -/
def IsStaffUser (d : Db) (userUid : String) : Prop :=
  ∃ user, d.users.find? userUid = some user ∧ user.isStaff = true ∧ hasUidFormat userUid = true

/-- A transfer is from another user. -/
def QueueCall.FromAnother : QueueCall → Prop
  | .assign _ _ => True
  | .transfer fromUserUid toUserUid _ => fromUserUid ≠ toUserUid

theorem value_eq_enriched (status : PipelineStatus) :
    (some status.value == some PipelineStatus.enriched.value) = (status == .enriched) := by
  cases status <;> decide

theorem adminCondition_workFilters (texts : TextRules) {userUid : String} (h : userUid ≠ "")
    (s : Spot) :
    adminCondition texts none (workFilters userUid) false s = isVisibleWork userUid s := by
  have hstatus : filterable.lookup "pipeline_status" = some fun s =>
      some s.pipelineStatus.value := rfl
  have hassigned : filterable.lookup "assigned_to_uid" = some Spot.assignedToUid := rfl
  have hgiven : (PipelineStatus.enriched.value == "") = false := by decide
  have huser : (userUid == "") = false := by simpa using h
  simp only [adminCondition, workFilters, passesFilter, whenGiven, hstatus, hassigned,
    hgiven, huser,
    value_eq_enriched, List.all_cons, List.all_nil, Bool.false_or, Bool.and_true, isVisibleWork]
  rw [Bool.and_assoc]

/-- The total is the number of rows in the work list. -/
theorem workListTotal_iff (texts : TextRules) {userUid : String} (h : userUid ≠ "") {d : Db}
    {total : ℕ} :
    WorkListTotal texts userUid d total ↔ total = d.spots.rows.countP (isVisibleWork userUid) := by
  have hrows : (d.spots.select (adminCondition texts none (workFilters userUid) false)).length =
      d.spots.rows.countP (isVisibleWork userUid) := by
    rw [funext (adminCondition_workFilters texts h), List.countP_eq_length_filter]
    rfl
  constructor
  · rintro ⟨sort, order, found, offset, limit, items, hlist⟩
    have hsame := hlist.unique
      (evaluates_listSpotsAdmin texts found offset limit none (workFilters userUid) false d)
    simp only [Except.ok.injEq, Prod.mk.injEq] at hsame
    rw [hsame.1.2, hrows]
  · rintro rfl
    have hlist := evaluates_listSpotsAdmin texts (adminOrder texts "uid" "asc").stable 0 0 none
      (workFilters userUid) false d
    rw [hrows] at hlist
    exact ⟨"uid", "asc", _, 0, 0, _, hlist⟩

section Visible

variable {be : Backend} {now : Timestamp} {call : QueueCall}

/-- A row the call wants is not in the list of the user it goes to. -/
theorem not_visible_of_wanted (hother : call.FromAnother) {s : Spot} (hs : call.wanted s = true) :
    isVisibleWork call.target s = false := by
  cases call with
  | assign userUid count =>
      simp only [QueueCall.wanted, Bool.and_eq_true, Option.isNone_iff_eq_none] at hs
      simp [isVisibleWork, hs.2]
  | transfer fromUserUid toUserUid count =>
      simp only [QueueCall.wanted, Bool.and_eq_true, beq_iff_eq] at hs
      have hne : fromUserUid ≠ toUserUid := hother
      simp [isVisibleWork, hs.2, QueueCall.target, hne]

/-- Once taken, it is there unless it is deleted. -/
theorem visible_assigned {s : Spot} (hs : call.wanted s = true) :
    isVisibleWork call.target (call.assigned now s) = s.deletedAt.isNone := by
  have hstatus : s.pipelineStatus = .enriched := by
    cases call <;> simp only [QueueCall.wanted, Bool.and_eq_true, beq_iff_eq] at hs <;> exact hs.1
  simp [isVisibleWork, QueueCall.assigned, hstatus]

/-- The list after the call: the rows it had, and those taken that are not deleted. -/
theorem countP_visible (hother : call.FromAnother) {d d' : Db} {n : ℕ}
    (h : call.Leaves now d (.ok n) d') :
    d'.spots.rows.countP (isVisibleWork call.target) =
      d.spots.rows.countP (isVisibleWork call.target) +
        (call.picks d).countP fun s => s.deletedAt.isNone := by
  obtain ⟨-, hrows⟩ := h
  -- the rows taken that are not deleted, counted in the table
  have hpicks : (call.picks d).countP (fun s => s.deletedAt.isNone) = d.spots.rows.countP fun s =>
      decide (s.uid ∈ (call.picks d).map Spot.uid) && s.deletedAt.isNone := by
    have hperm : (d.spots.rows.filter fun s => s.uid ∈ (call.picks d).map Spot.uid).Perm
        (call.picks d) := by
      apply (List.perm_ext_iff_of_nodup (d.spots.nodup_rows.filter _) ?_).2
      · intro s
        rw [List.mem_filter, decide_eq_true_eq]
        constructor
        · rintro ⟨hs, huid⟩
          exact (QueueCall.mem_picks_uids hs).1 huid
        · intro hs
          have hrow := (QueueCall.mem_picks hs).1
          exact ⟨hrow, (QueueCall.mem_picks_uids hrow).2 hs⟩
      · exact (d.spots.nodup_rows.filter _).sublist (List.take_sublist _ _)
    rw [← hperm.countP_eq, List.countP_filter]
    simp only [Bool.and_comm]
  rw [hrows, List.countP_map, hpicks]
  apply countP_eq_add
  intro s hs
  simp only [Function.comp_apply]
  by_cases htaken : s.uid ∈ (call.picks d).map Spot.uid
  · have hwanted := (QueueCall.mem_picks ((QueueCall.mem_picks_uids hs).1 htaken)).2
    simp only [htaken, if_true, visible_assigned hwanted, not_visible_of_wanted hother hwanted,
      decide_true, Bool.true_and, Bool.toNat_false, Nat.zero_add]
  · simp only [htaken, if_false, decide_false, Bool.false_and, Bool.toNat_false, Nat.add_zero]

end Visible

/-- The work list of the user grows by what the call answers if and only if none of the rows taken,
which are the first `count` that the call wants, is deleted. -/
theorem taken_visible_iff (texts : TextRules) (be : Backend) {now : Timestamp} {call : QueueCall}
    {n before after : ℕ} {s s' : State Unit} (hs : Between s)
    (hstaff : IsStaffUser s.db call.target)
    (hother : call.FromAnother) (h : call.Serves be now (.ok n) s s')
    (hbefore : WorkListTotal texts call.target s.db before)
    (hafter : WorkListTotal texts call.target s'.db after) :
    after = before + n ↔ ∀ spot ∈ call.picks s.db, spot.deletedAt = none := by
  have hleaves := h.leaves hs
  have huser : call.target ≠ "" := by
    obtain ⟨user, -, -, hformat⟩ := hstaff
    intro hempty
    rw [hempty] at hformat
    exact absurd hformat (by decide)
  rw [(workListTotal_iff texts huser).1 hbefore, (workListTotal_iff texts huser).1 hafter,
    countP_visible hother hleaves, hleaves.1]
  have hcount : (call.picks s.db).countP (fun s => s.deletedAt.isNone) = (call.picks s.db).length ↔
      ∀ spot ∈ call.picks s.db, spot.deletedAt = none := by
    rw [List.countP_eq_length]
    simp only [Option.isNone_iff_eq_none]
  rw [← hcount]
  omega

namespace Sample

def verifierUid : String := "verifierverifierverifi"

def queuedSpot : Spot := { uid := "s", title := "Camp", pipelineStatus := .enriched }

/-- A staff user, and an ENRICHED spot nobody has. -/
def waiting (deletedAt : Option Timestamp) : Db :=
  { Db.empty with
    spots := ⟨[{ queuedSpot with deletedAt := deletedAt }], List.nodup_singleton _⟩
    users := ⟨[{ user verifierUid with isStaff := true }], List.nodup_singleton _⟩ }

def assignOne : QueueCall := .assign verifierUid 1

theorem isStaffUser_waiting (deletedAt : Option Timestamp) :
    IsStaffUser (waiting deletedAt) assignOne.target := ⟨_, rfl, rfl, by decide +kernel⟩

/-- The state after the call, if it answers 1. -/
def assignedOne (db : Db) : Option (State Unit) :=
  match runAlone (fun i => exec i) () (withSession (assignOne.program backend 5))
    (World.fresh db) with
  | some (.ok 1, s) => some s
  | _ => none

theorem serves_of_assignedOne {db : Db} {s : State Unit} (h : assignedOne db = some s) :
    assignOne.Serves backend 5 (.ok 1) (World.fresh db) s := by
  unfold assignedOne at h
  split at h
  · rename_i hrun
    cases h
    exact hrun
  · cases h

end Sample

/-- A spot that is not deleted is in the list of the user it is assigned to. -/
theorem taken_visible_waiting : ∃ s' : State Unit,
    Sample.assignOne.Serves Sample.backend 5 (.ok 1) (World.fresh (Sample.waiting none)) s' ∧
    WorkListTotal Sample.texts Sample.verifierUid (Sample.waiting none) 0 ∧
    WorkListTotal Sample.texts Sample.verifierUid s'.db 1 := by
  have hrun : (Sample.assignedOne (Sample.waiting none)).isSome = true := by decide +kernel
  obtain ⟨s', hs'⟩ := Option.isSome_iff_exists.1 hrun
  have hserves := Sample.serves_of_assignedOne hs'
  have huser : Sample.verifierUid ≠ "" := by decide
  have hbefore : WorkListTotal Sample.texts Sample.verifierUid (Sample.waiting none) 0 := by
    rw [workListTotal_iff Sample.texts huser]
    decide +kernel
  obtain ⟨after, hafter⟩ : ∃ total, WorkListTotal Sample.texts Sample.verifierUid s'.db total :=
    ⟨_, (workListTotal_iff Sample.texts huser).2 rfl⟩
  have hlive : ∀ spot ∈ Sample.assignOne.picks (Sample.waiting none), spot.deletedAt = none := by
    decide +kernel
  have hone : after = 0 + 1 := (taken_visible_iff Sample.texts Sample.backend
    (between_fresh _) (Sample.isStaffUser_waiting none) trivial hserves hbefore hafter).2 hlive
  rw [hone] at hafter
  exact ⟨s', hserves, hbefore, hafter⟩

/-- A deleted spot is assigned, and the list of the user stays empty. -/
theorem taken_not_visible : ∃ s' : State Unit,
    IsStaffUser (Sample.waiting (some 0)) Sample.verifierUid ∧
    Sample.assignOne.Serves Sample.backend 5 (.ok 1) (World.fresh (Sample.waiting (some 0))) s' ∧
    WorkListTotal Sample.texts Sample.verifierUid (Sample.waiting (some 0)) 0 ∧
    WorkListTotal Sample.texts Sample.verifierUid s'.db 0 := by
  have hrun : (Sample.assignedOne (Sample.waiting (some 0))).any (fun s' =>
      s'.db.spots.rows.countP (isVisibleWork Sample.verifierUid) = 0) = true := by decide +kernel
  obtain ⟨s', hs', hcount⟩ := (Option.any_eq_true _ _).1 hrun
  have huser : Sample.verifierUid ≠ "" := by decide
  refine ⟨s', Sample.isStaffUser_waiting _, Sample.serves_of_assignedOne hs', ?_, ?_⟩
  · rw [workListTotal_iff Sample.texts huser]
    decide +kernel
  · rw [workListTotal_iff Sample.texts huser]
    exact (of_decide_eq_true hcount).symm

/-! ## Requeued spots -/

namespace DecayRun

/-- A spot as the second statement of the run finds it. -/
def lowered (x : DecayRun) (s : Spot) : Spot :=
  if isDowngradable x.cutoff s then s.downgraded x.now else s

/-- The second statement clears the assignment of the spot. -/
def sendsBack (x : DecayRun) (s : Spot) : Bool := isRequeueable x.cutoff (x.lowered s)

/-- What a run leaves that returns the number `n` of spots sent back. -/
def LeavesRequeued (x : DecayRun) (d : Db) : Except Exc (ℕ × ℕ) → Db → Prop
  | .ok (_, n), d' => n = (d.spots.rows.filter x.sendsBack).length ∧ d'.spots.rows =
      d.spots.rows.map fun s => if x.sendsBack s then (x.lowered s).requeued x.now else x.lowered s
  | .error _, _ => True

end DecayRun

section Requeued

variable {ι : Type} [DecidableEq ι] {i : ι} {cfg : Settings} {be : Backend}

theorem lone_requeued (x : DecayRun) (db : Db) :
    Lone i (Sees i db [] db) (decayStaleTrustTiers cfg be x.now x.thresholdDays)
      fun r s => x.LeavesRequeued db r s.db := by
  apply Lone.statement_bind
  · intro downgraded d₁ hfirst
    apply Lone.statement_bind
    · intro requeued d₂ hsecond
      refine (lone_endDecay downgraded requeued db d₂).conseq (fun _ h => h) ?_
      rintro r s ⟨rfl, hdb⟩
      obtain ⟨eff₁, heff₁, -, rfl⟩ := Stmt.ok_of_apply hfirst
      obtain ⟨eff₂, heff₂, rfl, rfl⟩ := Stmt.ok_of_apply hsecond
      have hrows₁ : (eff₁.write db).spots.rows = db.spots.rows.map x.lowered :=
        rows_updateSpots heff₁
      constructor
      · rw [congrArg Effect.result (updateSpots_eq_ok heff₂), List.length_map, Table.select, hrows₁,
          List.filter_map, List.length_map]
        rfl
      · rw [hdb, rows_updateSpots heff₂, hrows₁, List.map_map]
        rfl
    · exact fun _ _ _ _ => trivial
  · exact fun _ _ _ _ => trivial

end Requeued

theorem DecayRun.Serves.leavesRequeued {cfg : Settings} {be : Backend} {x : DecayRun}
    {r : Except Exc (ℕ × ℕ)} {s s' : State Unit} (h : x.Serves cfg be r s s') (hs : Between s) :
    x.LeavesRequeued s.db r s'.db ∧ Between s' := by
  have hbody : Lone () (Sees () s.db [] s.db) (decayStaleTrustTiers cfg be x.now x.thresholdDays)
      fun r s' => x.LeavesRequeued s.db r s'.db := lone_requeued x s.db
  obtain ⟨r', s'', hrun, -, hleaves⟩ := lone_withSession hbody s hs.sees
  have hsame : some (r', s'') = some (r, s') := hrun.symm.trans h
  cases hsame
  exact ⟨hleaves, between_of_withSession h⟩

/-- The rows `assign_spots` picks. -/
def isPickable (s : Spot) : Bool := s.pipelineStatus == .enriched && s.assignedToUid.isNone

/-- A call that may take every row that can be picked assigns the spot. -/
def ReachesQueue (be : Backend) (uid : String) (s : State Unit) : Prop :=
  ∀ now userUid count, s.db.spots.rows.countP isPickable ≤ count →
    ∃ n s', (QueueCall.assign userUid count).Serves be now (.ok n) s s' ∧
      ∃ row, s'.db.spots.find? uid = some row ∧ row.assignedToUid = some userUid

/-- A PUBLISHED row stays as it is in every call. -/
theorem QueueCall.Leaves.published {call : QueueCall} {now : Timestamp} {d d' : Db} {n : ℕ}
    (h : call.Leaves now d (.ok n) d') {row : Spot} (hrow : row ∈ d.spots.rows)
    (hstatus : row.pipelineStatus = .published) : d'.spots.find? row.uid = some row := by
  obtain ⟨-, hrows⟩ := h
  have hnot : row.uid ∉ (call.picks d).map Spot.uid := by
    rw [QueueCall.mem_picks_uids hrow]
    intro hpicked
    have hwanted := (QueueCall.mem_picks hpicked).2
    cases call <;> simp [QueueCall.wanted, hstatus] at hwanted
  apply Table.find?_eq_some.2
  rw [hrows]
  exact ⟨List.mem_map.2 ⟨row, hrow, if_neg hnot⟩, rfl⟩

/-- Every spot a run of decay counts as sent back is one that `assign_spots` assigns, if and only if
the run sends no spot back: it sends back PUBLISHED spots, and leaves them PUBLISHED. -/
theorem requeued_taken_iff (cfg : Settings) (be : Backend) {x : DecayRun} {m n : ℕ}
    {s s' : State Unit} (hs : Between s) (h : x.Serves cfg be (.ok (m, n)) s s') :
    n = (s.db.spots.rows.filter x.sendsBack).length ∧
      ((∀ spot ∈ s.db.spots.rows.filter x.sendsBack, ReachesQueue be spot.uid s') ↔
        ∀ spot ∈ s.db.spots.rows, x.sendsBack spot = false) := by
  obtain ⟨⟨hcount, hrows⟩, hs'⟩ := h.leavesRequeued hs
  refine ⟨hcount, ?_, ?_⟩
  · intro hreach spot hspot
    by_contra hback
    rw [Bool.not_eq_false] at hback
    obtain ⟨k, s'', hserves, row, hrow, hassigned⟩ :=
      hreach spot (List.mem_filter.2 ⟨hspot, hback⟩) 0 "" _ (le_refl _)
    -- the row it has become is PUBLISHED, and assigned to nobody
    have hafter : (x.lowered spot).requeued x.now ∈ s'.db.spots.rows := by
      rw [hrows]
      exact List.mem_map.2 ⟨spot, hspot, if_pos hback⟩
    have hstatus : (x.lowered spot).pipelineStatus = .published := by
      simp only [DecayRun.sendsBack, isRequeueable, isStale, Spot.live, Bool.and_eq_true,
        beq_iff_eq] at hback
      exact hback.1.1.1.1
    have huid : ((x.lowered spot).requeued x.now).uid = spot.uid := by
      unfold DecayRun.lowered
      split <;> rfl
    have hkept := (hserves.leaves hs').published hafter hstatus
    rw [huid, hrow, Option.some.injEq] at hkept
    rw [hkept] at hassigned
    cases hassigned
  · intro hnone spot hspot
    obtain ⟨hrow, hback⟩ := List.mem_filter.1 hspot
    rw [hnone spot hrow] at hback
    cases hback

namespace Sample

/-- A published spot of the lowest tier that nobody has verified. -/
def lowest : Db :=
  { Db.empty with
    spots := ⟨[{ spot "s" with trustTier := some 3 }], List.nodup_singleton _⟩ }

/-- The state after a run of decay that answers `answer`. -/
def decayedTo (answer : ℕ × ℕ) (db : Db) : Option (State Unit) :=
  match runAlone (fun i => exec i) () (withSession (decayStaleTrustTiers settings backend
      firstDecay.now firstDecay.thresholdDays)) (World.fresh db) with
  | some (.ok found, s) => if found = answer then some s else none
  | _ => none

theorem serves_of_decayedTo {answer : ℕ × ℕ} {db : Db} {s : State Unit}
    (h : decayedTo answer db = some s) :
    firstDecay.Serves settings backend (.ok answer) (World.fresh db) s := by
  unfold decayedTo at h
  split at h
  · rename_i found t hrun
    split at h
    · rename_i heq
      cases h
      rw [← heq]
      exact hrun
    · cases h
  · cases h

end Sample

/-- A run that lowers a spot sends none back. -/
theorem requeued_taken_unverified : ∃ s' : State Unit,
    Sample.firstDecay.Serves Sample.settings Sample.backend (.ok (1, 0))
      (World.fresh Sample.unverified) s' ∧
    ∀ spot ∈ Sample.unverified.spots.rows.filter Sample.firstDecay.sendsBack,
      ReachesQueue Sample.backend spot.uid s' := by
  have hrun : (Sample.decayedTo (1, 0) Sample.unverified).isSome = true := by decide +kernel
  obtain ⟨s', hs'⟩ := Option.isSome_iff_exists.1 hrun
  have hserves := Sample.serves_of_decayedTo hs'
  have hnone : ∀ spot ∈ Sample.unverified.spots.rows, Sample.firstDecay.sendsBack spot = false := by
    decide +kernel
  exact ⟨s', hserves,
    (requeued_taken_iff Sample.settings Sample.backend (between_fresh _) hserves).2.2 hnone⟩

/-- A spot counted as sent back, and a call for every row that can be picked: it finds none. -/
theorem requeued_not_taken : ∃ s₁ s₂ : State Unit,
    Sample.firstDecay.Serves Sample.settings Sample.backend (.ok (0, 1))
      (World.fresh Sample.lowest) s₁ ∧
    s₁.db.spots.rows.countP isPickable ≤ 1 ∧
    (QueueCall.assign "u" 1).Serves Sample.backend 0 (.ok 0) s₁ s₂ ∧
    (s₂.db.spots.find? "s").any (fun row => row.assignedToUid.isNone) = true := by
  have hrun : (Sample.decayedTo (0, 1) Sample.lowest).any (fun s₁ =>
      s₁.db.spots.rows.countP isPickable ≤ 1 ∧
      (runAlone (fun i => exec i) ()
        (withSession ((QueueCall.assign "u" 1).program Sample.backend 0))
        s₁).any fun out => out.1.toOption = some 0 ∧
          (out.2.db.spots.find? "s").any (fun row => row.assignedToUid.isNone) = true) = true := by
    decide +kernel
  obtain ⟨s₁, hs₁, hrest⟩ := (Option.any_eq_true _ _).1 hrun
  obtain ⟨hpickable, hcall⟩ := of_decide_eq_true hrest
  obtain ⟨⟨r, s₂⟩, hserves, hout⟩ := (Option.any_eq_true _ _).1 hcall
  obtain ⟨hanswer, hrow⟩ := of_decide_eq_true hout
  cases r with
  | error e => cases hanswer
  | ok k =>
      cases hanswer
      exact ⟨s₁, s₂, Sample.serves_of_decayedTo hs₁, hpickable, hserves, hrow⟩

end Vivac
