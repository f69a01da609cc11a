import Vivac.Core.SampleBackend
import Vivac.Jobs.AllOrNothing
import Vivac.Lib.Transitions
import Vivac.Pipeline.TimedCalls

/-!
# What decay measures

Calls one after another at times that do not decrease. Decay looks at `last_verified_at`, and only
decay sets it (`TimedCall.touches`): an update or a bulk upsert that gives a spot a new tier leaves
it as it was. So a run of decay may hit a spot whose tier is new. `decay_spares_iff` says when it
does not: the spot is not one decay looks at, or it was verified recently enough before the change,
or a run of decay has hit it since.
-/

set_option autoImplicit false

namespace Vivac

open Lib App

/-! ## Calls in time -/

namespace TimedCall

def isDecay (x : TimedCall) : Bool :=
  match x.call with
  | .decay _ => true
  | _ => false

/-- The calls that may give a spot a tier: an update, and a cycle of the worker, which runs the
bulk upserts. -/
def givesTiers (x : TimedCall) : Bool :=
  match x.call with
  | .update _ _ _ => true
  | .workerCycle _ => true
  | _ => false

end TimedCall

/-- The tier of a spot that is there. -/
def trustTierOf (uid : String) (d : Db) : Option ℤ := (d.spots.find? uid).bind Spot.trustTier

/-- When a spot that is there was verified. -/
def verifiedAt (uid : String) (d : Db) : Option Timestamp :=
  (d.spots.find? uid).bind Spot.lastVerifiedAt

/-! ## Everything but decay -/

/-- No spot goes, and no spot is verified. -/
structure Unverified (d d' : Db) : Prop where
  found : ∀ uid, (d.spots.find? uid).isSome → (d'.spots.find? uid).isSome
  verified : ∀ uid, verifiedAt uid d' = verifiedAt uid d

theorem Unverified.refl (d : Db) : Unverified d d := ⟨fun _ h => h, fun _ => rfl⟩

theorem Unverified.trans {a b c : Db} (hab : Unverified a b) (hbc : Unverified b c) :
    Unverified a c :=
  ⟨fun uid h => hbc.found uid (hab.found uid h),
    fun uid => (hbc.verified uid).trans (hab.verified uid)⟩

theorem Unverified.of_same {d d' : Db} (h : d'.spots = d.spots) : Unverified d d' := by
  refine ⟨fun uid hfound => ?_, fun uid => ?_⟩
  · rwa [h]
  · rw [verifiedAt, verifiedAt, h]

/-- New versions of spots that keep the time. -/
theorem unverified_rewriteSpots {uids : List String} {f : Rewrite Spot.uid}
    (hf : ∀ s s', f.apply s = some s' → s'.lastVerifiedAt = s.lastVerifiedAt) (d : Db) :
    Unverified d (rewriteSpots uids f d) := by
  refine ⟨fun uid hfound => ?_, fun uid => ?_⟩
  · rw [find?_rewriteSpots, Option.isSome_map]
    exact hfound
  · rw [verifiedAt, verifiedAt, find?_rewriteSpots]
    cases d.spots.find? uid with
    | none => rfl
    | some s =>
        dsimp only [Option.map_some, Option.bind_some]
        split
        · cases hs : f.apply s with
          | none => rfl
          | some s' => exact hf s s' hs
        · rfl

/-- A new spot that is not verified. -/
theorem unverified_insertSpot {proposed : Spot} (hnew : proposed.lastVerifiedAt = none) (d : Db) :
    Unverified d (insertSpot proposed d) := by
  have hspots : (insertSpot proposed d).spots = d.spots.insert proposed := rfl
  refine ⟨fun uid hfound => ?_, fun uid => ?_⟩
  · rw [hspots, Table.isSome_find?_insert, hfound, Bool.true_or]
  · rw [verifiedAt, verifiedAt, hspots]
    cases hold : d.spots.find? uid with
    | some s => rw [Table.find?_insert_of_some hold]
    | none =>
        by_cases huid : proposed.uid = uid
        · subst huid
          rw [Table.find?_insert_self hold]
          exact hnew
        · rw [Table.find?_insert_of_ne huid, hold]

/-- A command after which no spot is verified that was not. -/
abbrev Command.Unverified {β : Type} (c : Command β) : Prop := Cmd.Moves Vivac.Unverified c

theorem admits_unverified : AdmitsNested Command.Unverified where
  read f := by
    intro locked d eff heff
    cases heff
    exact Unverified.refl
  commit := trivial
  rollback := trivial
  incr _ := trivial
  savepoint := trivial
  release := trivial
  rollbackTo := trivial

/-- A statement that leaves the spots alone. -/
theorem unverified_elsewhere {R : Type} {st : Statement R}
    (h : ∀ locked d eff, st locked d = .ok eff → ∀ d', (eff.write d').spots = d'.spots) :
    Command.Unverified (.sql st : Command R) :=
  fun locked d eff heff d' => .of_same (h locked d eff heff d')

theorem unverified_updateSpots {be : Backend} {p : Spot → Bool} {f : Rewrite Spot.uid}
    {columns : List String}
    (hf : ∀ s s', f.apply s = some s' → s'.lastVerifiedAt = s.lastVerifiedAt) :
    Command.Unverified (.sql (updateSpots be p f columns) : Command (List String)) := by
  intro locked d eff heff
  rw [updateSpots_eq_ok heff]
  exact unverified_rewriteSpots hf

/-- An update of all rows alike that keeps the time. -/
theorem unverified_updateTotal {be : Backend} {p : Spot → Bool} {g : Spot → Spot}
    {hg : ∀ s, (g s).uid = s.uid} {columns : List String}
    (hkeep : ∀ s, (g s).lastVerifiedAt = s.lastVerifiedAt) :
    Command.Unverified (.sql (updateSpots be p (.total g hg) columns) : Command (List String)) := by
  apply unverified_updateSpots
  intro s s' hs
  cases hs
  exact hkeep s

theorem lastVerifiedAt_of_setAll {data : List SpotAttr} {s s' : Spot}
    (h : SpotAttr.setAll data s = some s') : s'.lastVerifiedAt = s.lastVerifiedAt := by
  induction data generalizing s with
  | nil =>
      cases h
      rfl
  | cons a as ih =>
      obtain ⟨t, ht, hrest⟩ := Option.bind_eq_some_iff.1 h
      rw [ih hrest]
      cases a with
      | title v =>
          obtain ⟨w, -, rfl⟩ := Option.map_eq_some_iff.1 ht
          rfl
      | pipelineStatus v =>
          obtain ⟨w, -, rfl⟩ := Option.map_eq_some_iff.1 ht
          rfl
      | _ =>
          cases ht
          rfl

section Writes

variable (be : Backend) (now : Timestamp)

theorem unverified_flushSpot (data : List SpotAttr) (loaded : Spot) :
    (flushSpot be now loaded data).Uses Command.Unverified := by
  unfold flushSpot
  dsimp only
  split
  · trivial
  · apply Prog.Uses.bind (Prog.uses_perform _)
    · intro uids
      split <;> trivial
    · apply unverified_updateSpots
      intro s s' hs
      obtain ⟨t, ht, rfl⟩ := Option.map_eq_some_iff.1 hs
      have hkeep := lastVerifiedAt_of_setAll ht
      exact hkeep

/-- The row of a bulk upsert updates a spot, or makes one; neither is verified by it. -/
theorem unverified_insertOnConflict (uid : String) (row : SpotBulkRow) :
    Command.Unverified (.sql (insertOnConflict be now uid row) : Command (List String)) := by
  have hset : ∀ s s', row.setValues.apply s = some s' → s'.lastVerifiedAt = s.lastVerifiedAt := by
    intro s s' hs
    obtain ⟨t, ht, rfl⟩ := Option.map_eq_some_iff.1 hs
    have hkeep := lastVerifiedAt_of_setAll ht
    exact hkeep
  intro locked d eff heff
  simp only [insertOnConflict] at heff
  split at heff
  · cases heff
  · rename_i proposed hproposed
    split at heff
    · cases heff
    · split at heff
      · rw [updateSpots_eq_ok heff]
        exact unverified_rewriteSpots hset
      · split at heff
        · cases heff
        · cases heff
          exact unverified_insertSpot (hset _ _ hproposed)

theorem unverified_of_elsewhere {R : Type} {st : Statement R} (h : WritesElsewhere st) :
    Command.Unverified (.sql st : Command R) :=
  unverified_elsewhere fun locked d eff heff d' => (h locked d eff heff d').1

theorem unverified_insertJob (job : Job) :
    Command.Unverified (.sql (insertJob job) : Command Unit) := by
  apply unverified_elsewhere
  intro locked d eff heff d'
  obtain ⟨rfl, -⟩ := insertJob_eq_ok heff
  rfl

theorem unverified_setAssigned (uids : List String) (userUid : String) :
    Command.Unverified (.sql (setAssigned be now uids userUid) : Command (List String)) :=
  unverified_updateTotal fun _ => rfl

theorem unverified_setDeletedAt (uid : String) (deletedAt : Option Timestamp) :
    Command.Unverified (.sql (setDeletedAt be now uid deletedAt) : Command (List String)) :=
  unverified_updateTotal fun _ => rfl

theorem unverified_pickWrites : SpotCall.PickWrites Command.Unverified be now :=
  ⟨fun p uid => unverified_of_elsewhere (elsewhere_lockSpot p uid), unverified_setAssigned be now⟩

theorem unverified_ratingWrites : SpotCall.RatingWrites Command.Unverified be now :=
  fun _ _ _ => unverified_updateTotal fun _ => rfl

theorem unverified_workerWrites : SpotCall.WorkerWrites Command.Unverified be now where
  lockPending uid := unverified_elsewhere fun locked d eff heff d' => by
    cases heff
    rfl
  startJob uid := unverified_elsewhere fun locked d eff heff d' => by
    cases heff
    rfl
  updateJobs uid outcome := unverified_elsewhere fun locked d eff heff d' => by
    cases heff
    rfl
  insertOnConflict := unverified_insertOnConflict be now
  updateInfoRow uid fields := unverified_of_elsewhere (elsewhere_updateInfoRow be now uid fields)
  insertInfoRow info := unverified_of_elsewhere (elsewhere_insertInfoRow be info)

/-- Only decay verifies spots. -/
theorem unverified_writes (x : TimedCall) (h : x.isDecay = false) :
    x.call.Writes Command.Unverified be now := by
  obtain ⟨time, call⟩ := x
  cases call with
  | update credentials uid payload => exact unverified_flushSpot be now _
  | delete credentials uid => exact fun uid => unverified_setDeletedAt be now uid _
  | restore credentials uid => exact fun uid => unverified_setDeletedAt be now uid _
  | assign credentials userUid count => exact unverified_pickWrites be now
  | bulkAssign credentials spotUids userUid => exact unverified_setAssigned be now
  | transfer credentials fromUserUid toUserUid count => exact unverified_pickWrites be now
  | reassign credentials uid userUid => exact unverified_flushSpot be now _
  | bulkStatus credentials uids status => exact fun _ => unverified_updateTotal fun _ => rfl
  | enqueueSpots credentials jobUid request => exact fun job _ => unverified_insertJob job
  | enqueueInfo credentials jobUid request => exact fun job _ => unverified_insertJob job
  | registerImage limits storage peer credentials uid imageUid payload =>
      exact fun image => unverified_of_elsewhere (elsewhere_insertImageRow image)
  | updateImage credentials uid imageUid data =>
      exact fun uid f => unverified_of_elsewhere (elsewhere_updateImageRow uid f)
  | deleteImage credentials uid imageUid =>
      exact fun uid f => unverified_of_elsewhere (elsewhere_updateImageRow uid f)
  | createReview peer credentials reviewUid spotUid rating content =>
      exact ⟨fun review => unverified_of_elsewhere (elsewhere_insertReviewRow review),
        unverified_ratingWrites be now⟩
  | updateReview credentials spotUid reviewUid data =>
      exact ⟨fun uid f => unverified_of_elsewhere (elsewhere_updateReviewRow uid f),
        unverified_ratingWrites be now⟩
  | deleteReview credentials spotUid reviewUid =>
      exact ⟨fun uid f => unverified_of_elsewhere (elsewhere_updateReviewRow uid f),
        unverified_ratingWrites be now⟩
  | deleteOption credentials field code =>
      refine ⟨unverified_updateTotal fun s => ?_,
        unverified_of_elsewhere (elsewhere_deleteFieldOptionRow field code)⟩
      cases field <;> rfl
  | decay thresholdDays => cases h
  | workerCycle newUid => exact unverified_workerWrites be now

end Writes

/-! ## Decay -/

/-- What a run of decay makes of a spot. -/
def decayed (now cutoff : Timestamp) (s : Spot) : Spot :=
  if isStale cutoff s && s.trustTier.any fun t => t < 3 then s.downgraded now
  else if isStale cutoff s && s.trustTier == some 3 then s.requeued now
  else s

/-- The spots decay looks at: published, not deleted, and of a tier. -/
def decayable (s : Spot) : Bool := s.live && s.trustTier.any fun t => t ≤ 3

section Decay

variable {now cutoff : Timestamp}

theorem isStale_of_verified (h : cutoff ≤ now) {s : Spot} (hs : s.lastVerifiedAt = some now) :
    isStale cutoff s = false := by
  simp [isStale, hs, h]

variable (now cutoff) in
theorem lastVerifiedAt_decayed (s : Spot) :
    (decayed now cutoff s).lastVerifiedAt = s.lastVerifiedAt ∨
      (decayed now cutoff s).lastVerifiedAt = some now := by
  unfold decayed
  split
  · exact .inr rfl
  · split
    · exact .inr rfl
    · exact .inl rfl

/-- A run of decay leaves a spot as it is when it does not look at it, or the spot was verified
since the cutoff. -/
theorem decayed_eq_self_iff (h : cutoff ≤ now) (s : Spot) :
    decayed now cutoff s = s ↔
      decayable s = false ∨ ∃ t, s.lastVerifiedAt = some t ∧ cutoff ≤ t := by
  have hmoved : isStale cutoff s = true → s.lastVerifiedAt ≠ some now := by
    intro hstale hs
    rw [isStale_of_verified h hs] at hstale
    cases hstale
  constructor
  · intro hself
    by_cases hdecayable : decayable s = true
    · right
      have hnot : isStale cutoff s = false := by
        by_contra hstale
        rw [Bool.not_eq_false] at hstale
        obtain ⟨t, ht, hle⟩ : ∃ t, s.trustTier = some t ∧ t ≤ 3 := by
          simp only [decayable, Bool.and_eq_true, Option.any_eq_true,
            decide_eq_true_eq] at hdecayable
          exact hdecayable.2
        -- either statement writes the time of the run
        have hnow : (decayed now cutoff s).lastVerifiedAt = some now := by
          unfold decayed
          rcases lt_or_eq_of_le hle with hlt | heq
          · simp [hstale, ht, hlt, Spot.downgraded]
          · simp [hstale, ht, heq, Spot.requeued]
        rw [hself] at hnow
        exact hmoved hstale hnow
      simp only [decayable, Bool.and_eq_true, Option.any_eq_true] at hdecayable
      obtain ⟨hlive, t, ht, -⟩ := hdecayable
      cases hverified : s.lastVerifiedAt with
      | none => simp [isStale, hlive, ht, hverified] at hnot
      | some v =>
          refine ⟨v, rfl, ?_⟩
          simpa [isStale, hlive, ht, hverified] using hnot
    · left
      simpa using hdecayable
  · rintro (hout | ⟨t, ht, hle⟩)
    · unfold decayed
      cases htier : s.trustTier with
      | none => simp
      | some t =>
          by_cases hlive : s.live = true
          · have habove : 3 < t := by simpa [decayable, hlive, htier] using hout
            have hlow : ¬t < 3 := by omega
            have hne : ¬t = 3 := by omega
            simp [hlow, hne]
          · simp [isStale, hlive]
    · have hfresh : isStale cutoff s = false := by
        simp [isStale, ht, hle]
      simp [decayed, hfresh]

end Decay

section Runs

variable {ι : Type} [DecidableEq ι] {i : ι} {cfg : Settings} {be : Backend} {now : Timestamp}

/-- A run of decay that returns has made of every spot what decay makes of it, and one that raises
has changed nothing. -/
def DecayLeaves (now cutoff : Timestamp) (d : Db) : Except Exc Unit → Db → Prop
  | .ok _, d' => ∀ uid, d'.spots.find? uid = (d.spots.find? uid).map (decayed now cutoff)
  | .error _, d' => d' = d

/-- The second statement finds no spot of the first: those are verified now. -/
theorem requeue_of_downgrade {cutoff : Timestamp} (h : cutoff ≤ now) {d d₁ d₂ : Db}
    {downgraded requeued : List String}
    (hfirst : (downgradeStale be now cutoff).apply d = .ok (downgraded, d₁))
    (hsecond : (requeueStale be now cutoff).apply d₁ = .ok (requeued, d₂)) (uid : String) :
    d₂.spots.find? uid = (d.spots.find? uid).map (decayed now cutoff) := by
  obtain ⟨eff₁, heff₁, -, rfl⟩ := Stmt.ok_of_apply hfirst
  obtain ⟨eff₂, heff₂, -, rfl⟩ := Stmt.ok_of_apply hsecond
  rw [find?_updateSpots heff₂, find?_updateSpots heff₁, Option.map_map]
  refine congrArg (Option.map · _) (funext fun s => ?_)
  simp only [Function.comp_apply, Rewrite.total, Option.getD_some, decayed]
  by_cases hlow : (isStale cutoff s && s.trustTier.any fun t => decide (t < 3)) = true
  · have hfresh : isStale cutoff (s.downgraded now) = false := isStale_of_verified h rfl
    simp only [hlow, if_true, hfresh, Bool.false_and, Bool.false_eq_true, if_false]
  · simp only [hlow, Bool.false_eq_true, if_false]

theorem cutoff_le {thresholdDays : ℤ} (hpositive : 1 ≤ thresholdDays) (now : Timestamp) :
    now - daysMicros thresholdDays ≤ now := by
  have hdays : 0 ≤ daysMicros thresholdDays := by
    unfold daysMicros
    omega
  exact sub_le_self now hdays

/-- The spots a run of decay lowers, and those it sends back to the queue, as they are before it. -/
def isDowngradable (cutoff : Timestamp) (s : Spot) : Bool :=
  isStale cutoff s && s.trustTier.any fun t => t < 3

def isRequeueable (cutoff : Timestamp) (s : Spot) : Bool :=
  isStale cutoff s && s.trustTier == some 3

/-- A run of decay that returns answers how many spots it has lowered and sent back. -/
def DecayAnswers (now cutoff : Timestamp) (d : Db) : Except Exc (ℕ × ℕ) → Db → Prop
  | .ok answer, d' => (∀ uid, d'.spots.find? uid = (d.spots.find? uid).map (decayed now cutoff)) ∧
      answer = (d.spots.rows.countP (isDowngradable cutoff),
        d.spots.rows.countP (isRequeueable cutoff))
  | .error _, d' => d' = d

/-- What the second statement counts are spots the first has left alone. -/
theorem length_requeued {cutoff : Timestamp} (h : cutoff ≤ now) {d d₁ d₂ : Db}
    {downgraded requeued : List String}
    (hfirst : (downgradeStale be now cutoff).apply d = .ok (downgraded, d₁))
    (hsecond : (requeueStale be now cutoff).apply d₁ = .ok (requeued, d₂)) :
    (downgraded.length, requeued.length) =
      (d.spots.rows.countP (isDowngradable cutoff),
        d.spots.rows.countP (isRequeueable cutoff)) := by
  obtain ⟨eff₁, heff₁, rfl, rfl⟩ := Stmt.ok_of_apply hfirst
  obtain ⟨eff₂, heff₂, rfl, -⟩ := Stmt.ok_of_apply hsecond
  have hlowered : eff₁.result.length = d.spots.rows.countP (isDowngradable cutoff) := by
    rw [congrArg Effect.result (updateSpots_eq_ok heff₁), List.length_map,
      List.countP_eq_length_filter]
    rfl
  have hsent : eff₂.result.length =
      (eff₁.write d).spots.rows.countP (isRequeueable cutoff) := by
    rw [congrArg Effect.result (updateSpots_eq_ok heff₂), List.length_map,
      List.countP_eq_length_filter]
    rfl
  rw [hlowered, hsent, rows_updateSpots heff₁, List.countP_map]
  refine congrArg (Prod.mk _) (List.countP_congr fun s _ => ?_)
  -- a spot that was lowered is fresh, and was not at the lowest tier before
  simp only [Function.comp_apply]
  split
  · rename_i hlow
    have hfresh : isRequeueable cutoff (s.downgraded now) = false := by
      rw [isRequeueable, isStale_of_verified h rfl, Bool.false_and]
    have htier : isRequeueable cutoff s = false := by
      simp only [Bool.and_eq_true, Option.any_eq_true, decide_eq_true_eq] at hlow
      obtain ⟨-, t, ht, hlt⟩ := hlow
      have hne : t ≠ 3 := by omega
      simp [isRequeueable, ht, hne]
    rw [hfresh, htier]
  · rfl

/-- The commit of decay, and the versions it raises. -/
theorem lone_endDecay (downgraded requeued : List String) (db d : Db) :
    Lone i (Sees i db [] d) (commit.bind fun _ =>
      if downgraded.isEmpty then .ret (0, requeued.length)
      else (invalidateSpots cfg downgraded).bind fun _ =>
        .ret (downgraded.length, requeued.length) : App (ℕ × ℕ))
      fun r s => r = .ok (downgraded.length, requeued.length) ∧ s.db = d := by
  apply Lone.bind_ok Lone.commit
  split
  · rename_i hempty
    rw [List.isEmpty_iff.1 hempty]
    exact Lone.ret _ fun s hs => ⟨rfl, hs.holds.db_eq⟩
  · apply Lone.bind_ok (lone_invalidateSpots cfg downgraded d [] d)
    exact Lone.ret _ fun s hs => ⟨rfl, hs.holds.db_eq⟩

theorem lone_decayStaleTrustTiers {thresholdDays : ℤ} (hpositive : 1 ≤ thresholdDays) (db : Db) :
    Lone i (Sees i db [] db) (decayStaleTrustTiers cfg be now thresholdDays)
      fun r s => DecayAnswers now (now - daysMicros thresholdDays) db r s.db := by
  apply Lone.statement_bind
  · intro downgraded d₁ hfirst
    apply Lone.statement_bind
    · intro requeued d₂ hsecond
      refine (lone_endDecay downgraded requeued db d₂).conseq (fun _ h => h) ?_
      rintro r s ⟨rfl, hdb⟩
      rw [hdb]
      exact ⟨requeue_of_downgrade (cutoff_le hpositive now) hfirst hsecond,
        length_requeued (cutoff_le hpositive now) hfirst hsecond⟩
    · exact fun _ _ s hs => hs.db_eq
  · exact fun _ _ s hs => hs.db_eq

theorem lone_decay {thresholdDays : ℤ} (hpositive : 1 ≤ thresholdDays) (db : Db) :
    Lone i (Sees i db [] db) (SpotCall.body cfg be now (.decay thresholdDays))
      fun r s => DecayLeaves now (now - daysMicros thresholdDays) db r s.db := by
  refine Lone.bind _ (lone_decayStaleTrustTiers hpositive db) (fun out => ?_) fun e s h => h
  exact Lone.ret _ fun s h => h.1

end Runs

/-! ## Runs -/

namespace TimedCall

variable {cfg : Settings} {be : Backend} {x : TimedCall} {r : Except Exc Unit} {s s' : State Unit}

/-- Every call but decay leaves the times at which spots were verified. -/
theorem Serves.unverified (h : x.Serves cfg be r s s') (hs : Between s) (hx : x.isDecay = false) :
    Unverified s.db s'.db := by
  have huses := SpotCall.uses_program admits_unverified cfg x.call (unverified_writes be x.now x hx)
  exact (Transits.runAlone Unverified.refl Unverified.trans
    (Transits.of_uses (A := Unverified s.db) huses)
    (onCourse_of_idle Unverified.refl fun _ => hs) h).2

/-- What a run of decay leaves. -/
theorem Serves.decay {thresholdDays : ℤ} {now : Timestamp} (hpositive : 1 ≤ thresholdDays)
    (h : (TimedCall.mk now (.decay thresholdDays)).Serves cfg be r s s') (hs : Between s) :
    DecayLeaves now (now - daysMicros thresholdDays) s.db r s'.db := by
  have hbody : Lone () (Sees () s.db [] s.db) (SpotCall.body cfg be now (.decay thresholdDays))
      fun r s' => DecayLeaves now (now - daysMicros thresholdDays) s.db r s'.db :=
    lone_decay hpositive s.db
  obtain ⟨r', s'', hrun, -, hleaves⟩ := lone_withSession hbody s hs.sees
  have hsame : some (r', s'') = some (r, s') := hrun.symm.trans h
  cases hsame
  exact hleaves

end TimedCall

/-- The runs of decay in the list wait at least a day. -/
def PositiveThresholds (xs : List TimedCall) : Prop :=
  ∀ x ∈ xs, ∀ thresholdDays, x.call = .decay thresholdDays → 1 ≤ thresholdDays

/-- The spot was verified by a run of decay of the list, or as it was at the start. -/
def VerifiedBy (xs : List TimedCall) (uid : String) (d d' : Db) : Prop :=
  verifiedAt uid d' = verifiedAt uid d ∨
    ∃ x ∈ xs, x.isDecay = true ∧ verifiedAt uid d' = some x.now

/-- One call of the list. -/
theorem verifiedBy_step {cfg : Settings} {be : Backend} {xs : List TimedCall} {x : TimedCall}
    {s s' : State Unit} (uid : String) (hthresholds : PositiveThresholds xs) (hx : x ∈ xs)
    (h : x.Served cfg be s s') (hs : Between s) :
    ((s.db.spots.find? uid).isSome → (s'.db.spots.find? uid).isSome) ∧
      VerifiedBy xs uid s.db s'.db := by
  obtain ⟨r, h⟩ := h
  cases hdecay : x.isDecay with
  | false =>
      have hkept := h.unverified hs hdecay
      exact ⟨hkept.found uid, .inl (hkept.verified uid)⟩
  | true =>
      obtain ⟨now, call⟩ := x
      cases call with
      | decay thresholdDays =>
          have hleaves := TimedCall.Serves.decay (hthresholds _ hx _ rfl) h hs
          cases r with
          | error e =>
              have hsame : s'.db = s.db := hleaves
              rw [hsame]
              exact ⟨id, .inl rfl⟩
          | ok u =>
              have hrow := hleaves uid
              rw [VerifiedBy, verifiedAt, verifiedAt, hrow]
              cases s.db.spots.find? uid with
              | none => exact ⟨id, .inl rfl⟩
              | some row =>
                  refine ⟨fun _ => rfl, ?_⟩
                  rcases lastVerifiedAt_decayed now (now - daysMicros thresholdDays) row with
                    hkeep | hnow
                  · exact .inl hkeep
                  · exact .inr ⟨_, hx, rfl, hnow⟩
      | _ => cases hdecay

/-- A list of calls keeps the spot, and it was verified by the decay of the list or before. -/
theorem verifiedBy_turns {cfg : Settings} {be : Backend} {xs : List TimedCall} {s s' : State Unit}
    (uid : String) (hthresholds : PositiveThresholds xs)
    (h : Turns (TimedCall.Served cfg be) xs s s')
    (hs : Between s) :
    Between s' ∧ ((s.db.spots.find? uid).isSome → (s'.db.spots.find? uid).isSome) ∧
      VerifiedBy xs uid s.db s'.db := by
  refine h.induct (I := Between) (T := fun a b =>
      ((a.db.spots.find? uid).isSome → (b.db.spots.find? uid).isSome) ∧
        VerifiedBy xs uid a.db b.db) ?_ ?_ ?_ hs
  · exact fun _ => ⟨id, .inl rfl⟩
  · rintro a b c ⟨hab, hverified⟩ ⟨hbc, hlater⟩
    refine ⟨hbc ∘ hab, ?_⟩
    rcases hlater with hsame | hby
    · rwa [VerifiedBy, hsame]
    · exact .inr hby
  · intro x hx a b hstep ha
    obtain ⟨r, hserves⟩ := hstep
    exact ⟨hserves.between, verifiedBy_step uid hthresholds hx ⟨r, hserves⟩ ha⟩

/-- The run of decay leaves the spot as it is. -/
def LeftAlone (uid : String) (d d' : Db) : Prop := d'.spots.find? uid = d.spots.find? uid

/-- When a spot whose tier was changed less than `thresholdDays` before a run of decay is left alone
by it: the run raised and changed nothing, or the spot is not one decay looks at, or a run of decay
has hit it since the change, or it had been verified recently enough before the change, which
leaves that time as it was. -/
theorem decay_spares_iff (cfg : Settings) (be : Backend) {change : TimedCall}
    {later : List TimedCall} {now : Timestamp} {thresholdDays : ℤ} {uid : String}
    {s s₁ s₂ s₃ : State Unit} {r : Except Exc Unit} (hs : Between s)
    (hchange : change.Served cfg be s s₁) (hgives : change.givesTiers = true)
    (htier : trustTierOf uid s₁.db ≠ trustTierOf uid s.db)
    (hlater : Turns (TimedCall.Served cfg be) later s₁ s₂)
    (htimes : TimedCall.InTime (change :: later ++ [⟨now, .decay thresholdDays⟩]))
    (hthresholds : PositiveThresholds (later ++ [⟨now, .decay thresholdDays⟩]))
    (hrecent : now - change.now < daysMicros thresholdDays)
    (hdecay : TimedCall.Serves cfg be ⟨now, .decay thresholdDays⟩ r s₂ s₃) :
    ∃ row, s₂.db.spots.find? uid = some row ∧
      (LeftAlone uid s₂.db s₃.db ↔
        (∃ e, r = .error e) ∨ decayable row = false ∨
          (∃ x ∈ later, x.isDecay = true ∧ row.lastVerifiedAt = some x.now) ∨
          ∃ t, verifiedAt uid s.db = some t ∧ now - daysMicros thresholdDays ≤ t) := by
  obtain ⟨r₁, hserves⟩ := hchange
  have hnotDecay : change.isDecay = false := by
    obtain ⟨time, call⟩ := change
    cases call with
    | decay days => cases hgives
    | _ => rfl
  have hkept := hserves.unverified hs hnotDecay
  -- the spot is there after the change, and so before the run of decay
  have hfound : (s₁.db.spots.find? uid).isSome := by
    cases hnone : s₁.db.spots.find? uid with
    | some row => rfl
    | none =>
        have hbefore : s.db.spots.find? uid = none := by
          cases hold : s.db.spots.find? uid with
          | none => rfl
          | some row =>
              have hstill := hkept.found uid (by rw [hold]; rfl)
              rw [hnone] at hstill
              cases hstill
        simp [trustTierOf, hnone, hbefore] at htier
  obtain ⟨hs₂, hstill, hverified⟩ := verifiedBy_turns uid
    (fun x hx => hthresholds x (List.mem_append_left _ hx)) hlater hserves.between
  obtain ⟨row, hrow⟩ := Option.isSome_iff_exists.1 (hstill hfound)
  have hpositive : 1 ≤ thresholdDays :=
    hthresholds _ (List.mem_append_right _ (List.mem_singleton_self _)) _ rfl
  have hat : verifiedAt uid s₂.db = row.lastVerifiedAt := by rw [verifiedAt, hrow]; rfl
  have hafter : ∀ x ∈ later, now - daysMicros thresholdDays ≤ x.now := by
    intro x hx
    have horder : change.now ≤ x.now :=
      (List.pairwise_cons.1 htimes).1 x (List.mem_append_left _ hx)
    have hcut : now - daysMicros thresholdDays < change.now := by
      have hsub := sub_lt_iff_lt_add.1 hrecent
      exact sub_lt_iff_lt_add'.2 hsub
    exact le_of_lt (lt_of_lt_of_le hcut horder)
  refine ⟨row, hrow, ?_⟩
  have hleaves := TimedCall.Serves.decay hpositive hdecay hs₂
  cases r with
  | error e =>
      have hsame : s₃.db = s₂.db := hleaves
      refine ⟨fun _ => .inl ⟨e, rfl⟩, fun _ => ?_⟩
      rw [LeftAlone, hsame]
  | ok u =>
      have hleft : LeftAlone uid s₂.db s₃.db ↔
          decayed now (now - daysMicros thresholdDays) row = row := by
        rw [LeftAlone, hleaves uid, hrow, Option.map_some, Option.some.injEq]
      rw [hleft, decayed_eq_self_iff (cutoff_le hpositive now)]
      constructor
      · rintro (hout | ⟨t, ht, hle⟩)
        · exact .inr (.inl hout)
        · rcases hverified with hsame | ⟨x, hx, hdecays, hxnow⟩
          · rw [hat, hkept.verified uid, ht] at hsame
            exact .inr (.inr (.inr ⟨t, hsame.symm, hle⟩))
          · exact .inr (.inr (.inl ⟨x, hx, hdecays, hat ▸ hxnow⟩))
      · rintro (⟨e, he⟩ | hout | ⟨x, hx, -, hxnow⟩ | ⟨t, ht, hle⟩)
        · cases he
        · exact .inl hout
        · exact .inr ⟨x.now, hxnow, hafter x hx⟩
        · right
          rcases hverified with hsame | ⟨x, hx, -, hxnow⟩
          · rw [hat, hkept.verified uid, ht] at hsame
            exact ⟨t, hsame, hle⟩
          · exact ⟨x.now, hat ▸ hxnow, hafter x hx⟩

namespace Sample

/-- A published spot whose tier is not judged yet, and a user who may publish. -/
def judging : Db :=
  { Db.empty with
    spots := ⟨[spot "s"], List.nodup_singleton _⟩
    users := ⟨[{ user "u" with
      isStaff := true
      staffRole := .superuser }], List.nodup_singleton _⟩ }

/-- The spot gets a tier at the beginning of a day. -/
def judgement : TimedCall :=
  ⟨0, .update (.access "u") "s" ⟨[.trustTier (some 1)], by decide, by decide⟩⟩

/-- A run of decay one hour later. -/
def hourLater : TimedCall := ⟨3600000000, .decay 180⟩

/-- The states after the one and the other call. -/
def judged (db : Db) : Option (State Unit × State Unit) :=
  (runAlone (fun i => exec i) () (judgement.call.program settings backend judgement.now)
    (World.fresh db)).bind fun out₁ =>
      (runAlone (fun i => exec i) () (hourLater.call.program settings backend hourLater.now)
        out₁.2).map fun out₂ => (out₁.2, out₂.2)

theorem served_of_judged {db : Db} {s₁ s₂ : State Unit} (h : judged db = some (s₁, s₂)) :
    judgement.Served settings backend (World.fresh db) s₁ ∧
      hourLater.Served settings backend s₁ s₂ := by
  obtain ⟨⟨r₁, t₁⟩, hfirst, hrest⟩ := Option.bind_eq_some_iff.1 h
  obtain ⟨⟨r₂, t₂⟩, hsecond, hpair⟩ := Option.map_eq_some_iff.1 hrest
  cases hpair
  exact ⟨⟨r₁, hfirst⟩, ⟨r₂, hsecond⟩⟩

/-- The same spot, verified at the time of the change. -/
def judgingAgain : Db :=
  { judging with
    spots := ⟨[{ spot "s" with lastVerifiedAt := some 0 }], List.nodup_singleton _⟩ }

end Sample

/-- A spot that gets its tier from an update, and was never verified, loses it an hour later. -/
theorem decay_hits_new_tier : ∃ s₁ s₂ : State Unit,
    Sample.judgement.Served Sample.settings Sample.backend (World.fresh Sample.judging) s₁ ∧
    Sample.hourLater.Served Sample.settings Sample.backend s₁ s₂ ∧
    trustTierOf "s" Sample.judging = none ∧ trustTierOf "s" s₁.db = some 1 ∧
    trustTierOf "s" s₂.db = some 2 := by
  have hrun : (Sample.judged Sample.judging).any (fun out =>
      trustTierOf "s" out.1.db = some 1 ∧ trustTierOf "s" out.2.db = some 2) = true := by
    decide +kernel
  obtain ⟨⟨s₁, s₂⟩, hjudged, htiers⟩ := (Option.any_eq_true _ _).1 hrun
  obtain ⟨hfirst, hsecond⟩ := Sample.served_of_judged hjudged
  simp only [decide_eq_true_eq] at htiers
  exact ⟨s₁, s₂, hfirst, hsecond, rfl, htiers.1, htiers.2⟩

/-- The update leaves alone when a spot was verified; one verified that day keeps its tier. -/
theorem decay_spares_verified : ∃ s₁ s₂ : State Unit,
    Sample.judgement.Served Sample.settings Sample.backend (World.fresh Sample.judgingAgain) s₁ ∧
    trustTierOf "s" s₁.db = some 1 ∧ LeftAlone "s" s₁.db s₂.db := by
  have hrun : (Sample.judged Sample.judgingAgain).any (fun out =>
      trustTierOf "s" out.1.db = some 1) = true := by
    decide +kernel
  obtain ⟨⟨s₁, s₂⟩, hjudged, htier⟩ := (Option.any_eq_true _ _).1 hrun
  obtain ⟨hfirst, r, hsecond⟩ := Sample.served_of_judged hjudged
  simp only [decide_eq_true_eq] at htier
  have hnew : trustTierOf "s" s₁.db ≠ trustTierOf "s" Sample.judgingAgain := by
    rw [htier]
    nofun
  have hnone : Turns (TimedCall.Served Sample.settings Sample.backend) [] s₁ s₁ := .nil s₁
  have hthresholds : PositiveThresholds ([] ++ [Sample.hourLater]) := by
    intro x hx days hcall
    rw [List.mem_singleton.1 hx] at hcall
    cases hcall
    decide
  have htimes : TimedCall.InTime (Sample.judgement :: [] ++ [Sample.hourLater]) := by
    simp [TimedCall.InTime, Sample.judgement, Sample.hourLater]
  have hstart : Between (World.fresh Sample.judgingAgain : State Unit) := rfl
  obtain ⟨row, -, hiff⟩ := decay_spares_iff Sample.settings Sample.backend hstart hfirst rfl hnew
    hnone htimes hthresholds (by decide) hsecond
  exact ⟨s₁, s₂, hfirst, htier, hiff.2 (.inr (.inr (.inr ⟨0, rfl, by decide⟩)))⟩

end Vivac
