import Vivac.Access.ReadingChecks
import Vivac.Pipeline.Decay
import Vivac.Reviews.Aggregates

/-!
# Aggregates along serial runs

Calls one after another keep the reviews in order. The calls that write a review do so in one
transaction: they write the review and recompute the aggregates of its spot, or change only its
text. All others leave reviews and aggregates alone (`LeavesAggregates`). `aggregates_kept` says it
of runs of any length.
-/

set_option autoImplicit false

namespace Vivac

open Lib App

/-! ## Everything but the reviews' calls -/

/-- The reviews and every spot's aggregates stay. -/
structure LeavesAggregates (d d' : Db) : Prop where
  reviews : d'.reviews = d.reviews
  spots : ∀ uid, SameAggregates uid d d'

theorem LeavesAggregates.refl (d : Db) : LeavesAggregates d d := ⟨rfl, fun _ => rfl⟩

theorem LeavesAggregates.trans {a b c : Db} (hab : LeavesAggregates a b)
    (hbc : LeavesAggregates b c) : LeavesAggregates a c :=
  ⟨hbc.reviews.trans hab.reviews, fun uid => (hbc.spots uid).trans (hab.spots uid)⟩

theorem LeavesAggregates.ordered {d d' : Db} (h : LeavesAggregates d d') (hd : ReviewsInOrder d) :
    ReviewsInOrder d' := by
  have hactive : ∀ u, activeReviews u d' = activeReviews u d := by
    intro u
    rw [activeReviews, activeReviews, h.reviews]
  -- every spot now has the aggregates of the one before
  have hbefore : ∀ s' ∈ d'.spots.rows, ∃ s ∈ d.spots.rows, s.uid = s'.uid ∧
      s'.ratingAvg = s.ratingAvg ∧ s'.reviewCount = s.reviewCount := by
    intro s' hs'
    have hfind : d'.spots.find? s'.uid = some s' := Table.find?_eq_some.2 ⟨hs', rfl⟩
    have hsame := h.spots s'.uid
    rw [SameAggregates, hfind, Option.map_some] at hsame
    obtain ⟨s, hs, heq⟩ := Option.map_eq_some_iff.1 hsame.symm
    obtain ⟨hmem, huid⟩ := Table.find?_eq_some.1 hs
    simp only [Spot.aggregates, Prod.mk.injEq] at heq
    exact ⟨s, hmem, huid, heq.1.symm, heq.2.symm⟩
  refine ⟨⟨fun s' hs' => ?_, fun s' hs' => ?_⟩, ?_, ?_⟩
  · obtain ⟨s, hs, huid, -, hcount⟩ := hbefore s' hs'
    rw [hcount, hactive, ← huid]
    exact hd.counted s hs
  · obtain ⟨s, hs, huid, hmean, -⟩ := hbefore s' hs'
    rw [hmean, hactive, ← huid]
    exact hd.averaged s hs
  · rw [OneReviewEach, h.reviews]
    exact hd.single
  · rw [h.reviews]
    exact hd.inScale

/-- A command that leaves reviews and aggregates alone. -/
abbrev Command.LeavesAggregates {β : Type} (c : Command β) : Prop :=
  Cmd.Moves Vivac.LeavesAggregates c

theorem admits_leavesAggregates : AdmitsNested Command.LeavesAggregates where
  read f := by
    intro locked d eff heff
    cases heff
    exact LeavesAggregates.refl
  commit := trivial
  rollback := trivial
  incr _ := trivial
  savepoint := trivial
  release := trivial
  rollbackTo := trivial

theorem leavesAggregates_updateSpots {be : Backend} {p : Spot → Bool} {f : Rewrite Spot.uid}
    {columns : List String} (hf : ∀ s s', f.apply s = some s' → s'.aggregates = s.aggregates) :
    Command.LeavesAggregates (.sql (updateSpots be p f columns) : Command (List String)) := by
  intro locked d eff heff d'
  rw [updateSpots_eq_ok heff]
  refine ⟨rfl, fun uid => ?_⟩
  rw [SameAggregates, find?_rewriteSpots, Option.map_map]
  refine congrArg (Option.map · _) (funext fun s => ?_)
  rw [Function.comp_apply]
  split
  · cases hs : f.apply s with
    | none => rfl
    | some s' => exact hf s s' hs
  · rfl

/-- An update of all rows alike that keeps the aggregates. -/
theorem leavesAggregates_updateTotal {be : Backend} {p : Spot → Bool} {g : Spot → Spot}
    {hg : ∀ s, (g s).uid = s.uid} {columns : List String}
    (hkeep : ∀ s, (g s).aggregates = s.aggregates) :
    Command.LeavesAggregates
      (.sql (updateSpots be p (.total g hg) columns) : Command (List String)) := by
  apply leavesAggregates_updateSpots
  intro s s' hs
  cases hs
  exact hkeep s

theorem aggregates_of_setAll {data : List SpotAttr} {s s' : Spot}
    (h : SpotAttr.setAll data s = some s') : s'.aggregates = s.aggregates := by
  induction data generalizing s with
  | nil =>
      cases h
      rfl
  | cons a as ih =>
      obtain ⟨t, ht, hrest⟩ := Option.bind_eq_some_iff.1 h
      rw [ih hrest]
      cases a with
      | title v =>
          obtain ⟨w, -, rfl⟩ := Option.map_eq_some_iff.1 ht
          rfl
      | pipelineStatus v =>
          obtain ⟨w, -, rfl⟩ := Option.map_eq_some_iff.1 ht
          rfl
      | _ =>
          cases ht
          rfl

section Writes

variable (be : Backend) (now : Timestamp)

theorem leavesAggregates_flushSpot (data : List SpotAttr) (loaded : Spot) :
    (flushSpot be now loaded data).Uses Command.LeavesAggregates := by
  unfold flushSpot
  dsimp only
  split
  · trivial
  · apply Prog.Uses.bind (Prog.uses_perform _)
    · intro uids
      split <;> trivial
    · apply leavesAggregates_updateSpots
      intro s s' hs
      obtain ⟨t, ht, rfl⟩ := Option.map_eq_some_iff.1 hs
      have hkeep := aggregates_of_setAll ht
      exact hkeep

theorem leavesAggregates_pickWrites : SpotCall.PickWrites Command.LeavesAggregates be now := by
  refine ⟨fun p uid => ?_, fun uids userUid => leavesAggregates_updateTotal fun _ => rfl⟩
  intro locked d eff heff
  rcases lockSpot_eq_ok heff with ⟨rfl, -⟩ | rfl <;> exact LeavesAggregates.refl

theorem leavesAggregates_writes {call : SpotCall} (h : call.writesSpotOnly = true) :
    call.Writes Command.LeavesAggregates be now := by
  cases call with
  | update credentials uid payload => exact leavesAggregates_flushSpot be now _
  | delete credentials uid => exact fun _ => leavesAggregates_updateTotal fun _ => rfl
  | restore credentials uid => exact fun _ => leavesAggregates_updateTotal fun _ => rfl
  | assign credentials userUid count => exact leavesAggregates_pickWrites be now
  | bulkAssign credentials spotUids userUid =>
      exact fun _ _ => leavesAggregates_updateTotal fun _ => rfl
  | transfer credentials fromUserUid toUserUid count => exact leavesAggregates_pickWrites be now
  | reassign credentials uid userUid => exact leavesAggregates_flushSpot be now _
  | bulkStatus credentials uids status =>
      exact fun _ => leavesAggregates_updateTotal fun _ => rfl
  | decay thresholdDays =>
      exact ⟨leavesAggregates_updateTotal fun _ => rfl, leavesAggregates_updateTotal fun _ => rfl⟩
  | _ => cases h

end Writes

/-- A call that writes no review leaves them and the aggregates. -/
theorem TimedCall.Serves.leavesAggregates {cfg : Settings} {be : Backend} {x : TimedCall}
    {r : Except Exc Unit} {s s' : State Unit} (h : x.Serves cfg be r s s') (hs : Between s)
    (hx : x.call.writesSpotOnly = true) : LeavesAggregates s.db s'.db := by
  have huses := SpotCall.uses_program admits_leavesAggregates cfg x.call
    (leavesAggregates_writes be x.now hx)
  exact (Transits.runAlone LeavesAggregates.refl LeavesAggregates.trans
    (Transits.of_uses (A := LeavesAggregates s.db) huses)
    (onCourse_of_idle LeavesAggregates.refl fun _ => hs) h).2

/-! ## The reviews' calls -/

/-- The reviews are in order, and only the aggregates of spot `u` are new. -/
def OrderedBut (u : String) (db d' : Db) : Prop :=
  ReviewsInOrder d' ∧ ∀ u', u' ≠ u → SameAggregates u' db d'

theorem ReviewsInOrder.orderedBut {db : Db} (h : ReviewsInOrder db) (u : String) :
    OrderedBut u db db := ⟨h, fun _ _ => rfl⟩

/-- An update of rating and content leaves user and, without a rating, rating. -/
theorem keeps_of_review_setAll {as : List ReviewAttr} {r r' : SpotReview}
    (h : ReviewAttr.setAll as r = some r') :
    r'.userId = r.userId ∧ (as.any ReviewAttr.isRating = false → r'.rating = r.rating) := by
  induction as generalizing r with
  | nil =>
      cases h
      exact ⟨rfl, fun _ => rfl⟩
  | cons a as ih =>
      obtain ⟨t, ht, hrest⟩ := Option.bind_eq_some_iff.1 h
      obtain ⟨huser, hrating⟩ := ih hrest
      cases a with
      | rating v =>
          obtain ⟨w, -, rfl⟩ := Option.map_eq_some_iff.1 ht
          exact ⟨huser, fun hnone => by simp [ReviewAttr.isRating] at hnone⟩
      | content v =>
          cases ht
          refine ⟨huser, fun hnone => hrating ?_⟩
          simpa [ReviewAttr.isRating] using hnone

/-- A rewrite of a review that is there: it has no new version and stays, or is replaced. -/
theorem rewriteReview_cases {d : Db} {uid : String} {r : SpotReview} (f : Rewrite SpotReview.uid)
    (hr : d.reviews.find? uid = some r) :
    (f.apply r = none ∧ rewriteReview uid f d = d) ∨
      ∃ r', f.apply r = some r' ∧ d.reviews.Replaces (rewriteReview uid f d).reviews uid r' := by
  cases hf : f.apply r with
  | some r' =>
      exact .inr ⟨r', rfl, Table.replaces_rewrite hr (fun s _ => beq_iff_eq (a := s.uid)) hf⟩
  | none =>
      obtain ⟨hmem, hkey⟩ := Table.find?_eq_some.1 hr
      refine .inl ⟨rfl, ?_⟩
      have hrows : d.reviews.rewrite (fun s => s.uid == uid) f = d.reviews := by
        apply Table.ext
        simp only [Table.rewrite, Table.rows_update]
        refine (List.map_congr_left fun s hs => ?_).trans (List.map_id _)
        split
        · rename_i hs'
          obtain rfl := d.reviews.eq_of_key_eq hs hmem ((beq_iff_eq.1 hs').trans hkey.symm)
          rw [hf]
          rfl
        · rfl
      rw [rewriteReview, hrows]

namespace ReviewCall

/-- An update or a deletion has the row of the tables before it. -/
def Loaded (db : Db) : ReviewCall → Prop
  | .create _ _ _ _ _ => True
  | .update review _ => db.reviews.find? review.uid = some review
  | .delete review => db.reviews.find? review.uid = some review

variable {cfg : Settings} {be : Backend} {now : Timestamp} {db : Db}

/-- A review that is updated: those of other spots stay, and no user has two. -/
theorem written_update (now : Timestamp) (data : List ReviewAttr) {review : SpotReview}
    (h : ReviewsInOrder db)
    (hloaded : db.reviews.find? review.uid = some review) :
    let d₁ := (ReviewCall.update review data).written now db
    d₁.spots = db.spots ∧ OneReviewEach d₁ ∧
      (∀ u, u ≠ review.spotUid → activeReviews u d₁ = activeReviews u db) ∧
      (data.any ReviewAttr.isRating = false →
        ∀ u, (activeReviews u d₁).length = (activeReviews u db).length ∧
          meanRating (activeReviews u d₁) = meanRating (activeReviews u db)) := by
  have hsame : ∀ d₁, d₁ = db → d₁.spots = db.spots ∧ OneReviewEach d₁ ∧
      (∀ u, u ≠ review.spotUid → activeReviews u d₁ = activeReviews u db) ∧
      (data.any ReviewAttr.isRating = false →
        ∀ u, (activeReviews u d₁).length = (activeReviews u db).length ∧
          meanRating (activeReviews u d₁) = meanRating (activeReviews u db)) := by
    rintro d₁ rfl
    exact ⟨rfl, h.single, fun _ _ => rfl, fun _ _ => ⟨rfl, rfl⟩⟩
  simp only [written]
  split
  · exact hsame db rfl
  · rcases rewriteReview_cases
      (setReview now (data.filter fun a => !a.unchanged review)) hloaded with
      ⟨-, hstays⟩ | ⟨r', hr', hreplaces⟩
    · exact hsame _ hstays
    · obtain ⟨t, ht, rfl⟩ := Option.map_eq_some_iff.1 hr'
      obtain ⟨-, hspot, hdeleted⟩ := ReviewAttr.keeps_of_setAll ht
      obtain ⟨huser, hrating⟩ := keeps_of_review_setAll ht
      refine ⟨rfl, h.single.replace hreplaces hloaded hspot huser fun hnone => ?_,
        fun u hu => activeReviews_replace_of_ne hreplaces hloaded hspot hu, fun hnone u => ?_⟩
      · exact hdeleted.symm.trans hnone
      · refine aggregates_of_sameRating hreplaces hloaded hspot hdeleted (hrating ?_) u
        rw [List.any_eq_false] at hnone ⊢
        exact fun a ha => hnone a (List.mem_filter.1 ha).1

/-- A review that is deleted. -/
theorem written_delete (now : Timestamp) {review : SpotReview} (h : ReviewsInOrder db)
    (hloaded : db.reviews.find? review.uid = some review) :
    let d₁ := (ReviewCall.delete review).written now db
    d₁.spots = db.spots ∧ OneReviewEach d₁ ∧
      (∀ u, u ≠ review.spotUid → activeReviews u d₁ = activeReviews u db) := by
  have hreplaces :
      db.reviews.Replaces ((ReviewCall.delete review).written now db).reviews review.uid
      { review with deletedAt := some now, updatedAt := some now } :=
    Table.replaces_rewrite hloaded (fun s _ => beq_iff_eq (a := s.uid)) rfl
  refine ⟨rfl, h.single.replace hreplaces hloaded rfl rfl fun hnone => ?_,
    fun u hu => activeReviews_replace_of_ne hreplaces hloaded rfl hu⟩
  cases hnone

variable {ι : Type} [DecidableEq ι] {i : ι}

/-- By itself a call keeps the reviews in order, and the aggregates of other spots. -/
theorem lone_orderedBut (call : ReviewCall) (h : ReviewsInOrder db) (hloaded : call.Loaded db) :
    Lone i (Sees i db [] db) (call.program cfg be now) fun _ s =>
      OrderedBut call.spotUid db s.db := by
  have herror : ∀ (s : State ι), Holds i db [] s → OrderedBut call.spotUid db s.db := by
    intro s hs
    rw [hs.db_eq]
    exact h.orderedBut _
  -- after the commit the tables are what they are
  have hafter : ∀ {d' : Db}, OrderedBut call.spotUid db d' → ∀ s : State ι, Sees i d' [] d' s →
      OrderedBut call.spotUid db s.db := by
    intro d' hd' s hs
    rw [hs.holds.db_eq]
    exact hd'
  cases call with
  | create reviewUid spotUid userUid rating content =>
      simp only [program, createReview, getActiveReview, Prog.bind_eq_bind, Prog.bind_assoc]
      apply Lone.bind_ok (Lone.read fun d : Db =>
        d.reviews.rows.find? fun r => r.activeOf spotUid && r.userId == userUid)
      cases db.reviews.rows.find? fun r => r.activeOf spotUid && r.userId == userUid with
      | some review => exact Lone.raise _ fun s hs => herror s hs.holds
      | none =>
          dsimp only
          simp only [Prog.bind_assoc]
          apply Lone.statement_bind
          · intro _ d₁ hinsert
            obtain ⟨eff, heff, -, rfl⟩ := Stmt.ok_of_apply hinsert
            obtain ⟨hwrite, hinsertable⟩ := insertReviewRow_alone heff
            rw [hwrite]
            refine lone_recalculate (fun d' hreviews hrows => ?_) fun e s hs => herror s hs
            have hd' : OrderedBut spotUid db d' := by
              refine h.recalculated ?_
                (fun u hu => activeReviews_insert_of_ne hinsertable.fresh hu)
                (h.single.insert hinsertable) (fun r hr => ?_) hreviews hrows
              · rfl
              · rw [rows_insertReview hinsertable.fresh] at hr
                rcases List.mem_append.1 hr with hold | hnew
                · exact h.inScale r hold
                · rw [List.mem_singleton.1 hnew]
                  exact hinsertable.inScale
            apply Lone.bind_ok Lone.commit
            exact lone_tail (c := true) (fun review => Lone.ret _ fun s hs => hafter hd' s hs)
              fun e s hs => hafter hd' s hs
          · exact fun e _ s hs => herror s hs
  | update review data =>
      obtain ⟨hspots, hsingle, hothers, hsame⟩ := written_update now data h hloaded
      simp only [program, updateReview, Prog.bind_eq_bind, Prog.bind_assoc]
      refine lone_flushReview (fun hscale => ?_) fun e s hs => herror s hs
      have hend : ∀ {d' : Db}, OrderedBut review.spotUid db d' →
          Lone i (Sees i db [] d') (commit.bind fun _ =>
            (refreshReview review.uid).bind fun fresh =>
            (whenever (data.any ReviewAttr.isRating)
              (Cache.invalidateSpotDetail cfg review.spotUid)).bind fun _ =>
              (Prog.ret fresh : App SpotReview).bind fun _ => .ret ()) fun _ s =>
            OrderedBut review.spotUid db s.db := by
        intro d' hd'
        apply Lone.bind_ok Lone.commit
        exact lone_tail (fun fresh => Lone.ret _ fun s hs => hafter hd' s hs)
          fun e s hs => hafter hd' s hs
      cases hrating : data.any ReviewAttr.isRating with
      | true =>
          rw [hrating] at hend
          refine lone_recalculate (fun d' hreviews hrows => ?_) fun e s hs => herror s hs
          exact hend (h.recalculated hspots hothers hsingle (hscale h.inScale) hreviews hrows)
      | false =>
          rw [hrating] at hend
          obtain ⟨hordered, hkept⟩ :=
            h.rewritten hspots (hsame hrating) hsingle (hscale h.inScale)
          exact hend ⟨hordered, fun u _ => hkept u⟩
  | delete review =>
      obtain ⟨hspots, hsingle, hothers⟩ := written_delete now h hloaded
      simp only [program, softDeleteReview, Prog.bind_eq_bind]
      apply Lone.statement_bind
      · intro found d₁ hdelete
        obtain ⟨eff, heff, -, rfl⟩ := Stmt.ok_of_apply hdelete
        rcases updateReviewRow_eq_ok heff with ⟨-, hwrite, r, r', hr, hr', hscale⟩ | ⟨-, -, hnone⟩
        · rw [hwrite]
          refine lone_recalculate (fun d' hreviews hrows => ?_) fun e s hs => herror s hs
          have hd' : OrderedBut review.spotUid db d' :=
            h.recalculated hspots hothers hsingle (keepsScale_rewriteReview hr hr' hscale h.inScale)
              hreviews hrows
          apply Lone.bind_ok Lone.commit
          exact Lone.conseq (lone_bump cfg _ d' [] d') (fun _ hs => hs) fun r s hs =>
            hafter hd' s hs.2
        · rw [hloaded] at hnone
          cases hnone
      · exact fun e _ s hs => herror s hs

end ReviewCall

/-! ## Requests -/

section Requests

variable {ι : Type} [DecidableEq ι] {i : ι} {db : Db}

theorem lone_getCurrentUser (credentials : Credentials) :
    Lone i (Sees i db [] db) (getCurrentUser credentials) (HasRead i db fun _ => True) := by
  cases credentials with
  | access sub =>
      apply Lone.bind_ok (Lone.read fun d : Db => d.users.find? sub)
      cases db.users.find? sub with
      | none => exact Lone.raise _ fun s hs => hs.holds
      | some user =>
          dsimp only
          split
          · exact Lone.ret _ fun s hs => ⟨trivial, hs⟩
          · exact Lone.raise _ fun s hs => hs.holds
  | missing => exact Lone.raise _ fun s hs => hs.holds
  | invalid => exact Lone.raise _ fun s hs => hs.holds
  | otherType => exact Lone.raise _ fun s hs => hs.holds

theorem lone_findPublicSpot (cfg : Settings) (spotUid : String) :
    Lone i (Sees i db [] db) (SpotReviews.findPublicSpot cfg spotUid)
      (HasRead i db fun spot => spot.uid = spotUid) := by
  have hfind : Lone i (Sees i db [] db) (getSpotByUid cfg spotUid true)
      (HasRead i db fun found => ∀ spot, found = some spot → spot.uid = spotUid) := by
    unfold getSpotByUid
    rw [if_pos rfl]
    cases applyExploreFilters cfg {} with
    | error e => exact Lone.raise _ fun s hs => hs.holds
    | ok shown =>
        refine Lone.conseq (Lone.read fun d : Db => (d.spots.find? spotUid).filter shown)
          (fun _ hs => hs) ?_
        rintro r s ⟨rfl, hs⟩
        refine ⟨fun spot hspot => ?_, hs⟩
        exact (Table.find?_eq_some.1 (Option.filter_eq_some_iff.1 hspot).1).2
  apply lone_read_bind hfind
  · intro found hfound
    cases found with
    | none => exact Lone.raise _ fun s hs => hs.holds
    | some spot => exact Lone.ret _ fun s hs => ⟨hfound spot rfl, hs⟩
  · exact fun _ _ hs => hs

theorem lone_findActiveReview (cfg : Settings) (spotUid reviewUid : String) :
    Lone i (Sees i db [] db) (SpotReviews.findActiveReview cfg spotUid reviewUid)
      (HasRead i db fun review =>
        db.reviews.find? review.uid = some review ∧ review.spotUid = spotUid) := by
  apply lone_read_bind (lone_findPublicSpot cfg spotUid)
  · intro spot huid
    apply Lone.bind_ok (Lone.read fun d : Db => d.reviews.find? reviewUid)
    cases hfound : db.reviews.find? reviewUid with
    | none => exact Lone.raise _ fun s hs => hs.holds
    | some review =>
        dsimp only
        split
        · rename_i hactive
          simp only [Bool.and_eq_true, beq_iff_eq] at hactive
          refine Lone.ret _ fun s hs => ⟨⟨?_, hactive.1.trans huid⟩, hs⟩
          rw [(Table.find?_eq_some.1 hfound).2, hfound]
        · exact Lone.raise _ fun s hs => hs.holds
  · exact fun _ _ hs => hs

end Requests

/-- The spot whose reviews a call writes. -/
def SpotCall.reviewedSpot : SpotCall → Option String
  | .createReview _ _ _ spotUid _ _ => some spotUid
  | .updateReview _ spotUid _ _ => some spotUid
  | .deleteReview _ spotUid _ => some spotUid
  | _ => none

/-- The request of a review's call, by itself. -/
theorem lone_reviewRequest {ι : Type} [DecidableEq ι] {i : ι} (cfg : Settings) (be : Backend)
    (now : Timestamp) {call : SpotCall} {u : String} (hcall : call.reviewedSpot = some u) {db : Db}
    (h : ReviewsInOrder db) :
    Lone i (Sees i db [] db) (call.body cfg be now) fun _ s => OrderedBut u db s.db := by
  have herror : ∀ s : State ι, Holds i db [] s → OrderedBut u db s.db := by
    intro s hs
    rw [hs.db_eq]
    exact h.orderedBut u
  cases call with
  | createReview peer credentials reviewUid spotUid rating content =>
      cases hcall
      simp only [SpotCall.body, SpotReviews.createReview, withRateLimit, Prog.bind_eq_bind,
        Prog.bind_assoc]
      refine lone_readOnly_bind (readOnly_checkRateLimit _ _ _) (fun _ => ?_) fun _ => herror
      apply lone_read_bind (lone_findPublicSpot cfg u) _ fun _ => herror
      intro spot huid
      apply lone_read_bind (lone_getCurrentUser credentials) _ fun _ => herror
      intro user _
      have hwrite : Lone i (Sees i db [] db)
          ((ReviewCall.create reviewUid spot.uid user.uid rating content).program cfg be now)
          fun _ s => OrderedBut spot.uid db s.db := ReviewCall.lone_orderedBut _ h trivial
      rw [huid] at hwrite
      rw [huid]
      exact hwrite
  | updateReview credentials spotUid reviewUid data =>
      cases hcall
      simp only [SpotCall.body, SpotReviews.updateReview, Prog.bind_eq_bind, Prog.bind_assoc]
      apply lone_read_bind (lone_findActiveReview cfg u reviewUid) _ fun _ => herror
      rintro review ⟨hloaded, hspot⟩
      apply lone_read_bind (lone_getCurrentUser credentials) _ fun _ => herror
      intro user _
      split
      · exact Lone.raise _ fun s hs => herror s hs.holds
      · have hwrite : Lone i (Sees i db [] db)
            ((ReviewCall.update review data).program cfg be now)
            fun _ s => OrderedBut review.spotUid db s.db := ReviewCall.lone_orderedBut _ h hloaded
        rw [hspot] at hwrite
        exact hwrite
  | deleteReview credentials spotUid reviewUid =>
      cases hcall
      simp only [SpotCall.body, SpotReviews.deleteReview, Prog.bind_eq_bind]
      apply lone_read_bind (lone_findActiveReview cfg u reviewUid) _ fun _ => herror
      rintro review ⟨hloaded, hspot⟩
      apply lone_read_bind (lone_getCurrentUser credentials) _ fun _ => herror
      intro user _
      split
      · exact Lone.raise _ fun s hs => herror s hs.holds
      · have hwrite : Lone i (Sees i db [] db)
            ((ReviewCall.delete review).program cfg be now)
            fun _ s => OrderedBut review.spotUid db s.db := ReviewCall.lone_orderedBut _ h hloaded
        rw [hspot] at hwrite
        exact hwrite
  | _ => cases hcall

/-! ## Runs -/

/-- The calls of a review, and those that write a spot only. -/
def SpotCall.isReviewOrSpot (call : SpotCall) : Bool :=
  call.reviewedSpot.isSome || call.writesSpotOnly

/-- One call keeps the reviews in order, and a review's call the aggregates of other spots. -/
theorem TimedCall.Serves.ordered {cfg : Settings} {be : Backend} {x : TimedCall}
    {r : Except Exc Unit} {s s' : State Unit} (h : x.Serves cfg be r s s') (hs : Between s)
    (hx : x.call.isReviewOrSpot = true) (hordered : ReviewsInOrder s.db) :
    ReviewsInOrder s'.db ∧ ∀ u, x.call.reviewedSpot = some u → ∀ u', u' ≠ u →
      SameAggregates u' s.db s'.db := by
  cases hspot : x.call.reviewedSpot with
  | none =>
      rw [SpotCall.isReviewOrSpot, hspot, Option.isSome_none, Bool.false_or] at hx
      exact ⟨(h.leavesAggregates hs hx).ordered hordered, fun u hu => by cases hu⟩
  | some u =>
      have hbody : Lone () (Sees () s.db [] s.db) (x.call.body cfg be x.now) fun _ t =>
          OrderedBut u s.db t.db := lone_reviewRequest cfg be x.now hspot hordered
      have hprogram : x.call.program cfg be x.now = withSession (x.call.body cfg be x.now) := by
        obtain ⟨now, call⟩ := x
        cases call with
        | workerCycle newUid => cases hspot
        | _ => rfl
      obtain ⟨r', s'', hrun, -, hends⟩ := lone_withSession (Q := fun _ d => OrderedBut u s.db d)
        hbody s hs.sees
      rw [Serves, hprogram] at h
      have hsame : some (r', s'') = some (r, s') := hrun.symm.trans h
      cases hsame
      refine ⟨hends.1, fun u' hu' => ?_⟩
      cases hu'
      exact hends.2

/-- In every run of such calls one after another, the reviews stay in order: every spot holds the
number of its reviews that are not deleted and the exact mean of their ratings, within the scale,
and no user has two reviews of a spot. A call that writes a review leaves the aggregates of other
spots. -/
theorem aggregates_kept {cfg : Settings} {be : Backend} {xs : List TimedCall} {x : TimedCall}
    {s s₁ s₂ : State Unit} (hs : Between s) (hordered : ReviewsInOrder s.db)
    (hcalls : ∀ y ∈ xs ++ [x], y.call.isReviewOrSpot = true)
    (hrun : Turns (TimedCall.Served cfg be) xs s s₁) (hx : x.Served cfg be s₁ s₂) :
    ReviewsInOrder s₁.db ∧ ReviewsInOrder s₂.db ∧
      (∀ row ∈ s₂.db.spots.rows, 0 ≤ row.ratingAvg ∧ row.ratingAvg ≤ 10) ∧
      ∀ u, x.call.reviewedSpot = some u → ∀ u', u' ≠ u → SameAggregates u' s₁.db s₂.db := by
  obtain ⟨hbetween, hbefore⟩ : Between s₁ ∧ ReviewsInOrder s₁.db := by
    refine hrun.invariant (I := fun t => Between t ∧ ReviewsInOrder t.db) ?_ ⟨hs, hordered⟩
    rintro y hy a b ⟨r, hserves⟩ ⟨ha, hordered⟩
    exact ⟨hserves.between,
      (hserves.ordered ha (hcalls y (List.mem_append_left _ hy)) hordered).1⟩
  obtain ⟨r, hserves⟩ := hx
  obtain ⟨hafter, hothers⟩ := hserves.ordered hbetween
    (hcalls x (List.mem_append_right _ (List.mem_singleton_self x))) hbefore
  exact ⟨hbefore, hafter, fun row hrow => hafter.mean_inScale hrow, hothers⟩

namespace Sample

/-- A spot without reviews, and a user who may write one. -/
def unreviewed : Db :=
  { Db.empty with
    spots := ⟨[spot "unreviewed"], List.nodup_singleton _⟩
    users := ⟨[user "reviewer"], List.nodup_singleton _⟩ }

/-- The user gives the spot seven of ten. -/
def firstReview : TimedCall := ⟨0, .createReview {} (.access "reviewer") "r" "unreviewed" 7 none⟩

end Sample

/-- The first review of a spot gives it its rating. -/
theorem aggregates_kept_first : ∃ s : State Unit,
    Sample.firstReview.Served Sample.settings Sample.backend (World.fresh Sample.unreviewed) s ∧
    ReviewsInOrder s.db ∧ (s.db.spots.find? "unreviewed").map Spot.aggregates = some (7, 1) := by
  have hrun : (runAlone (fun i => exec i) () (Sample.firstReview.call.program Sample.settings
      Sample.backend 0) (World.fresh Sample.unreviewed : State Unit)).any (fun out =>
        (out.2.db.spots.find? "unreviewed").map Spot.aggregates = some (7, 1)) = true := by
    decide +kernel
  obtain ⟨⟨r, s⟩, hout, haggregates⟩ := (Option.any_eq_true _ _).1 hrun
  have hordered : ReviewsInOrder Sample.unreviewed := by
    refine ⟨⟨fun row hrow => ?_, fun row hrow => ?_⟩, fun a ha => ?_, fun a ha => ?_⟩
    · rw [List.mem_singleton.1 hrow]
      rfl
    · have hnone : activeReviews row.uid Sample.unreviewed = [] := rfl
      rw [hnone, List.mem_singleton.1 hrow]
      simp [meanRating, Sample.spot]
    · exact absurd ha List.not_mem_nil
    · exact absurd ha List.not_mem_nil
  have hserved : Sample.firstReview.Served Sample.settings Sample.backend
      (World.fresh Sample.unreviewed) s := ⟨r, hout⟩
  have hcalls : ∀ y ∈ [] ++ [Sample.firstReview], y.call.isReviewOrSpot = true := by
    intro y hy
    rw [List.mem_singleton.1 hy]
    rfl
  have hstart : Between (World.fresh Sample.unreviewed : State Unit) := rfl
  obtain ⟨-, hafter, -, -⟩ := aggregates_kept hstart hordered hcalls (.nil _) hserved
  exact ⟨s, hserved, hafter, by simpa using haggregates⟩

end Vivac
