import Vivac.Images.Registrations
import Vivac.Lib.OwnCommits
import Vivac.Reviews.SerialRuns

/-!
# Aggregates among concurrent calls

Any number of calls that write reviews of one spot, interleaved statement by statement. A call
aggregates the reviews that its session sees, and writes what it found as constants when it commits:
a review committed between the two is not in the aggregates (`aggregates_miss_review`). The lock of
the spot's row does not help, since it is taken after the reviews are read.

When no call commits aggregates that others have outdated, the spot's aggregates are right in every
committed state (`aggregates_right`).
-/

set_option autoImplicit false

namespace Vivac

open Lib App

/-! ## What aggregates are made of -/

/-- What of a review concerns the aggregates. -/
def SpotReview.skeleton (r : SpotReview) : String × String × ℤ × Bool :=
  (r.uid, r.spotUid, r.rating, r.deletedAt.isNone)

/-- What of the reviews concerns the aggregates. -/
def skeletons (d : Db) : List (String × String × ℤ × Bool) :=
  d.reviews.rows.map SpotReview.skeleton

/-- The spot's aggregates are right. -/
def RightFor (u : String) (d : Db) : Prop :=
  ∀ s, d.spots.find? u = some s → s.reviewCount = (activeReviews u d).length ∧
    s.ratingAvg = meanRating (activeReviews u d)

section Skeletons

variable {d d' : Db}

/-- A list read through a map, of which equal parts go on equally. -/
theorem map_congr_of_map {α β γ : Type} {f : α → β} {g : α → γ}
    (hfg : ∀ a a', f a = f a' → g a = g a') {l l' : List α} (h : l.map f = l'.map f) :
    l.map g = l'.map g := by
  induction l generalizing l' with
  | nil =>
      rw [List.map_nil] at h
      rw [List.map_eq_nil_iff.1 h.symm]
  | cons a l ih =>
      cases l' with
      | nil => cases h
      | cons a' l' =>
          rw [List.map_cons, List.map_cons, List.cons.injEq] at h
          rw [List.map_cons, List.map_cons, hfg a a' h.1, ih h.2]

/-- The ratings of the reviews of a spot that are not deleted are read off the skeletons. -/
theorem ratings_of_skeletons (u : String) (d : Db) :
    (activeReviews u d).map (fun r => (r.rating : ℚ)) =
      ((skeletons d).filter fun k => k.2.1 == u && k.2.2.2).map fun k => (k.2.2.1 : ℚ) := by
  show (d.reviews.rows.filter _).map _ = _
  rw [skeletons, List.filter_map, List.map_map]
  rfl

/-- Equal skeletons have equal aggregates. -/
theorem aggregates_congr (u : String) (h : skeletons d = skeletons d') :
    (activeReviews u d).length = (activeReviews u d').length ∧
      meanRating (activeReviews u d) = meanRating (activeReviews u d') := by
  have hratings : (activeReviews u d).map (fun r => (r.rating : ℚ)) =
      (activeReviews u d').map fun r => (r.rating : ℚ) := by
    rw [ratings_of_skeletons, ratings_of_skeletons, h]
  have hlength : (activeReviews u d).length = (activeReviews u d').length := by
    have hcount := congrArg List.length hratings
    rwa [List.length_map, List.length_map] at hcount
  exact ⟨hlength, by rw [meanRating, meanRating, hratings, hlength]⟩

theorem RightFor.congr {u : String} (h : RightFor u d) (hskeletons : skeletons d' = skeletons d)
    (hspots : d'.spots = d.spots) : RightFor u d' := by
  obtain ⟨hlength, hmean⟩ := aggregates_congr u hskeletons
  intro s hs
  rw [hspots] at hs
  rw [hlength, hmean]
  exact h s hs

end Skeletons

/-! ## Writes -/

/-- A write of the reviews whose skeletons depend on the skeletons only. -/
structure WritesReviews (f : Db → Db) : Prop where
  spots : ∀ d, (f d).spots = d.spots
  skeletons : ∀ {d d'}, skeletons d = skeletons d' → skeletons (f d) = skeletons (f d')

theorem writesReviews_id : WritesReviews id := ⟨fun _ => rfl, id⟩

theorem writesReviews_insert (r : SpotReview) : WritesReviews (insertReview r) where
  spots _ := rfl
  skeletons := by
    intro d d' h
    have huids : d.reviews.rows.map SpotReview.uid = d'.reviews.rows.map SpotReview.uid :=
      map_congr_of_map (fun a a' ha => congrArg Prod.fst ha) h
    simp only [Vivac.skeletons, insertReview, Table.insert, huids] at h ⊢
    split
    · exact h
    · rw [List.map_append, List.map_append, h]

theorem writesReviews_rewrite {uid : String} {f : Rewrite SpotReview.uid}
    (hf : ∀ a a', a.skeleton = a'.skeleton →
      ((f.apply a).getD a).skeleton = ((f.apply a').getD a').skeleton) :
    WritesReviews (rewriteReview uid f) where
  spots _ := rfl
  skeletons := by
    intro d d' h
    simp only [Vivac.skeletons, rewriteReview, Table.rewrite, Table.rows_update, List.map_map]
    refine map_congr_of_map (fun a a' ha => ?_) h
    have huid : a.uid = a'.uid := congrArg Prod.fst ha
    simp only [Function.comp_apply, huid]
    split
    · exact hf a a' ha
    · exact ha

/-- What a partial update makes of a review's skeleton depends on that only. -/
theorem skeleton_setAll {as : List ReviewAttr} {a a' : SpotReview} (h : a.skeleton = a'.skeleton) :
    (ReviewAttr.setAll as a).map SpotReview.skeleton =
      (ReviewAttr.setAll as a').map SpotReview.skeleton := by
  induction as generalizing a a' with
  | nil => exact congrArg some h
  | cons x as ih =>
      simp only [SpotReview.skeleton, Prod.mk.injEq] at h
      obtain ⟨huid, hspot, hrating, hdeleted⟩ := h
      cases x with
      | rating v =>
          cases v with
          | none => rfl
          | some v => exact ih (by simp [SpotReview.skeleton, huid, hspot, hdeleted])
      | content v => exact ih (by simp [SpotReview.skeleton, huid, hspot, hrating, hdeleted])

theorem writesReviews_setReview (now : Timestamp) (uid : String) (data : List ReviewAttr) :
    WritesReviews (rewriteReview uid (setReview now data)) := by
  apply writesReviews_rewrite
  intro a a' ha
  have hset : (ReviewAttr.setAll data a).map SpotReview.skeleton =
      (ReviewAttr.setAll data a').map SpotReview.skeleton := skeleton_setAll ha
  simp only [setReview]
  cases hnew : ReviewAttr.setAll data a with
  | none =>
      rw [hnew, Option.map_none] at hset
      rw [Option.map_eq_none_iff.1 hset.symm]
      exact ha
  | some t =>
      rw [hnew, Option.map_some] at hset
      obtain ⟨t', ht', hsame⟩ := Option.map_eq_some_iff.1 hset.symm
      rw [ht']
      exact hsame.symm

/-- A partial update without a rating leaves the skeletons. -/
theorem skeletons_setReview {now : Timestamp} {uid : String} {data : List ReviewAttr}
    (h : data.any ReviewAttr.isRating = false) (d : Db) :
    skeletons (rewriteReview uid (setReview now data) d) = skeletons d := by
  simp only [skeletons, rewriteReview, Table.rewrite, Table.rows_update, List.map_map]
  refine List.map_congr_left fun r _ => ?_
  rw [Function.comp_apply]
  split
  · cases hnew : (setReview now data).apply r with
    | none => rfl
    | some r' =>
        obtain ⟨t, ht, rfl⟩ := Option.map_eq_some_iff.1 hnew
        obtain ⟨huid, hspot, hdeleted⟩ := ReviewAttr.keeps_of_setAll ht
        have hrating := (keeps_of_review_setAll ht).2 h
        simp [SpotReview.skeleton, huid, hspot, hdeleted, hrating]
  · rfl

/-- The aggregates of what a write leaves, written over: they are right wherever the skeletons
before the write are the same. -/
theorem rightFor_of_aggregated {u : String} {f : Db → Db} (hf : WritesReviews f) {seen d : Db}
    (hskeletons : skeletons d = skeletons seen) (now : Timestamp) {uids : List String}
    (hu : u ∈ uids) :
    RightFor u (rewriteSpots uids (.total (fun s =>
      { s with
        ratingAvg := (aggregateReviews u (f seen)).1.getD 0
        reviewCount := (aggregateReviews u (f seen)).2
        updatedAt := some now }) fun _ => rfl) (f d)) := by
  obtain ⟨hlength, hmean⟩ := aggregates_congr u (hf.skeletons hskeletons)
  intro s hs
  rw [find?_rewriteSpots] at hs
  obtain ⟨t, -, rfl⟩ := Option.map_eq_some_iff.1 hs
  rw [if_pos hu]
  refine ⟨?_, ?_⟩
  · have hcount : ((activeReviews u (f seen)).length : ℤ) = (activeReviews u (f d)).length := by
      rw [hlength]
    exact hcount
  · have havg : (aggregateReviews u (f seen)).1.getD 0 = meanRating (activeReviews u (f d)) := by
      rw [aggregateReviews_mean, hmean]
    exact havg

/-! ## What a call commits -/

/-- The call writes the aggregates of its spot. -/
def SpotCall.recalculates : SpotCall → Bool
  | .createReview _ _ _ _ _ _ => true
  | .updateReview _ _ _ data => data.any ReviewAttr.isRating
  | .deleteReview _ _ _ => true
  | _ => false

/-- A call commits aggregates, which are right where the skeletons are still those that its
aggregating statement met, the last but one; or it commits no change of them. -/
inductive CommitsRight (u : String) (recalculates : Bool) (w : Work Db RowKey Change)
    (seen : List Db) (commits : List (List Change)) : Prop
  | aggregated (h : recalculates = true) (d : Db) (hseen : seen[1]? = some d)
      (hright : ∀ d', skeletons d' = skeletons d → RightFor u (w.write d'))
  | textOnly (hskeletons : ∀ d, skeletons (w.write d) = skeletons d)
      (hspots : ∀ d, (w.write d).spots = d.spots)

/-- The spot is there. -/
def Found (u : String) (d : Db) : Prop := (d.spots.find? u).isSome = true

section Calls

variable {u : String} {recalculates : Bool} {cfg : Settings} {be : Backend} {now : Timestamp}
  {o : Own Db RowKey Change} {α : Type}

theorem quiet_refreshReview (uid : String) : (refreshReview uid).Uses Command.Quiet := by
  refine Prog.Uses.bind (Prog.uses_perform trivial) fun found => ?_
  cases found <;> trivial

/-- The aggregates of what is written are committed. -/
theorem warrants_recalculate {k : Unit → App α} (hrecalculates : recalculates = true)
    (hwrite : ∀ w, o.work = some w → WritesReviews w.write)
    (hk : ∀ x, (k x).Uses Command.Quiet) :
    Warrants (Found u) (CommitsRight u recalculates) (Returns fun _ _ => True)
      ((recalculateSpotRating be now u).bind fun _ => commit.bind k) o := by
  unfold recalculateSpotRating
  simp only [Prog.bind_eq_bind, Prog.bind_assoc]
  apply Warrants.read allows_returns
  rintro w hw d -
  apply Warrants.sql allows_returns
  rintro w' hw' locked d₁ hfound eff heff
  cases hw'
  have hf := hwrite w hw
  have hu : u ∈ ((w.write d₁).spots.select fun s => s.uid == u).map Spot.uid := by
    obtain ⟨s, hs⟩ := Option.isSome_iff_exists.1 hfound
    obtain ⟨hmem, huid⟩ := Table.find?_eq_some.1 hs
    rw [hf.spots]
    exact List.mem_map.2 ⟨s, Table.mem_select.2 ⟨hmem, beq_iff_eq.2 huid⟩, huid⟩
  rw [updateSpots_eq_ok heff]
  apply Warrants.commit allows_returns rfl
  · refine .aggregated hrecalculates d rfl fun d' hd' => ?_
    exact rightFor_of_aggregated hf hd' now hu
  · exact warrants_of_quiet (hk _)

/-- The pairs of an update that change the loaded review. -/
def changedPairs (review : SpotReview) (data : List ReviewAttr) : List ReviewAttr :=
  data.filter fun a => !a.unchanged review

/-- The flush of a loaded review has written its changed pairs, or nothing. -/
theorem warrants_flushReview {review : SpotReview} {data : List ReviewAttr} {k : Unit → App α}
    (ho : Unwritten o)
    (hk : ∀ o', (∀ w, o'.work = some w → w.write = id ∨
        w.write = rewriteReview review.uid (setReview now (changedPairs review data))) →
      Warrants (Found u) (CommitsRight u recalculates) (Returns fun _ _ => True) (k ()) o') :
    Warrants (Found u) (CommitsRight u recalculates) (Returns fun _ _ => True)
      ((flushReview now review data).bind k) o := by
  unfold flushReview
  dsimp only
  split
  · exact hk o fun w hw => .inl (ho w hw)
  · split
    · simp only [Prog.bind_eq_bind, Prog.bind_assoc]
      apply Warrants.sql allows_returns
      rintro w hw locked d - eff heff
      have hid : w.write = id := ho w hw
      rcases updateReviewRow_eq_ok heff with ⟨htrue, hwrite, -⟩ | ⟨hfalse, -, -⟩
      · rw [htrue]
        apply hk
        rintro w' hw'
        cases hw'
        right
        show eff.write ∘ w.write = _
        rw [hid, hwrite]
        rfl
      · rw [hfalse]
        trivial
    · trivial

/-- What a review's call commits. -/
theorem warrants_reviewCall (call : ReviewCall) (hspot : call.spotUid = u) (ho : Unwritten o) :
    Warrants (Found u) (CommitsRight u call.recalculates) (Returns fun _ _ => True)
      (call.program cfg be now) o := by
  cases hspot
  have htail : ∀ reviewUid c spotUid, ((refreshReview reviewUid).bind fun review =>
      (whenever c (Cache.invalidateSpotDetail cfg spotUid)).bind fun _ =>
        (Prog.ret review : App SpotReview).bind fun _ => (.ret () : App Unit)).Uses
          Command.Quiet := by
    intro reviewUid c spotUid
    apply (quiet_refreshReview reviewUid).bind
    intro review
    apply Prog.Uses.bind (Admits.whenever (quiet_bump cfg _))
    intro _
    trivial
  cases call with
  | create reviewUid spotUid userUid rating content =>
      simp only [ReviewCall.program, createReview, getActiveReview, Prog.bind_eq_bind,
        Prog.bind_assoc]
      apply Warrants.read allows_returns
      rintro w hw d -
      split
      · trivial
      · simp only [Prog.bind_assoc]
        apply Warrants.sql allows_returns
        rintro w' hw' locked d₁ - eff heff
        cases hw'
        refine warrants_recalculate rfl (fun w' hw' => ?_) fun _ => htail reviewUid true spotUid
        cases hw'
        have hwrite : eff.write = id ∨ eff.write = insertReview
            { uid := reviewUid, spotUid := spotUid, userId := userUid, rating := rating,
              content := content, createdAt := some now, updatedAt := some now } := by
          rcases insertReviewRow_eq_ok heff with ⟨uid, -, rfl⟩ | ⟨-, rfl⟩
          · exact .inl rfl
          · exact .inr rfl
        -- the first statement of the session: nothing was written before it
        have hid : w.write = id := ho w hw
        show WritesReviews (eff.write ∘ w.write)
        rw [hid]
        rcases hwrite with hsame | hinsert
        · rw [hsame]
          exact writesReviews_id
        · rw [hinsert]
          exact writesReviews_insert _
  | update review data =>
      simp only [ReviewCall.program, updateReview, Prog.bind_eq_bind, Prog.bind_assoc]
      apply warrants_flushReview ho
      intro o' hwritten
      -- only a rating that is sent makes the call recalculate, be it the same as before
      cases hrating : data.any ReviewAttr.isRating with
      | true =>
          refine warrants_recalculate hrating (fun w hw => ?_)
            fun _ => htail review.uid true review.spotUid
          rcases hwritten w hw with hid | hwrite
          · rw [hid]
            exact writesReviews_id
          · rw [hwrite]
            exact writesReviews_setReview now _ _
      | false =>
          obtain ⟨work, seen, commits⟩ := o'
          cases work with
          | none => exact ⟨warrants_of_quiet (htail _ _ _), trivial⟩
          | some w =>
              apply Warrants.commit allows_returns rfl _
                (warrants_of_quiet (htail review.uid false review.spotUid))
              rcases hwritten w rfl with hid | hwrite
              · refine .textOnly (fun d => ?_) fun d => ?_
                · rw [hid]
                  rfl
                · rw [hid]
                  rfl
              · have hnone : (changedPairs review data).any ReviewAttr.isRating = false := by
                  rw [List.any_eq_false] at hrating ⊢
                  exact fun a ha => hrating a (List.mem_filter.1 ha).1
                refine .textOnly (fun d => ?_) fun d => ?_
                · rw [hwrite]
                  exact skeletons_setReview hnone d
                · rw [hwrite]
                  rfl
  | delete review =>
      simp only [ReviewCall.program, softDeleteReview, Prog.bind_eq_bind]
      apply Warrants.sql allows_returns
      rintro w hw locked d - eff heff
      refine warrants_recalculate rfl (fun w' hw' => ?_) fun _ => quiet_bump cfg _
      cases hw'
      have hid : w.write = id := ho w hw
      show WritesReviews (eff.write ∘ w.write)
      rw [hid]
      rcases updateReviewRow_eq_ok heff with ⟨-, hwrite, -⟩ | ⟨-, hwrite, -⟩
      · rw [hwrite]
        apply writesReviews_rewrite
        intro a a' ha
        simp only [SpotReview.skeleton, Prod.mk.injEq] at ha
        simp [SpotReview.skeleton, Rewrite.total, ha.1, ha.2.1, ha.2.2.1]
      · rw [hwrite]
        exact writesReviews_id

/-- The search for the public spot reads it under its uid. -/
theorem warrants_findPublicSpot {A : Db → Prop} {F : CommitFact Db RowKey Change} {spotUid : String}
    {k : Spot → App α} {M : α → Own Db RowKey Change → Prop} (ho : Unwritten o)
    (hk : ∀ spot o', spot.uid = spotUid → Unwritten o' → Warrants A F (Returns M) (k spot) o') :
    Warrants A F (Returns M) ((SpotReviews.findPublicSpot cfg spotUid).bind k) o := by
  unfold SpotReviews.findPublicSpot getSpotByUid
  rw [if_pos rfl]
  simp only [Prog.bind_eq_bind, Prog.bind_assoc]
  apply Warrants.ofExcept allows_returns
  rintro shown -
  apply Warrants.read allows_returns
  rintro w hw d -
  cases hfound : ((w.write d).spots.find? spotUid).filter shown with
  | none => trivial
  | some spot =>
      apply hk
      · exact (Table.find?_eq_some.1 (Option.filter_eq_some_iff.1 hfound).1).2
      · rintro w' hw'
        cases hw'
        exact ho w hw

/-- The search for the review finds one of the spot. -/
theorem warrants_findActiveReview {A : Db → Prop} {F : CommitFact Db RowKey Change}
    {spotUid reviewUid : String} {k : SpotReview → App α} {M : α → Own Db RowKey Change → Prop}
    (ho : Unwritten o) (hk : ∀ review o', review.spotUid = spotUid → Unwritten o' →
      Warrants A F (Returns M) (k review) o') :
    Warrants A F (Returns M) ((SpotReviews.findActiveReview cfg spotUid reviewUid).bind k) o := by
  unfold SpotReviews.findActiveReview getReviewByUid
  simp only [Prog.bind_eq_bind, Prog.bind_assoc]
  apply warrants_findPublicSpot ho
  intro spot o₁ huid ho₁
  apply Warrants.read allows_returns
  rintro w hw d -
  split
  · rename_i review _
    split
    · rename_i hactive
      simp only [Bool.and_eq_true, beq_iff_eq] at hactive
      apply hk review _ (hactive.1.trans huid)
      rintro w' hw'
      cases hw'
      exact ho₁ w hw
    · trivial
  · trivial

/-- What a request that writes a review commits. -/
theorem warrants_reviewRequest (call : SpotCall) (hspot : call.reviewedSpot = some u) :
    Warrants (Found u) (CommitsRight u call.recalculates) (Returns fun _ _ => True)
      (call.program cfg be now) {} := by
  have hnew : Unwritten ({} : Own Db RowKey Change) := by
    rintro w hw
    cases hw
    rfl
  cases call with
  | createReview peer credentials reviewUid spotUid rating content =>
      cases hspot
      apply warrants_request
      simp only [SpotCall.body, SpotReviews.createReview, withRateLimit, Prog.bind_eq_bind,
        Prog.bind_assoc]
      apply warrants_readOnly_bind (readOnly_checkRateLimit _ _ _) hnew
      intro _ o₀ ho₀
      apply warrants_findPublicSpot ho₀
      intro spot o₁ huid ho₁
      apply warrants_readOnly_bind (readOnly_getCurrentUser credentials) ho₁
      intro user o₂ ho₂
      exact warrants_reviewCall (.create reviewUid spot.uid user.uid rating content) huid ho₂
  | updateReview credentials spotUid reviewUid data =>
      cases hspot
      apply warrants_request
      simp only [SpotCall.body, SpotReviews.updateReview, Prog.bind_eq_bind, Prog.bind_assoc]
      apply warrants_findActiveReview hnew
      intro review o₁ huid ho₁
      apply warrants_readOnly_bind (readOnly_getCurrentUser credentials) ho₁
      intro user o₂ ho₂
      split
      · trivial
      · exact warrants_reviewCall (.update review data) huid ho₂
  | deleteReview credentials spotUid reviewUid =>
      cases hspot
      apply warrants_request
      simp only [SpotCall.body, SpotReviews.deleteReview, Prog.bind_eq_bind]
      apply warrants_findActiveReview hnew
      intro review o₁ huid ho₁
      apply warrants_readOnly_bind (readOnly_getCurrentUser credentials) ho₁
      intro user o₂ ho₂
      split
      · trivial
      · exact warrants_reviewCall (.delete review) huid ho₂
  | _ => cases hspot

end Calls

/-! ## All calls -/

section Pool

variable {ι : Type} [DecidableEq ι]

/-- The step commits aggregates only while the reviews are still those that the aggregating
statement met, as far as they concern aggregates. -/
def AggregatesStand (calls : ι → TimedCall) (i : ι) (s s' : State ι) : Prop :=
  (calls i).call.recalculates = true → s'.commits i ≠ s.commits i →
    ∀ d ∈ (s.seen i)[1]?, skeletons s.db = skeletons d

variable {cfg : Settings} {be : Backend} {u : String} {calls : ι → TimedCall}
  {c c' : Config ι Exc Command (State ι) Unit}

/-- No call removes the spot. -/
theorem found_of_run {ok : ι → State ι → State ι → Prop} (hidle : Idle c.state)
    (hcalls : ∀ i, (calls i).call.reviewedSpot = some u)
    (hthreads : ∀ i, c.thread i = (calls i).call.program cfg be (calls i).now)
    (hfound : Found u c.state.db) (hrun : Run (sessions ok) c c') : Found u c'.state.db := by
  have hstart : AllTransit Unverified c.state.db c := by
    refine ⟨onCourse_of_idle Unverified.refl hidle.tx, fun i => ?_⟩
    have hnotDecay : (calls i).isDecay = false := by
      have hspot := hcalls i
      cases hcall : (calls i).call with
      | decay days =>
          rw [hcall] at hspot
          cases hspot
      | _ => simp [TimedCall.isDecay, hcall]
    rw [hthreads i]
    exact Transits.of_uses (SpotCall.uses_program admits_unverified cfg (calls i).call
      (unverified_writes be (calls i).now (calls i) hnotDecay))
  exact (hstart.run Unverified.refl Unverified.trans (Run.of_guarded hrun)).course.db.found u hfound

end Pool

/-- In every run in which aggregates are committed only while the reviews are those they were made
of, the aggregates of the spot are right in every committed state. -/
theorem aggregates_right {ι : Type} [DecidableEq ι] (cfg : Settings) (be : Backend) {u : String}
    {calls : ι → TimedCall} (hcalls : ∀ i, (calls i).call.reviewedSpot = some u)
    {c c' : Config ι Exc Command (State ι) Unit} (hidle : Idle c.state)
    (hthreads : ∀ i, c.thread i = (calls i).call.program cfg be (calls i).now)
    (hfound : Found u c.state.db) (hstart : RightFor u c.state.db)
    (hrun : Run (sessions (AggregatesStand calls)) c c') : RightFor u c'.state.db := by
  have hstrong : Run (sessions fun i s s' => AggregatesStand calls i s s' ∧ Found u s.db) c c' :=
    hrun.strengthen fun b hb i s' hok => ⟨hok, found_of_run hidle hcalls hthreads hfound hb⟩
  have hwarrant : AllWarrant (fun i => CommitsRight u (calls i).call.recalculates)
      (fun i s s' => AggregatesStand calls i s s' ∧ Found u s.db)
      (fun _ => Returns fun _ _ => True) c := by
    apply AllWarrant.of_idle (fun _ _ _ hok => hok.2) hidle
    intro i
    rw [hthreads i]
    exact warrants_reviewRequest (calls i).call (hcalls i)
  apply hwarrant.induct (J := fun d _ => RightFor u d) ?_ hstrong hstart
  intro i s s' hfact hok hdb hcommits hright
  rw [hdb]
  cases hfact with
  | aggregated hrecalculates d hseen hwritten =>
      apply hwritten
      apply hok.1 hrecalculates _ d hseen
      rw [hcommits, Function.update_self]
      simp
  | textOnly hskeletons hspots => exact hright.congr (hskeletons s.db) (hspots s.db)

instance decidableAggregatesStand {ι : Type} [DecidableEq ι] (calls : ι → TimedCall) (i : ι)
    (s s' : State ι) : Decidable (AggregatesStand calls i s s') :=
  inferInstanceAs (Decidable ((calls i).call.recalculates = true → s'.commits i ≠ s.commits i →
    ∀ d ∈ (s.seen i)[1]?, skeletons s.db = skeletons d))

namespace Sample

theorem nodup_reviewers : ([user "jin", user "sol"].map User.uid).Nodup := by
  decide

/-- A spot without reviews, and two users. -/
def twoReviewers : Db :=
  { Db.empty with
    spots := ⟨[spot "newcomer"], List.nodup_singleton _⟩
    users := ⟨[user "jin", user "sol"], nodup_reviewers⟩ }

/-- Each of the two users writes a review. -/
def twoReviews : Fin 2 → TimedCall
  | 0 => ⟨0, .createReview {} (.access "jin") "x" "newcomer" 4 none⟩
  | 1 => ⟨0, .createReview {} (.access "sol") "y" "newcomer" 8 none⟩

/-- A pool at its start. -/
def reviewing : Config (Fin 2) Exc Command (State (Fin 2)) Unit :=
  ⟨World.fresh twoReviewers, fun i => (twoReviews i).call.program settings backend 0⟩

theorem rightFor_twoReviewers : RightFor "newcomer" twoReviewers := by
  intro s hs
  have hnone : activeReviews "newcomer" twoReviewers = [] := rfl
  rw [hnone, List.mem_singleton.1 (Table.find?_eq_some.1 hs).1]
  simp [meanRating, spot]

/-- The aggregates of the spot, and how many reviews it has. -/
def ratedAs (d : Db) : Option (ℚ × ℤ) × ℕ :=
  ((d.spots.find? "newcomer").map Spot.aggregates, (activeReviews "newcomer" d).length)

end Sample

/-- One after the other, the two reviews are both in the aggregates. -/
theorem aggregates_right_two : ∃ c', Run (sessions (AggregatesStand Sample.twoReviews))
    Sample.reviewing c' ∧ RightFor "newcomer" c'.state.db ∧
    Sample.ratedAs c'.state.db = (some (6, 2), 2) := by
  have hrun : (follow (guardExec (fun i => exec i) (AggregatesStand Sample.twoReviews))
      (List.replicate 11 0 ++ List.replicate 11 1) Sample.reviewing).any (fun c =>
        Sample.ratedAs c.state.db = (some (6, 2), 2)) = true := by
    decide +kernel
  obtain ⟨c', hfollow, hrated⟩ := (Option.any_eq_true _ _).1 hrun
  have hguarded : Run (sessions (AggregatesStand Sample.twoReviews)) Sample.reviewing c' :=
    Run.of_guardExec (run_of_follow hfollow)
  have hcalls : ∀ i, (Sample.twoReviews i).call.reviewedSpot = some "newcomer" := by
    decide
  have hthreads : ∀ i, Sample.reviewing.thread i = (Sample.twoReviews i).call.program
      Sample.settings Sample.backend (Sample.twoReviews i).now := by
    intro i
    match i with
    | 0 => rfl
    | 1 => rfl
  refine ⟨c', hguarded, ?_, by simpa using hrated⟩
  exact aggregates_right Sample.settings Sample.backend hcalls (idle_fresh _) hthreads rfl
    Sample.rightFor_twoReviewers hguarded

/-- Both calls aggregate before either commits: the spot is left with one review too few, whose
rating is missing from the mean. -/
theorem aggregates_miss_review : ∃ c', Run platform Sample.reviewing c' ∧
    RightFor "newcomer" Sample.reviewing.state.db ∧
    (∀ i, (c'.thread i).outcome.map (fun r => r.isOk) = some true) ∧
    Sample.ratedAs c'.state.db = (some (8, 1), 2) ∧ ¬RightFor "newcomer" c'.state.db := by
  have hrun : (follow (fun i => exec i) (List.replicate 6 0 ++ List.replicate 6 1 ++
      List.replicate 5 0 ++ List.replicate 5 1) Sample.reviewing).any (fun c =>
        (∀ i, (c.thread i).outcome.map (fun r => r.isOk) = some true) ∧
          Sample.ratedAs c.state.db = (some (8, 1), 2)) = true := by
    decide +kernel
  obtain ⟨c', hrun', h⟩ := exists_run_of_schedule _ hrun
  obtain ⟨hended, hrated⟩ : (∀ i, (c'.thread i).outcome.map (fun r => r.isOk) = some true) ∧
      Sample.ratedAs c'.state.db = (some (8, 1), 2) := by simpa using h
  refine ⟨c', hrun', Sample.rightFor_twoReviewers, hended, hrated, fun hright => ?_⟩
  obtain ⟨hspot, hlength⟩ := Prod.mk.inj hrated
  obtain ⟨s, hs, hcounted⟩ := Option.map_eq_some_iff.1 hspot
  have hcount : s.reviewCount = 1 := congrArg Prod.snd hcounted
  have hboth := (hright s hs).1
  rw [hlength, hcount] at hboth
  cases hboth

end Vivac
