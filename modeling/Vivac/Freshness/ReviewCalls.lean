import Vivac.Core.CacheKeys
import Vivac.Core.Contracts
import Vivac.Crud.SpotReview
import Vivac.Pipeline.TimedCalls

/-!
# Calls that write a review

`create_review`, `update_review` and `soft_delete_review` in a session by themselves: what they
leave in the rows of the spots (`ReviewCall.Serves.leaves`), and that they touch no key of the cache
but the version of the spot's detail (`ReviewCall.Serves.redis_eq`).
-/

set_option autoImplicit false

namespace Vivac

open Lib App

/-- A call that writes a review; an update or a deletion has loaded it. -/
inductive ReviewCall where
  | create (reviewUid spotUid userUid : String) (rating : ℤ) (content : Option String)
  | update (review : SpotReview) (data : List ReviewAttr)
  | delete (review : SpotReview)

namespace ReviewCall

/-- The spot of the review. -/
def spotUid : ReviewCall → String
  | .create _ spotUid _ _ _ => spotUid
  | .update review _ => review.spotUid
  | .delete review => review.spotUid

/-- The call writes the aggregates of its spot. -/
def recalculates : ReviewCall → Bool
  | .update _ data => data.any ReviewAttr.isRating
  | _ => true

section Calls

variable (cfg : Settings) (be : Backend) (now : Timestamp)

def program : ReviewCall → App Unit
  | .create reviewUid spotUid userUid rating content =>
    (createReview cfg be now reviewUid spotUid userUid rating content).bind fun _ => .ret ()
  | .update review data => (updateReview cfg be now review data).bind fun _ => .ret ()
  | .delete review => softDeleteReview cfg be now review

/-- The call returns, from the one state to the other. -/
def Serves (call : ReviewCall) (s s' : State Unit) : Prop :=
  runAlone (fun i => exec i) () (withSession (call.program cfg be now)) s = some (.ok (), s')

theorem uid_deleted (r : SpotReview) :
    { r with deletedAt := some now, updatedAt := some now : SpotReview }.uid = r.uid := rfl

/-- The tables with the review written, before the aggregates are. -/
def written (d : Db) : ReviewCall → Db
  | .create reviewUid spotUid userUid rating content =>
    insertReview
      { uid := reviewUid, spotUid := spotUid, userId := userUid, rating := rating,
        content := content, createdAt := some now, updatedAt := some now } d
  | .update review data =>
    let changed := data.filter fun a => !a.unchanged review
    if changed.isEmpty then d
    else rewriteReview review.uid (setReview now changed) d
  | .delete review => rewriteReview review.uid
      (.total (fun r => { r with deletedAt := some now, updatedAt := some now })
        (uid_deleted now)) d

/-- The spot's row with the new aggregates. -/
def rated (call : ReviewCall) (d : Db) (s : Spot) : Spot :=
  let (avgRating, count) := aggregateReviews call.spotUid (call.written now d)
  { s with ratingAvg := avgRating.getD 0, reviewCount := count, updatedAt := some now }

/-- What the call makes of its spot's row. -/
def after (call : ReviewCall) (d : Db) (s : Spot) : Spot :=
  if call.recalculates then call.rated now d s else s

/-- The rows of the spots that the call leaves. -/
def rowsAfter (call : ReviewCall) (d : Db) : List Spot :=
  if call.recalculates then
    d.spots.rows.map fun s => if s.uid == call.spotUid then call.rated now d s else s
  else d.spots.rows

end Calls

variable {now : Timestamp} {call : ReviewCall} {d : Db}

theorem rowsAfter_eq : call.rowsAfter now d =
    d.spots.rows.map fun s => if s.uid == call.spotUid then call.after now d s else s := by
  unfold rowsAfter after
  split
  · rfl
  · simp only [ite_self, List.map_id']

/-- Rows of other spots stay. -/
theorem map_after_of_ne {rows : List Spot} (h : ∀ s ∈ rows, s.uid ≠ call.spotUid) :
    (rows.map fun s => if s.uid == call.spotUid then call.after now d s else s) = rows := by
  have hid : ∀ s ∈ rows, (if s.uid == call.spotUid then call.after now d s else s) = id s := by
    intro s hs
    rw [if_neg (by simp [h s hs])]
    rfl
  rw [List.map_congr_left hid, List.map_id]

/-- The rows around the spot's stay where they are. -/
theorem rowsAfter_split {l₁ l₂ : List Spot} {x : Spot} (hrows : d.spots.rows = l₁ ++ x :: l₂)
    (hothers : ∀ s ∈ l₁ ++ l₂, s.uid ≠ x.uid) (hx : x.uid = call.spotUid) :
    call.rowsAfter now d = l₁ ++ call.after now d x :: l₂ := by
  rw [hx] at hothers
  rw [rowsAfter_eq, hrows, List.map_append, List.map_cons,
    map_after_of_ne fun s hs => hothers s (List.mem_append_left _ hs),
    map_after_of_ne fun s hs => hothers s (List.mem_append_right _ hs), if_pos (by simp [hx])]

/-- The call changes the aggregates of the row only. -/
theorem after_eq (call : ReviewCall) (now : Timestamp) (d : Db) (x : Spot) :
    ∃ avg count updatedAt, call.after now d x =
    { x with ratingAvg := avg, reviewCount := count, updatedAt := updatedAt } := by
  unfold after rated
  split
  · exact ⟨_, _, _, rfl⟩
  · exact ⟨x.ratingAvg, x.reviewCount, x.updatedAt, rfl⟩

end ReviewCall

/-! ## The database -/

section Rows

variable {ι : Type} [DecidableEq ι] {i : ι} {cfg : Settings} {be : Backend} {now : Timestamp}

/-- The aggregates are written, or nothing more is done. -/
theorem lone_recalculate {α : Type} {db d : Db} {ds : List Db} {spotUid : String} {k : App α}
    {Q : Except Exc α → State ι → Prop}
    (hk : ∀ d', d'.reviews = d.reviews → d'.spots.rows = d.spots.rows.map (fun s =>
        if s.uid == spotUid then
          { s with
            ratingAvg := (aggregateReviews spotUid d).1.getD 0
            reviewCount := (aggregateReviews spotUid d).2
            updatedAt := some now }
        else s) → Lone i (Sees i db ds d') k Q)
    (herror : ∀ e s, Holds i db ds s → Q (.error e) s) :
    Lone i (Sees i db ds d) ((recalculateSpotRating be now spotUid).bind fun _ => k) Q := by
  unfold recalculateSpotRating
  simp only [Prog.bind_eq_bind, Prog.bind_assoc]
  apply Lone.bind_ok (Lone.read (aggregateReviews spotUid))
  apply Lone.statement_bind
  · intro uids d' h
    obtain ⟨eff, heff, -, rfl⟩ := Stmt.ok_of_apply h
    refine hk _ ?_ (rows_updateSpots heff)
    rw [updateSpots_eq_ok heff]
    rfl
  · exact fun e _ s hs => herror e s hs

/-- What follows a commit reads a review and raises a version. -/
theorem lone_tail {α : Type} {d : Db} {key : String} {reviewUid : String} {c : Bool}
    {f : SpotReview → App α} {Q : Except Exc α → State ι → Prop}
    (hf : ∀ review, Lone i (Sees i d [] d) (f review) Q)
    (herror : ∀ e s, Sees i d [] d s → Q (.error e) s) :
    Lone i (Sees i d [] d) ((refreshReview reviewUid).bind fun review =>
      (whenever c (Cache.bump cfg key)).bind fun _ => f review) Q := by
  unfold refreshReview
  simp only [Prog.bind_eq_bind, Prog.bind_assoc]
  apply Lone.bind_ok (Lone.read fun d : Db => d.reviews.find? reviewUid)
  cases d.reviews.find? reviewUid with
  | none => exact Lone.raise _ fun s hs => herror _ s hs
  | some review =>
      change Lone i _ ((whenever c (Cache.bump cfg key)).bind fun _ => f review) Q
      cases c with
      | false => exact hf review
      | true => exact Lone.bind_ok (lone_bump cfg key d [] d) (hf review)

/-- An update of a review finds its row and rewrites it within the scale, or finds none. -/
theorem updateReviewRow_eq_ok {uid : String} {f : Rewrite SpotReview.uid} {locked : RowKey → Bool}
    {d : Db} {eff : Effect Db RowKey Change Bool} (h : updateReviewRow uid f locked d = .ok eff) :
    (eff.result = true ∧ eff.write = rewriteReview uid f ∧ ∃ r r', d.reviews.find? uid = some r ∧
        f.apply r = some r' ∧ r'.checkRating = true) ∨
      (eff.result = false ∧ eff.write = id ∧ d.reviews.find? uid = none) := by
  unfold updateReviewRow at h
  split at h
  · rename_i hnone
    cases h
    exact .inr ⟨rfl, rfl, hnone⟩
  · rename_i r hr
    split at h
    · cases h
    · rename_i r' hr'
      split at h
      · rename_i hscale
        cases h
        exact .inl ⟨rfl, rfl, r, r', hr, hr', hscale⟩
      · cases h

/-- Nobody else holds a review, so an insert that goes through has inserted its row. -/
theorem insertReviewRow_alone {r : SpotReview} {d : Db} {eff : Effect Db RowKey Change Unit}
    (h : insertReviewRow r (fun _ => false) d = .ok eff) :
    eff.write = insertReview r ∧ Insertable r d := by
  rcases insertReviewRow_eq_ok h with ⟨uid, hlocked, -⟩ | ⟨hinsertable, rfl⟩
  · cases hlocked
  · exact ⟨rfl, hinsertable⟩

/-- Rewriting a review that is not there changes nothing. -/
theorem rewriteReview_of_none {uid : String} {f : Rewrite SpotReview.uid} {d : Db}
    (h : d.reviews.find? uid = none) : rewriteReview uid f d = d := by
  have hrows : d.reviews.rewrite (fun r => r.uid == uid) f = d.reviews := by
    apply Table.ext
    simp only [Table.rewrite, Table.rows_update]
    refine (List.map_congr_left fun r hr => ?_).trans (List.map_id _)
    have hne : (r.uid == uid) = false := beq_false_of_ne (Table.find?_eq_none.1 h r hr)
    rw [hne]
    rfl
  rw [rewriteReview, hrows]

/-- No rating leaves the scale. -/
def KeepsScale (d d' : Db) : Prop :=
  (∀ r ∈ d.reviews.rows, r.checkRating = true) → ∀ r ∈ d'.reviews.rows, r.checkRating = true

theorem keepsScale_rewriteReview {uid : String} {f : Rewrite SpotReview.uid} {d : Db}
    {r r' : SpotReview} (hr : d.reviews.find? uid = some r) (hr' : f.apply r = some r')
    (hscale : r'.checkRating = true) : KeepsScale d (rewriteReview uid f d) := by
  intro h s hs
  have hreplaces := Table.replaces_rewrite hr (fun s _ => beq_iff_eq (a := s.uid)) hr'
  rw [rewriteReview, hreplaces.rows_eq] at hs
  obtain ⟨t, ht, rfl⟩ := List.mem_map.1 hs
  split
  · exact hscale
  · exact h t ht

/-- The loaded review is written, or the call ends. -/
theorem lone_flushReview {α : Type} {db : Db} {review : SpotReview} {data : List ReviewAttr}
    {k : App α} {Q : Except Exc α → State ι → Prop}
    (hk : KeepsScale db ((ReviewCall.update review data).written now db) →
      Lone i (Sees i db [] ((ReviewCall.update review data).written now db)) k Q)
    (herror : ∀ e s, Holds i db [] s → Q (.error e) s) :
    Lone i (Sees i db [] db) ((flushReview now review data).bind fun _ => k) Q := by
  have hwritten : (ReviewCall.update review data).written now db =
      if (data.filter fun a => !a.unchanged review).isEmpty then db
      else rewriteReview review.uid
        (setReview now (data.filter fun a => !a.unchanged review)) db := rfl
  rw [hwritten] at hk
  unfold flushReview
  dsimp only
  split
  · rename_i hempty
    rw [if_pos hempty] at hk
    exact hk id
  · rename_i hchanged
    rw [if_neg hchanged] at hk
    split
    · simp only [Prog.bind_eq_bind, Prog.bind_assoc]
      apply Lone.statement_bind
      · intro found d' h
        obtain ⟨eff, heff, hresult, rfl⟩ := Stmt.ok_of_apply h
        rcases updateReviewRow_eq_ok heff with ⟨htrue, hwrite, r, r', hr, hr', hscale⟩ |
            ⟨hfalse, -, -⟩
        · rw [← hresult, htrue, hwrite]
          exact hk (keepsScale_rewriteReview hr hr' hscale)
        · rw [← hresult, hfalse]
          exact Lone.raise _ fun s hs => herror _ s hs.holds
      · exact fun e _ s hs => herror e s hs
    · -- a text that cannot be stored
      exact Lone.raise _ fun s hs => herror _ s hs.holds

/-- A call that returns leaves the rows with the new aggregates. -/
theorem lone_reviewCall (call : ReviewCall) (db : Db) :
    Lone i (Sees i db [] db) (call.program cfg be now) fun r s =>
      r = .ok () → s.db.spots.rows = call.rowsAfter now db := by
  have herror : ∀ e (s : State ι), (.error e : Except Exc Unit) = .ok () →
      s.db.spots.rows = call.rowsAfter now db := fun _ _ h => by cases h
  cases call with
  | create reviewUid spotUid userUid rating content =>
      simp only [ReviewCall.program, createReview, getActiveReview, Prog.bind_eq_bind,
        Prog.bind_assoc]
      apply Lone.bind_ok (Lone.read fun d : Db =>
        d.reviews.rows.find? fun r => r.activeOf spotUid && r.userId == userUid)
      cases db.reviews.rows.find? fun r => r.activeOf spotUid && r.userId == userUid with
      | some review => exact Lone.raise _ fun s _ => herror _ s
      | none =>
          dsimp only
          simp only [Prog.bind_assoc]
          apply Lone.statement_bind
          · intro _ d' h
            obtain ⟨eff, heff, -, rfl⟩ := Stmt.ok_of_apply h
            have hwrite : eff.write = insertReview
                { uid := reviewUid, spotUid := spotUid, userId := userUid, rating := rating,
                  content := content, createdAt := some now, updatedAt := some now } :=
              (insertReviewRow_alone heff).1
            rw [hwrite]
            apply lone_recalculate _ fun e s _ => herror e s
            intro d' _ hrows
            apply Lone.bind_ok Lone.commit
            refine lone_tail (c := true) (fun review => Lone.ret _ fun s hs _ => ?_) fun e s _ =>
              herror e s
            rw [hs.holds.db_eq, hrows]
            rfl
          · exact fun e _ s _ => herror e s
  | update review data =>
      simp only [ReviewCall.program, updateReview, Prog.bind_eq_bind, Prog.bind_assoc]
      refine lone_flushReview (fun _ => ?_) fun e s _ => herror e s
      have hafter : ∀ d' : Db, d'.spots.rows = (ReviewCall.update review data).rowsAfter now db →
          Lone i (Sees i db [] d') (commit.bind fun _ =>
            (refreshReview review.uid).bind fun fresh =>
            (whenever (data.any ReviewAttr.isRating)
              (Cache.invalidateSpotDetail cfg review.spotUid)).bind fun _ =>
              (Prog.ret fresh : App SpotReview).bind fun _ => .ret ()) fun r s =>
            r = .ok () → s.db.spots.rows = (ReviewCall.update review data).rowsAfter now db := by
        intro d' hrows
        apply Lone.bind_ok Lone.commit
        refine lone_tail (fun fresh => Lone.ret _ fun s hs _ => ?_) fun e s _ => herror e s
        rw [hs.holds.db_eq, hrows]
      -- the spots are not among what the flush writes
      have hspots : ((ReviewCall.update review data).written now db).spots = db.spots := by
        simp only [ReviewCall.written]
        split <;> rfl
      cases hrating : data.any ReviewAttr.isRating with
      | true =>
          rw [hrating] at hafter
          apply lone_recalculate _ fun e s _ => herror e s
          intro d' _ hrows
          apply hafter
          rw [hrows, hspots, ReviewCall.rowsAfter, ReviewCall.recalculates, hrating]
          rfl
      | false =>
          rw [hrating] at hafter
          apply hafter
          rw [hspots, ReviewCall.rowsAfter, ReviewCall.recalculates, hrating]
          rfl
  | delete review =>
      simp only [ReviewCall.program, softDeleteReview, Prog.bind_eq_bind]
      apply Lone.statement_bind
      · intro found d' h
        obtain ⟨eff, heff, -, rfl⟩ := Stmt.ok_of_apply h
        have hwrite : eff.write db = (ReviewCall.delete review).written now db := by
          rcases updateReviewRow_eq_ok heff with ⟨-, hwrite, -⟩ | ⟨-, hwrite, hnone⟩
          · rw [hwrite]
            rfl
          · rw [hwrite]
            exact (rewriteReview_of_none hnone).symm
        rw [hwrite]
        apply lone_recalculate _ fun e s _ => herror e s
        intro d' _ hrows
        apply Lone.bind_ok Lone.commit
        refine Lone.conseq (lone_bump cfg _ d' [] d') (fun _ hs => hs) fun r s hs _ => ?_
        rw [hs.2.holds.db_eq, hrows]
        rfl
      · exact fun e _ s _ => herror e s

end Rows

/-! ## The cache -/

/-- A command that may raise one version, and does nothing else to the cache. -/
def RaisesOnly (vk : String) {β : Type} : Command β → Prop
  | .set _ _ => False
  | .incr key => key = vk
  | _ => True

section Redis

variable {ι : Type} [DecidableEq ι] {i : ι} {vk : String}

/-- Such a command leaves the other keys alone. -/
theorem redis_of_raisesOnly {β : Type} {c : Command β} (hc : RaisesOnly vk c) {s s' : State ι}
    {r : Except Exc β} (h : exec i c s = some (r, s')) {key : String} (hkey : key ≠ vk) :
    s'.redis key = s.redis key := by
  cases c with
  | sql st =>
      simp only [exec, onActive, execSql] at h
      split at h
      · split at h
        · cases h
          rfl
        · split at h
          · cases h
          · cases h
            rfl
      · cases h
        rfl
      · cases h
        rfl
  | commit =>
      simp only [exec] at h
      split at h <;> cases h <;> rfl
  | rollback =>
      cases h
      rfl
  | savepoint =>
      simp only [exec, onActive] at h
      split at h <;> cases h <;> rfl
  | release =>
      simp only [exec, onActive] at h
      split at h <;> cases h <;> rfl
  | rollbackTo =>
      simp only [exec] at h
      split at h
      · cases h
        rfl
      · cases h
        unfold execRollbackTo
        split <;> rfl
  | get k =>
      simp only [exec] at h
      split at h <;> cases h <;> rfl
  | set k v => exact hc.elim
  | incr k =>
      have hk : k = vk := hc
      simp only [exec] at h
      split at h
      · cases h
        rfl
      · cases h
        exact Function.update_of_ne (hk ▸ hkey) _ _

end Redis

section Uses

variable {vk : String} {cfg : Settings} {be : Backend} {now : Timestamp} {α : Type}

theorem raisesOnly_bump : (Cache.bump cfg vk).Uses (RaisesOnly vk) := by
  unfold Cache.bump
  split
  · have hincr : (Prog.perform (.incr vk) : App Unit).Uses (RaisesOnly vk) := Prog.uses_perform rfl
    apply hincr.tryCatch
    intro e
    split <;> trivial
  · trivial

theorem raisesOnly_execute {R : Type} (st : Statement R) : (execute st).Uses (RaisesOnly vk) :=
  Prog.uses_perform trivial

theorem raisesOnly_recalculate (spotUid : String) :
    (recalculateSpotRating be now spotUid).Uses (RaisesOnly vk) := by
  apply (raisesOnly_execute _).bind
  intro aggregates
  apply (raisesOnly_execute _).bind
  intro _
  trivial

theorem raisesOnly_refreshReview (uid : String) : (refreshReview uid).Uses (RaisesOnly vk) := by
  apply (raisesOnly_execute _).bind
  intro found
  cases found <;> trivial

/-- A call raises the version of its spot's detail only. -/
theorem ReviewCall.raisesOnly_program (call : ReviewCall) :
    (withSession (call.program cfg be now)).Uses
      (RaisesOnly (Cache.spotDetailVersionKey call.spotUid)) := by
  have hcommit : ∀ vk, (commit : App Unit).Uses (RaisesOnly vk) :=
      fun _ => Prog.uses_perform trivial
  have hprogram : (call.program cfg be now).Uses
      (RaisesOnly (Cache.spotDetailVersionKey call.spotUid)) := by
    cases call with
    | create reviewUid spotUid userUid rating content =>
        refine Prog.Uses.bind ((raisesOnly_execute _).bind fun found => ?_) fun _ => trivial
        cases found with
        | some review => trivial
        | none =>
            apply (raisesOnly_execute _).bind
            intro _
            apply (raisesOnly_recalculate spotUid).bind
            intro _
            apply (hcommit _).bind
            intro _
            apply (raisesOnly_refreshReview reviewUid).bind
            intro review
            exact raisesOnly_bump.bind fun _ => trivial
    | update review data =>
        refine Prog.Uses.bind (Prog.Uses.bind ?_ fun _ => ?_) fun _ => trivial
        · unfold flushReview
          dsimp only
          split
          · trivial
          · split
            · apply (raisesOnly_execute _).bind
              intro found
              split <;> trivial
            · trivial
        · apply (Admits.whenever (raisesOnly_recalculate review.spotUid)).bind
          intro _
          apply (hcommit _).bind
          intro _
          apply (raisesOnly_refreshReview review.uid).bind
          intro fresh
          exact (Admits.whenever raisesOnly_bump).bind fun _ => trivial
    | delete review =>
        apply (raisesOnly_execute _).bind
        intro _
        apply (raisesOnly_recalculate review.spotUid).bind
        intro _
        exact (hcommit _).bind fun _ => raisesOnly_bump
  apply hprogram.attempt.bind
  intro r
  exact Prog.Uses.bind (Prog.uses_perform trivial) fun _ => Prog.uses_ofExcept r

end Uses

/-! ## A call that returns -/

namespace ReviewCall

variable {cfg : Settings} {be : Backend} {now : Timestamp} {call : ReviewCall} {s s' : State Unit}

theorem Serves.between (h : call.Serves cfg be now s s') : Between s' := between_of_withSession h

/-- The rows of the spots afterwards. -/
theorem Serves.leaves (h : call.Serves cfg be now s s') (hs : Between s) :
    s'.db.spots.rows = call.rowsAfter now s.db := by
  have hbody : Lone () (Sees () s.db [] s.db) (call.program cfg be now) fun r s' =>
      r = .ok () → s'.db.spots.rows = call.rowsAfter now s.db := lone_reviewCall call s.db
  obtain ⟨r, s'', hrun, -, hleaves⟩ :=
    lone_withSession (Q := fun r d => r = .ok () → d.spots.rows = call.rowsAfter now s.db)
      hbody s hs.sees
  have hsame : some (r, s'') = some (.ok (), s') := hrun.symm.trans h
  cases hsame
  exact hleaves rfl

/-- The keys of the cache but one are as before. -/
theorem Serves.redis_eq (h : call.Serves cfg be now s s') {key : String}
    (hkey : key ≠ Cache.spotDetailVersionKey call.spotUid) : s'.redis key = s.redis key :=
  runAlone_keeps (I := fun t => t.redis key = s.redis key)
    (fun _ hc _ _ _ ht hsame => (redis_of_raisesOnly hc ht hkey).trans hsame)
    call.raisesOnly_program h rfl

end ReviewCall

end Vivac
