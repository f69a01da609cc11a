import Vivac.Access.HiddenExistence
import Vivac.Endpoints.SpotContent
import Vivac.Images.CleanFailure
import Vivac.Pipeline.TimedCalls
import Vivac.Updates.RowUpdates

/-!
# Partial updates

The endpoints that update a spot, a group or a review by the fields of a request, with no other
writer. An update succeeds and sets exactly what it supplies, or it is refused and changes nothing,
exactly when every supplied value is one that its column can hold and the database takes the row:
an explicit null for a column that is NOT NULL, and an integer or a text that the database cannot
store, pass the schema and end in an error of the database (`PartialUpdate.clean_iff`).
-/

set_option autoImplicit false

namespace Vivac

open Lib App

/-! ## Requests -/

/-- `SpotUpdate`, with the values that it accepts. -/
structure AcceptedSpotUpdate extends SpotUpdate where
  accepted : ∀ a ∈ data, a.accepted = true

/-- `SpotGroupUpdate` accepts the value. -/
def GroupAttr.accepted : GroupAttr → Bool
  | .name v => v.all fun text => decide (1 ≤ text.length ∧ text.length ≤ 100)
  | _ => true

/-- `SpotGroupUpdate.model_dump(exclude_unset=True)`. -/
structure SpotGroupUpdate where
  data : List GroupAttr
  nodup : (data.map GroupAttr.key).Nodup
  accepted : ∀ a ∈ data, a.accepted = true

/-- `SpotReviewUpdate.model_dump(exclude_unset=True)`. -/
structure SpotReviewUpdate where
  data : List ReviewAttr
  nodup : (data.map ReviewAttr.key).Nodup
  accepted : ∀ a ∈ data, a.accepted = true

/-- A request that updates one row by the fields it carries; a group is updated in the app or in
the console. -/
inductive PartialUpdate where
  | spot (uid : String) (payload : AcceptedSpotUpdate)
  | group (uid : String) (payload : SpotGroupUpdate)
  | consoleGroup (uid : String) (payload : SpotGroupUpdate)
  | review (spotUid uid : String) (payload : SpotReviewUpdate)

namespace PartialUpdate

/-- Only the aggregates of a spot have changed. -/
def AggregatesOnly (spotUid : String) (d d' : Db) : Prop :=
  ∃ f : Spot → Spot,
    (∀ s c, c ≠ .ratingAvg → c ≠ .reviewCount → c ≠ .updatedAt → (f s).get c = s.get c) ∧
    d'.spots.rows = (d.spots.rows.map fun s => if s.uid == spotUid then f s else s) ∧
    d' = { d with spots := d'.spots }

/-- The row has what the request supplies, and nothing else has changed but the aggregates of the
spot of a review. -/
def Leaves (d d' : Db) : PartialUpdate → Prop
  | .spot uid payload => SpotUpdated uid payload.data d d'
  | .group uid payload => GroupUpdated uid payload.data d d'
  | .consoleGroup uid payload => GroupUpdated uid payload.data d d'
  | .review spotUid uid payload =>
    ∃ d₁, ReviewUpdated uid payload.data d d₁ ∧ AggregatesOnly spotUid d₁ d'

/-- The row is there, and the caller may update it. -/
def Allowed (cfg : Settings) (d : Db) (c : Credentials) : PartialUpdate → Prop
  | .spot uid _ => (∃ staff, Access.caller? d c = some staff ∧ staff.isStaff = true) ∧
      ∃ s, d.spots.find? uid = some s
  | .group uid _ => (∃ user m, Access.caller? d c = some user ∧
      d.members.find? (uid, user.uid) = some m ∧ GroupRole.editor.rank ≤ m.role.rank) ∧
      ∃ g, d.groups.find? uid = some g
  | .consoleGroup uid _ => (∃ staff, Access.caller? d c = some staff ∧ staff.isStaff = true) ∧
      ∃ g, d.groups.find? uid = some g
  | .review spotUid uid _ => ∃ user s r, Access.caller? d c = some user ∧
      d.spots.find? spotUid = some s ∧ s.live = true ∧
      (cfg.exploreRequireCoordinates = true → s.hasCoordinates = true) ∧
      d.reviews.find? uid = some r ∧ r.spotUid = spotUid ∧ r.deletedAt = none ∧
      r.userId = user.uid

/-- The columns can hold the supplied values, and the database takes the row of the spot with them;
or the staff user may not make this update of the spot. -/
def Fits (be : Backend) (d : Db) (c : Credentials) : PartialUpdate → Prop
  | .spot uid payload => ∀ staff s, Access.caller? d c = some staff →
      d.spots.find? uid = some s →
      InternalSpots.refusesUpdate staff s payload.toSpotUpdate ≠ none ∨
        SpotFits be payload.data s
  | .group _ payload => ∀ a ∈ payload.data, a.fits = true
  | .consoleGroup _ payload => ∀ a ∈ payload.data, a.fits = true
  | .review _ _ payload => ∀ a ∈ payload.data, a.fits = true

section Runs

variable (cfg : Settings) (be : Backend) (now : Timestamp) (c : Credentials)

/-- The endpoint of the request. -/
def program : PartialUpdate → App Unit
  | .spot uid payload =>
    (InternalSpots.updateSpot cfg be now c uid payload.toSpotUpdate).bind fun _ => .ret ()
  | .group uid payload => (SpotGroups.updateGroup now uid c payload.data).bind fun _ => .ret ()
  | .consoleGroup uid payload =>
    (InternalSpotGroups.updateGroup now c uid payload.data).bind fun _ => .ret ()
  | .review spotUid uid payload =>
    (SpotReviews.updateReview cfg be now c spotUid uid payload.data).bind fun _ => .ret ()

/-- The end of a request: it has succeeded, or is refused and has changed nothing. -/
def CleanEnd (u : PartialUpdate) (d : Db) (r : Except Exc Unit) (d' : Db) : Prop :=
  (r = .ok () ∧ u.Leaves d d') ∨ ((∃ code message, r = .error (.app code message)) ∧ d' = d)

/-- Run by itself, the request comes to a clean end. -/
def Clean (u : PartialUpdate) (s : State Unit) : Prop :=
  ∃ r s', runAlone (fun i => exec i) () (withSession (u.program cfg be now c)) s = some (r, s') ∧
    u.CleanEnd s.db r s'.db

end Runs

/-! ## The endpoints, alone -/

section Endpoints

variable {cfg : Settings} {be : Backend} {now : Timestamp} {c : Credentials} {d : Db}
  {α : Type} {Q : Except Exc α → State Unit → Prop}

/-- A part of the program that only reads, and what follows on its answer. -/
theorem lone_bind {β : Type} {p : App β} {f : β → App α} {db d d' : Db} {b : β}
    (h : Evaluates p d (.ok (b, d'))) (hf : Lone () (Sees () db [] d') (f b) Q) :
    Lone () (Sees () db [] d) (p.bind f) Q :=
  Lone.bind_ok (Lone.of_evaluates h db []) hf

/-- A part of the program that ends it. -/
theorem lone_bind_error {β : Type} {p : App β} {f : β → App α} {db d : Db} {e : Exc}
    (h : Evaluates p d (.error e)) (hQ : ∀ s : State Unit, s.db = db → Q (.error e) s) :
    Lone () (Sees () db [] d) (p.bind f) Q :=
  Lone.conseq (Lone.of_evaluates h.bind_error db []) (fun _ hs => hs) fun r s hs => by
    obtain ⟨rfl, hholds⟩ := hs
    exact hQ s hholds.db_eq

/-- Why a staff user may not update a spot is told in an `AppException`. -/
theorem app_of_refusesUpdate {staff : User} {s : Spot} {payload : SpotUpdate} {e : Exc}
    (h : InternalSpots.refusesUpdate staff s payload = some e) :
    ∃ code message, e = .app code message := by
  unfold InternalSpots.refusesUpdate at h
  dsimp only at h
  split at h
  · cases h
    exact ⟨_, _, rfl⟩
  · split at h
    · cases h
    · split at h
      · cases h
        exact ⟨_, _, rfl⟩
      · cases h

/-! ### Spots -/

/-- What follows the flush of a spot commits it. -/
theorem lone_spotTail {uid : String} {d d' : Db} {s' : Spot} (hs' : d'.spots.find? uid = some s')
    {Q : Except Exc Unit → State Unit → Prop} (hQ : ∀ t : State Unit, t.db = d' → Q (.ok ()) t) :
    Lone () (Sees () d [] d') (commit.bind fun _ => (refreshSpot uid).bind fun _ =>
      (Cache.bumpSpotsVersion cfg).bind fun _ => (Cache.invalidateSpotDetail cfg uid).bind fun _ =>
        (Prog.ret () : App Unit)) Q := by
  apply Lone.bind_ok Lone.commit
  have hrefresh : Evaluates (refreshSpot uid) d' (.ok (s', d')) := by
    apply Evaluates.select
    rw [hs']
    exact .ret s' d'
  apply lone_bind hrefresh
  apply Lone.bind_ok (lone_bump cfg _ d' [] d')
  apply Lone.bind_ok (lone_bump cfg _ d' [] d')
  exact Lone.ret () fun t ht => hQ t ht.holds.db_eq

/-- The request up to the flush: the staff user and the spot are there. -/
theorem lone_toFlushSpot {uid : String} {payload : SpotUpdate} {staff : User} {s : Spot}
    {Q : Except Exc Unit → State Unit → Prop}
    (hcaller : Access.caller? d c = some staff) (hstaff : staff.isStaff = true)
    (hs : d.spots.find? uid = some s)
    (hallowed : InternalSpots.refusesUpdate staff s payload = none)
    (hrest : Lone () (Sees () d [] d) ((flushSpot be now s payload.data).bind fun _ =>
      commit.bind fun _ => (refreshSpot uid).bind fun _ =>
        (Cache.bumpSpotsVersion cfg).bind fun _ =>
        (Cache.invalidateSpotDetail cfg uid).bind fun _ =>
          Prog.ret ()) Q) :
    Lone () (Sees () d [] d)
      ((InternalSpots.updateSpot cfg be now c uid payload).bind fun _ => .ret ()) Q := by
  unfold InternalSpots.updateSpot
  simp only [Prog.bind_eq_bind, Prog.bind_assoc]
  apply lone_bind (Images.evaluates_requireStaff hcaller hstaff)
  apply lone_bind (Images.evaluates_findSpot cfg hs)
  rw [hallowed]
  have haudit : Evaluates (setAuditUser staff.uid) d (.ok ((), d)) := Evaluates.statement _ d
  have hfound : Evaluates (getSpotByUid cfg uid) d (.ok (some s, d)) := by
    rw [← Option.filter_some_pos (p := fun _ : Spot => true) rfl, ← hs]
    exact Evaluates.statement _ d
  unfold InternalSpots.updateLoaded Vivac.updateSpot
  simp only [Prog.bind_eq_bind, Prog.bind_assoc]
  apply lone_bind haudit
  apply lone_bind hfound
  simp only [Prog.bind_assoc]
  exact hrest

/-- An update of a spot whose values fit succeeds. -/
theorem lone_spot {uid : String} {payload : AcceptedSpotUpdate} {staff : User} {s : Spot}
    (hbe : be.IgnoresStamps) (hcaller : Access.caller? d c = some staff)
    (hstaff : staff.isStaff = true) (hs : d.spots.find? uid = some s)
    (hstored : refusesSpotRow be s = none)
    (hallowed : InternalSpots.refusesUpdate staff s payload.toSpotUpdate = none)
    (hfits : SpotFits be payload.data s) :
    Lone () (Sees () d [] d) ((PartialUpdate.spot uid payload).program cfg be now c) fun r t =>
      r = .ok () ∧ SpotUpdated uid payload.data d t.db := by
  apply lone_toFlushSpot hcaller hstaff hs hallowed
  obtain ⟨d', hflush, hupdated⟩ :=
    evaluates_flushSpot now hbe hs hstored payload.nodup payload.accepted hfits
  have hs' : ∃ s', d'.spots.find? uid = some s' := by
    obtain ⟨s₁, s', hs₁, -, hreplaces, -⟩ := hupdated
    exact ⟨s', hreplaces.find? hs₁⟩
  obtain ⟨s', hs'⟩ := hs'
  apply lone_bind hflush
  exact lone_spotTail hs' fun t ht => ⟨rfl, ht ▸ hupdated⟩

/-- An update of a spot whose values do not fit ends in an error of the database. -/
theorem lone_spot_unfit {uid : String} {payload : AcceptedSpotUpdate} {staff : User} {s : Spot}
    (hbe : be.IgnoresStamps) (hwide : be.RefusesWideIntegers)
    (hcaller : Access.caller? d c = some staff) (hstaff : staff.isStaff = true)
    (hs : d.spots.find? uid = some s) (hstored : refusesSpotRow be s = none)
    (hallowed : InternalSpots.refusesUpdate staff s payload.toSpotUpdate = none)
    (hbad : ¬SpotFits be payload.data s) :
    Lone () (Sees () d [] d) ((PartialUpdate.spot uid payload).program cfg be now c) fun r _ =>
      ∃ name message, r = .error (.database name message) := by
  apply lone_toFlushSpot hcaller hstaff hs hallowed
  obtain ⟨name, message, hflush⟩ :=
    refuses_flushSpot now hbe hwide hs hstored payload.nodup hbad
  exact lone_bind_error hflush fun _ _ => ⟨name, message, rfl⟩

/-! ### Groups -/

/-- The update of a loaded group, and its answer. -/
theorem lone_group {β : Type} {uid : String} {payload : SpotGroupUpdate} {g : SpotGroup}
    {answer : SpotGroup → App β} (hanswer : ∀ g d, ∃ b, Evaluates (answer g) d (.ok (b, d)))
    (hg : d.groups.find? uid = some g) (hfits : ∀ a ∈ payload.data, a.fits = true) :
    Lone () (Sees () d [] d) ((Vivac.updateGroup now g payload.data).bind fun g =>
      (answer g).bind fun _ => (Prog.ret () : App Unit)) fun r t =>
        r = .ok () ∧ GroupUpdated uid payload.data d t.db := by
  obtain ⟨d', hflush, hupdated⟩ := evaluates_flushGroup now hg payload.nodup hfits
  have hrefresh : ∃ g', Evaluates (refreshGroup g.uid) d' (.ok (g', d')) := by
    obtain ⟨g₁, g', hg₁, -, hreplaces, -⟩ := hupdated
    refine ⟨g', Evaluates.select ?_⟩
    rw [(Table.find?_eq_some.1 hg).2, hreplaces.find? hg₁]
    exact .ret g' d'
  obtain ⟨g', hrefresh⟩ := hrefresh
  obtain ⟨b, hanswered⟩ := hanswer g' d'
  unfold Vivac.updateGroup
  simp only [Prog.bind_eq_bind, Prog.bind_assoc]
  apply lone_bind hflush
  apply Lone.bind_ok Lone.commit
  apply lone_bind hrefresh
  apply lone_bind hanswered
  exact Lone.ret () fun t ht => ⟨rfl, ht.holds.db_eq ▸ hupdated⟩

/-- A group is not updated by a value that does not fit. -/
theorem lone_group_unfit {α : Type} {uid : String} {data : List GroupAttr} {g : SpotGroup}
    {f : SpotGroup → App α} (hg : d.groups.find? uid = some g)
    (hstored : isStorable g.name = true ∧ g.description.all isStorable = true)
    (hbad : ¬∀ a ∈ data, a.fits = true) :
    Lone () (Sees () d [] d) ((Vivac.updateGroup now g data).bind f) fun r _ =>
      ∃ name message, r = .error (.database name message) := by
  have hunfit : ∃ a ∈ data, a.fits = false := by
    simpa using hbad
  obtain ⟨name, message, hflush⟩ := refuses_flushGroup now hg hstored hunfit
  unfold Vivac.updateGroup
  simp only [Prog.bind_eq_bind, Prog.bind_assoc]
  exact lone_bind_error hflush fun _ _ => ⟨name, message, rfl⟩

/-- An editor of a group comes to its update. -/
theorem evaluates_requireGroupRole {uid : String} {user : User} {m : SpotGroupMember}
    {g : SpotGroup} {minRole : GroupRole} (hcaller : Access.caller? d c = some user)
    (hm : d.members.find? (uid, user.uid) = some m) (hrole : minRole.rank ≤ m.role.rank)
    (hg : d.groups.find? uid = some g) :
    Evaluates (SpotGroups.requireGroupRole minRole uid c) d (.ok ((g, m), d)) := by
  have huid : g.uid = uid := (Table.find?_eq_some.1 hg).2
  have hmember : Evaluates (SpotGroups.requireMember g user) d (.ok (m, d)) := by
    apply Evaluates.select
    rw [huid, hm]
    exact .ret m d
  have hmembership : Evaluates (SpotGroups.membershipOr404 uid c) d (.ok ((g, m), d)) := by
    apply (Access.evaluates_findGroup hg).bind_ok
    apply (Access.evaluates_getCurrentUser hcaller).bind_ok
    exact hmember.bind_ok (.ret (g, m) d)
  apply hmembership.bind_ok
  show Evaluates (if m.role.rank < minRole.rank then _ else _) d _
  rw [if_neg (not_lt.2 hrole)]
  exact .ret (g, m) d

/-! ### Reviews -/

theorem AggregatesOnly.refl (spotUid : String) (d : Db) : AggregatesOnly spotUid d d :=
  ⟨id, fun _ _ _ _ _ => rfl, by simp, rfl⟩

/-- The aggregates of a spot are written where the database takes its spots. -/
theorem evaluates_recalculate (haggregates : Creation.TakesAggregates be)
    (hd : Creation.SpotsTaken be d) (spotUid : String) :
    ∃ d', Evaluates (recalculateSpotRating be now spotUid) d (.ok ((), d')) ∧
      AggregatesOnly spotUid d d' := by
  let avg := (aggregateReviews spotUid d).1.getD 0
  let count := (aggregateReviews spotUid d).2
  obtain ⟨uids, changes, hstatement⟩ : ∃ uids changes,
      setAggregates be now spotUid avg count (fun _ => false) d =
        .ok ⟨uids, rewriteSpots uids (Creation.aggregated now avg count),
          uids.map .spot, changes⟩ :=
    Creation.setAggregates_eq haggregates hd
  have happly : (setAggregates be now spotUid avg count).apply d =
      .ok (uids, rewriteSpots uids (Creation.aggregated now avg count) d) := by
    rw [Stmt.apply, hstatement]
    rfl
  refine ⟨rewriteSpots uids (Creation.aggregated now avg count) d, ?_,
    fun s => { s with ratingAvg := avg, reviewCount := count, updatedAt := some now }, ?_, ?_, rfl⟩
  · have hwrite : Evaluates (execute (setAggregates be now spotUid avg count)) d
        (.ok (uids, rewriteSpots uids (Creation.aggregated now avg count) d)) := by
      rw [← happly]
      exact Evaluates.statement _ d
    apply Evaluates.select
    exact hwrite.bind_ok (.ret () _)
  · intro s c hrating hcount hupdated
    cases c <;> first | rfl | contradiction
  · exact rows_updateSpots hstatement

/-- The writer of a review comes to its update. -/
theorem evaluates_findActiveReview {spotUid uid : String} {s : Spot} {r : SpotReview}
    (hs : d.spots.find? spotUid = some s) (hlive : s.live = true)
    (hcoordinates : cfg.exploreRequireCoordinates = true → s.hasCoordinates = true)
    (hr : d.reviews.find? uid = some r) (hspot : r.spotUid = spotUid)
    (hactive : r.deletedAt = none) :
    Evaluates (SpotReviews.findActiveReview cfg spotUid uid) d (.ok (r, d)) := by
  have hpublic : Evaluates (SpotReviews.findPublicSpot cfg spotUid) d (.ok (s, d)) := by
    obtain ⟨shown, hfilters, hshown⟩ : ∃ shown, applyExploreFilters cfg {} = .ok shown ∧
        shown s = true := by
      refine ⟨_, rfl, ?_⟩
      have hvisible : (!cfg.exploreRequireCoordinates || s.hasCoordinates) = true := by
        cases hrequire : cfg.exploreRequireCoordinates with
        | true => exact hcoordinates hrequire
        | false => rfl
      simp only [hlive, Option.getD_none, hvisible, categoryFilter, bboxFilter, Bool.and_self]
    have hfound : Evaluates (getSpotByUid cfg spotUid true) d (.ok (some s, d)) := by
      unfold getSpotByUid
      rw [if_pos rfl, hfilters, ← Option.filter_some_pos hshown, ← hs]
      exact Evaluates.statement _ d
    exact hfound.bind_ok (.ret s d)
  have huid : s.uid = spotUid := (Table.find?_eq_some.1 hs).2
  apply hpublic.bind_ok
  apply Evaluates.select
  rw [hr]
  dsimp only
  rw [if_pos (by simp [hspot, huid, hactive])]
  exact .ret r d

/-- The update of a loaded review, and the aggregates that follow a rating. -/
theorem lone_review {uid : String} {payload : SpotReviewUpdate} {r : SpotReview}
    (haggregates : Creation.TakesAggregates be) (hrows : RowsTaken be d)
    (hr : d.reviews.find? uid = some r) (hfits : ∀ a ∈ payload.data, a.fits = true) :
    Lone () (Sees () d [] d) ((Vivac.updateReview cfg be now r payload.data).bind fun _ =>
      (Prog.ret () : App Unit)) fun out t =>
        out = .ok () ∧ ∃ d₁, ReviewUpdated uid payload.data d d₁ ∧
          AggregatesOnly r.spotUid d₁ t.db := by
  obtain ⟨hmem, hkey⟩ := Table.find?_eq_some.1 hr
  obtain ⟨d₁, hflush, hupdated⟩ := evaluates_flushReview now hr (hrows.reviews r hmem).1
    payload.nodup payload.accepted hfits
  have hspots : Creation.SpotsTaken be d₁ := by
    obtain ⟨-, -, -, -, -, hsame⟩ := hupdated
    rw [hsame]
    exact hrows.spots
  -- the aggregates are written when the rating is among the pairs
  have hrecalculated : ∃ d₂, Evaluates (whenever (payload.data.any ReviewAttr.isRating)
      (recalculateSpotRating be now r.spotUid)) d₁ (.ok ((), d₂)) ∧
        AggregatesOnly r.spotUid d₁ d₂ := by
    cases payload.data.any ReviewAttr.isRating with
    | true => exact evaluates_recalculate haggregates hspots r.spotUid
    | false => exact ⟨d₁, .ret () d₁, AggregatesOnly.refl _ d₁⟩
  obtain ⟨d₂, hrecalculate, haggregated⟩ := hrecalculated
  have hrefresh : ∃ r', Evaluates (refreshReview r.uid) d₂ (.ok (r', d₂)) := by
    obtain ⟨r₁, r', hr₁, -, hreplaces, -⟩ := hupdated
    obtain ⟨-, -, -, hsame⟩ := haggregated
    refine ⟨r', Evaluates.select ?_⟩
    have hfound : d₂.reviews.find? r.uid = some r' := by
      rw [hsame, hkey]
      exact hreplaces.find? hr₁
    rw [hfound]
    exact .ret r' d₂
  obtain ⟨r', hrefresh⟩ := hrefresh
  unfold Vivac.updateReview
  simp only [Prog.bind_eq_bind, Prog.bind_assoc]
  apply lone_bind hflush
  apply lone_bind hrecalculate
  apply Lone.bind_ok Lone.commit
  apply lone_bind hrefresh
  have hend : Lone () (Sees () d₂ [] d₂) (Prog.ret () : App Unit) fun out t =>
      out = .ok () ∧ ∃ d₁, ReviewUpdated uid payload.data d d₁ ∧ AggregatesOnly r.spotUid d₁ t.db :=
    Lone.ret () fun t ht => ⟨rfl, d₁, hupdated, ht.holds.db_eq ▸ haggregated⟩
  cases payload.data.any ReviewAttr.isRating with
  | true => exact Lone.bind_ok (lone_bump cfg _ d₂ [] d₂) hend
  | false => exact hend

/-- A review is not updated by a value that does not fit. -/
theorem lone_review_unfit {α : Type} {uid : String} {data : List ReviewAttr} {r : SpotReview}
    {f : SpotReview → App α} (hr : d.reviews.find? uid = some r)
    (hstored : r.content.all isStorable = true) (hbad : ¬∀ a ∈ data, a.fits = true) :
    Lone () (Sees () d [] d) ((Vivac.updateReview cfg be now r data).bind f) fun r _ =>
      ∃ name message, r = .error (.database name message) := by
  have hunfit : ∃ a ∈ data, a.fits = false := by
    simpa using hbad
  obtain ⟨name, message, hflush⟩ := refuses_flushReview now hr hstored hunfit
  unfold Vivac.updateReview
  simp only [Prog.bind_eq_bind, Prog.bind_assoc]
  exact lone_bind_error hflush fun _ _ => ⟨name, message, rfl⟩

end Endpoints

/-! ## Clean updates -/

section Clean

variable {cfg : Settings} {be : Backend} {now : Timestamp} {c : Credentials} {u : PartialUpdate}
  {s : State Unit}

/-- An error of the database is no clean end. -/
theorem not_clean_of_lone (hs : Between s)
    (h : Lone () (Sees () s.db [] s.db) (u.program cfg be now c) fun r _ =>
      ∃ name message, r = .error (.database name message)) : ¬u.Clean cfg be now c s := by
  rintro ⟨r, s', hrun, hclean⟩
  obtain ⟨r', t, hrun', -, hdatabase⟩ := lone_withSession
    (Q := fun r _ => ∃ name message, r = .error (.database name message)) h s hs.sees
  have hsame : some (r, s') = some (r', t) := hrun.symm.trans hrun'
  obtain ⟨name, message, herror⟩ := hdatabase
  cases hsame
  rw [herror] at hclean
  rcases hclean with ⟨hok, -⟩ | ⟨⟨code, text, happ⟩, -⟩
  · cases hok
  · cases happ

/-- A request that comes to a clean end when `good` holds, and else to an error of the database. -/
theorem clean_iff_of_lone {good : Prop} (hs : Between s)
    (hgood : good → Lone () (Sees () s.db [] s.db) (u.program cfg be now c) fun r t =>
      u.CleanEnd s.db r t.db)
    (hbad : ¬good → Lone () (Sees () s.db [] s.db) (u.program cfg be now c) fun r _ =>
      ∃ name message, r = .error (.database name message)) :
    u.Clean cfg be now c s ↔ good := by
  constructor
  · intro h
    by_contra hnot
    exact not_clean_of_lone hs (hbad hnot) h
  · intro h
    obtain ⟨r, t, hrun, -, hclean⟩ :=
      lone_withSession (Q := fun r d => u.CleanEnd s.db r d) (hgood h) s hs.sees
    exact ⟨r, t, hrun, hclean⟩

/-- A partial update by a caller who may make it is clean exactly when every value that it supplies
is one that its column can hold, and the database takes the row of the spot with them. -/
theorem clean_iff (hbe : be.IgnoresStamps) (hwide : be.RefusesWideIntegers)
    (haggregates : Creation.TakesAggregates be) (hs : Between s) (hrows : RowsTaken be s.db)
    (hallowed : u.Allowed cfg s.db c) : u.Clean cfg be now c s ↔ u.Fits be s.db c := by
  cases u with
  | spot uid payload =>
      obtain ⟨⟨staff, hcaller, hstaff⟩, x, hx⟩ := hallowed
      have hstored : refusesSpotRow be x = none := hrows.spots x (Table.find?_eq_some.1 hx).1
      have hfits : (PartialUpdate.spot uid payload).Fits be s.db c ↔
          (InternalSpots.refusesUpdate staff x payload.toSpotUpdate ≠ none ∨
            SpotFits be payload.data x) := by
        constructor
        · exact fun h => h staff x hcaller hx
        · intro h staff' x' hcaller' hx'
          cases hcaller.symm.trans hcaller'
          cases hx.symm.trans hx'
          exact h
      rw [hfits]
      apply clean_iff_of_lone hs
      · intro hgood
        -- a refusal is a clean end: it answers before the first flush
        cases hrefuses : InternalSpots.refusesUpdate staff x payload.toSpotUpdate with
        | some e =>
            obtain ⟨code, message, rfl⟩ := app_of_refusesUpdate hrefuses
            have hrefused : Evaluates
                (InternalSpots.updateSpot cfg be now c uid payload.toSpotUpdate) s.db
                (.error (.app code message)) := by
              apply (Images.evaluates_requireStaff hcaller hstaff).bind_ok
              apply (Images.evaluates_findSpot cfg hx).bind_ok
              rw [hrefuses]
              exact .raise _ s.db
            exact lone_bind_error hrefused fun t ht => .inr ⟨⟨code, message, rfl⟩, ht⟩
        | none =>
            have hvalues := hgood.resolve_left fun h => h hrefuses
            exact Lone.conseq (lone_spot hbe hcaller hstaff hx hstored hrefuses hvalues)
              (fun _ ht => ht) fun _ _ h => .inl h
      · intro hnot
        obtain ⟨hrefuses, hunfit⟩ := not_or.1 hnot
        exact lone_spot_unfit hbe hwide hcaller hstaff hx hstored (not_not.1 hrefuses) hunfit
  | group uid payload =>
      obtain ⟨⟨user, m, hcaller, hm, hrole⟩, g, hg⟩ := hallowed
      -- the reads before the load of the row change nothing, whatever the values are
      have hmember := evaluates_requireGroupRole hcaller hm hrole hg
      have hanswer : ∀ g d, ∃ b, Evaluates (SpotGroups.toDetail g (some m.role)) d (.ok (b, d)) :=
        fun _ d => ⟨_, Evaluates.select (.ret _ d)⟩
      apply clean_iff_of_lone hs
      · intro hgood
        simp only [program, SpotGroups.updateGroup, Prog.bind_eq_bind, Prog.bind_assoc]
        apply lone_bind hmember
        exact Lone.conseq (lone_group hanswer hg hgood) (fun _ ht => ht) fun _ _ h => .inl h
      · intro hbad
        simp only [program, SpotGroups.updateGroup, Prog.bind_eq_bind, Prog.bind_assoc]
        apply lone_bind hmember
        exact lone_group_unfit hg (hrows.groups g (Table.find?_eq_some.1 hg).1) hbad
  | consoleGroup uid payload =>
      obtain ⟨⟨staff, hcaller, hstaff⟩, g, hg⟩ := hallowed
      have hanswer : ∀ g d, ∃ b, Evaluates (InternalSpotGroups.toAdminDetail g) d (.ok (b, d)) :=
        fun _ d => ⟨_, Evaluates.select (Evaluates.select (.ret _ d))⟩
      apply clean_iff_of_lone hs
      · intro hgood
        simp only [program, InternalSpotGroups.updateGroup, Prog.bind_eq_bind, Prog.bind_assoc]
        apply lone_bind (Images.evaluates_requireStaff hcaller hstaff)
        apply lone_bind (Access.evaluates_findGroup hg)
        exact Lone.conseq (lone_group hanswer hg hgood) (fun _ ht => ht) fun _ _ h => .inl h
      · intro hbad
        simp only [program, InternalSpotGroups.updateGroup, Prog.bind_eq_bind, Prog.bind_assoc]
        apply lone_bind (Images.evaluates_requireStaff hcaller hstaff)
        apply lone_bind (Access.evaluates_findGroup hg)
        exact lone_group_unfit hg (hrows.groups g (Table.find?_eq_some.1 hg).1) hbad
  | review spotUid uid payload =>
      obtain ⟨user, x, r, hcaller, hx, hlive, hcoordinates, hr, hspot, hactive, hown⟩ := hallowed
      have hfound : Evaluates (SpotReviews.findActiveReview cfg spotUid uid) s.db (.ok (r, s.db)) :=
        evaluates_findActiveReview hx hlive hcoordinates hr hspot hactive
      apply clean_iff_of_lone hs
      · intro hgood
        simp only [program, SpotReviews.updateReview, Prog.bind_eq_bind, Prog.bind_assoc]
        apply lone_bind hfound
        apply lone_bind (Access.evaluates_getCurrentUser hcaller)
        rw [if_neg (by simp [hown])]
        exact Lone.conseq (lone_review haggregates hrows hr hgood) (fun _ ht => ht) fun _ _ h =>
          .inl ⟨h.1, hspot ▸ h.2⟩
      · intro hbad
        simp only [program, SpotReviews.updateReview, Prog.bind_eq_bind, Prog.bind_assoc]
        apply lone_bind hfound
        apply lone_bind (Access.evaluates_getCurrentUser hcaller)
        rw [if_neg (by simp [hown])]
        exact lone_review_unfit hr (hrows.reviews r (Table.find?_eq_some.1 hr).1).2 hbad

end Clean

/-! ## Some updates -/

namespace Sample

/-- The payload that supplies one field of a spot. -/
def ofSpot (a : SpotAttr) (heditable : a.isEditable = true) (haccepted : a.accepted = true) :
    AcceptedSpotUpdate where
  data := [a]
  nodup := List.nodup_singleton _
  editable := List.forall_mem_singleton.2 heditable
  accepted := List.forall_mem_singleton.2 haccepted

/-- The payload that supplies one field of a group. -/
def ofGroup (a : GroupAttr) (haccepted : a.accepted = true) : SpotGroupUpdate where
  data := [a]
  nodup := List.nodup_singleton _
  accepted := List.forall_mem_singleton.2 haccepted

/-- The payload that supplies one field of a review. -/
def ofReview (a : ReviewAttr) (haccepted : a.accepted = true) : SpotReviewUpdate where
  data := [a]
  nodup := List.nodup_singleton _
  accepted := List.forall_mem_singleton.2 haccepted

/-- A superuser. -/
def admin : User := { Sample.user "u" with isStaff := true, staffRole := .superuser }

def camp : Spot := Sample.spot "s"

def campers : SpotGroup := { uid := "g", name := "Campers" }

def owner : SpotGroupMember := { groupUid := "g", userUid := "u", role := .owner }

def review : SpotReview := { uid := "r", spotUid := "s", userId := "u", rating := 8 }

/-- A published spot, a group of the superuser and its review. -/
def tables : Db where
  __ := Db.empty
  users := ⟨[admin], List.nodup_singleton _⟩
  spots := ⟨[camp], List.nodup_singleton _⟩
  groups := ⟨[campers], List.nodup_singleton _⟩
  members := ⟨[owner], List.nodup_singleton _⟩
  reviews := ⟨[review], List.nodup_singleton _⟩

/-- A database that refuses a number out of the range of its column, and nothing else. -/
def integers : Backend where
  __ := Sample.backend
  refusesSpot s := if s.unitCount.any fun n =>
    !inInteger n then some "value out of int32 range" else none

theorem ignoresStamps_integers : integers.IgnoresStamps := by
  intro s t h
  have hcount : s.unitCount = t.unitCount :=
    SqlValue.nullable_injective (f := .integer) (fun _ _ h => by cases h; rfl) nofun
      (h.columns .unitCount nofun nofun nofun)
  simp only [integers, hcount]

theorem refusesWideIntegers_integers : integers.RefusesWideIntegers := by
  intro s n hn hwide
  simp [integers, hn, hwide]

theorem takesAggregates_integers : Creation.TakesAggregates integers :=
  fun _ _ _ _ h => h

theorem rowsTaken_tables : RowsTaken integers tables where
  spots := List.forall_mem_singleton.2 rfl
  reviews := List.forall_mem_singleton.2 ⟨rfl, rfl⟩
  groups := List.forall_mem_singleton.2 ⟨rfl, rfl⟩

/-- A superuser may update the spot. -/
theorem allowed_spot (payload : AcceptedSpotUpdate) :
    (PartialUpdate.spot "s" payload).Allowed Vivac.Sample.settings tables (.access "u") :=
  ⟨⟨admin, rfl, rfl⟩, camp, rfl⟩

end Sample

/-- A tagline is set by a superuser. -/
theorem clean_tagline : (PartialUpdate.spot "s"
    (Sample.ofSpot (.tagline (some "By the river")) rfl rfl)).Clean Vivac.Sample.settings
      Sample.integers 1 (.access "u") (World.fresh Sample.tables) := by
  have hstart : Between (World.fresh Sample.tables : State Unit) := rfl
  apply (clean_iff Sample.ignoresStamps_integers Sample.refusesWideIntegers_integers
    Sample.takesAggregates_integers hstart Sample.rowsTaken_tables (Sample.allowed_spot _)).2
  intro staff x _ hx
  cases hx
  refine .inr ⟨by decide, fun t ht => ?_⟩
  cases ht
  rfl

/-- A null title, a number of units beyond the range of its column, a null name and a null rating
pass the schemas, and are no clean updates. -/
theorem not_clean_null :
    (¬(PartialUpdate.spot "s" (Sample.ofSpot (.title none) rfl rfl)).Clean Vivac.Sample.settings
      Sample.integers 1 (.access "u") (World.fresh Sample.tables)) ∧
    (¬(PartialUpdate.spot "s" (Sample.ofSpot (.unitCount (some 2147483648)) rfl rfl)).Clean
      Vivac.Sample.settings Sample.integers 1 (.access "u") (World.fresh Sample.tables)) ∧
    (¬(PartialUpdate.group "g" (Sample.ofGroup (.name none) rfl)).Clean Vivac.Sample.settings
      Sample.integers 1 (.access "u") (World.fresh Sample.tables)) ∧
    ¬(PartialUpdate.review "s" "r" (Sample.ofReview (.rating none) rfl)).Clean Vivac.Sample.settings
      Sample.integers 1 (.access "u") (World.fresh Sample.tables) := by
  have hstart : Between (World.fresh Sample.tables : State Unit) := rfl
  have hcaller : Access.caller? Sample.tables (.access "u") = some Sample.admin := rfl
  have hs : Sample.tables.spots.find? "s" = some Sample.camp := rfl
  have hspot : ∀ (a : SpotAttr) (heditable : a.isEditable = true) (haccepted : a.accepted = true),
      InternalSpots.refusesUpdate Sample.admin (Sample.camp)
        (Sample.ofSpot a heditable haccepted).toSpotUpdate = none → a.fits = false →
      ¬(PartialUpdate.spot "s" (Sample.ofSpot a heditable haccepted)).Clean Vivac.Sample.settings
        Sample.integers 1 (.access "u") (World.fresh Sample.tables) := by
    intro a heditable haccepted hallowed hunfit
    apply not_clean_of_lone hstart
    apply lone_spot_unfit Sample.ignoresStamps_integers Sample.refusesWideIntegers_integers hcaller
      rfl hs rfl hallowed
    intro hfits
    have hfit := hfits.values a List.mem_cons_self
    rw [hunfit] at hfit
    cases hfit
  refine ⟨hspot _ _ _ rfl rfl, hspot _ _ _ rfl rfl, ?_, ?_⟩
  · apply not_clean_of_lone hstart
    have hmember : Evaluates (SpotGroups.requireGroupRole .editor "g" (.access "u")) Sample.tables
        (.ok ((Sample.campers, Sample.owner), Sample.tables)) :=
      evaluates_requireGroupRole hcaller rfl (by decide) rfl
    simp only [program, SpotGroups.updateGroup, Prog.bind_eq_bind, Prog.bind_assoc]
    apply lone_bind hmember
    have hg : Sample.tables.groups.find? "g" = some Sample.campers := rfl
    exact lone_group_unfit hg ⟨rfl, rfl⟩ fun h => absurd (h _ List.mem_cons_self) Bool.false_ne_true
  · apply not_clean_of_lone hstart
    have hfound :
        Evaluates (SpotReviews.findActiveReview Vivac.Sample.settings "s" "r") Sample.tables
        (.ok (Sample.review, Sample.tables)) :=
      evaluates_findActiveReview hs rfl (fun h => absurd h Bool.false_ne_true) rfl rfl rfl
    simp only [program, SpotReviews.updateReview, Prog.bind_eq_bind, Prog.bind_assoc]
    apply lone_bind hfound
    apply lone_bind (Access.evaluates_getCurrentUser hcaller)
    rw [if_neg (by decide)]
    have hr : Sample.tables.reviews.find? "r" = some Sample.review := rfl
    exact lone_review_unfit hr rfl fun h => absurd (h _ List.mem_cons_self) Bool.false_ne_true

end PartialUpdate

end Vivac
