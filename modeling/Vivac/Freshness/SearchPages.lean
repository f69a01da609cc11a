import Vivac.Freshness.PublicCache
import Vivac.Freshness.ReviewCalls
import Vivac.Lib.MovedRow
import Vivac.Reads.CursorScopes

/-!
# Cached search pages and reviews

A search orders by score, rating and uid, and its cursor carries the rating, but a call that writes
a review raises the version of the detail only. So a search page from before the call is served
after it. It has the rows and the cursor of a page from after the call exactly when the new rating
neither moves the reviewed spot on the page nor goes into the page's cursor
(`cached_page_right_iff`).
-/

set_option autoImplicit false

namespace Vivac

open Lib App

/-- Full-text search reads the texts of a spot only. -/
def SearchesTexts (be : Backend) : Prop :=
  ∀ (s s' : Spot) (q : String), s.title = s'.title → s.tagline = s'.tagline →
    s.description = s'.description → s.address = s'.address →
      be.searchScore s q = be.searchScore s' q ∧ be.searchMatch s q = be.searchMatch s' q

/-- The filters of a list request. -/
def ListRequest.filter (req : ListRequest) : Except Exc ExploreFilter :=
  (parseOptionalBbox req.bbox).map fun parsedBbox =>
    { category := req.category, regionProvince := req.regionProvince, bbox := parsedBbox }

/-! ## What a search lists -/

section Search

variable (cfg : Settings) (be : Backend) (query : String) (flt : ExploreFilter)

/-- The condition a cursor adds. -/
def belowFilter (cursor : Option String) : Except Exc (Spot → Bool) :=
  match cursor with
  | some c =>
    if c = "" then .ok fun _ => true
    else (decodeSearchCursor be c).bind fun last =>
      (rejectScopeMismatch last.2.2.2 (scopeToken be flt.bbox)).map fun _ =>
        belowCursor be query (last.1, last.2.1, last.2.2.1)
  | none => .ok fun _ => true

/-- The row is on some page of the search from its cursor on. -/
def isListed (shown below : Spot → Bool) (s : Spot) : Bool :=
  shown s && be.searchMatch s query && below s

/-- The rows of a search from its cursor on, best first. -/
def searchResults (shown below : Spot → Bool) (d : Db) : List Spot :=
  orderBySearch be query (d.spots.select (isListed be query shown below))

/-- The cursor after a row. -/
def cursorAfter (s : Spot) : String :=
  encodeSearchCursor be (be.searchScore s query) s.ratingAvg s.uid (scopeToken be flt.bbox)

/-- A search checks the region and the cursor, and then reads a page. -/
theorem searchSpots_eq_below (cursor : Option String) (limit : ℕ) :
    searchSpots cfg be query flt cursor limit =
      (Prog.ofExcept (applyExploreFilters cfg flt)).bind fun shown =>
        (Prog.ofExcept (belowFilter be query flt cursor)).bind fun below =>
          (select fun d => (searchResults be query shown below d).take (limit + 1)).bind
            (finishPage limit (cursorAfter be query flt)) := by
  cases cursor with
  | none => rfl
  | some c =>
      by_cases hne : c = ""
      · rw [hne]
        rfl
      · rw [searchSpots_some cfg be flt hne]
        simp only [belowFilter, if_neg hne]
        congr 1
        funext shown
        cases decodeSearchCursor be c with
        | error e => rfl
        | ok last =>
            simp only [Prog.ofExcept, Prog.bind_ret, Except.bind]
            cases rejectScopeMismatch last.2.2.2 (scopeToken be flt.bbox) <;> rfl

end Search

/-- A page shows the same rows in the same order, and goes on alike. -/
structure SameListing (resp resp' : SpotListResponse) : Prop where
  items : resp.items.map SpotListItem.uid = resp'.items.map SpotListItem.uid
  nextCursor : resp.nextCursor = resp'.nextCursor
  hasMore : resp.hasMore = resp'.hasMore

section Body

variable {cfg : Settings} {be : Backend} {req : ListRequest} {flt : ExploreFilter}
  {shown below : Spot → Bool}

/-- The answer shows the first rows of the list. -/
structure ListsPage (be : Backend) (req : ListRequest) (flt : ExploreFilter) (rows : List Spot)
    (resp : SpotListResponse) : Prop where
  items : resp.items.map SpotListItem.uid = (rows.take req.limit).map Spot.uid
  hasMore : resp.hasMore = decide (req.limit < rows.length)
  nextCursor : resp.nextCursor =
    if req.limit < rows.length then
      (rows.take req.limit).getLast?.map (cursorAfter be (req.q.getD "") flt)
    else none

/-- Two answers are alike exactly when their lists have one first page. -/
theorem sameListing_iff {rows rows' : List Spot} {resp resp' : SpotListResponse}
    (h : ListsPage be req flt rows resp) (h' : ListsPage be req flt rows' resp') :
    SameListing resp resp' ↔
      SamePage Spot.uid (cursorAfter be (req.q.getD "") flt) req.limit rows rows' := by
  constructor
  · intro hsame
    have hmore : req.limit < rows.length ↔ req.limit < rows'.length := by
      have heq := hsame.hasMore
      rw [h.hasMore, h'.hasMore] at heq
      exact decide_eq_decide.1 heq
    refine ⟨by rw [← h.items, ← h'.items, hsame.items], hmore, fun hlt => ?_⟩
    have heq := hsame.nextCursor
    rwa [h.nextCursor, h'.nextCursor, if_pos hlt, if_pos (hmore.1 hlt)] at heq
  · intro hsame
    refine ⟨by rw [h.items, h'.items, hsame.rows], ?_, ?_⟩
    · rw [h.nextCursor, h'.nextCursor]
      by_cases hlt : req.limit < rows.length
      · rw [if_pos hlt, if_pos (hsame.more.1 hlt), hsame.next hlt]
      · rw [if_neg hlt, if_neg fun hlt' => hlt (hsame.more.2 hlt')]
    · rw [h.hasMore, h'.hasMore]
      exact decide_eq_decide.2 hsame.more

/-- The end of a paged read, without the row it looks ahead. -/
theorem finishPage_take {ρ : Type} {limit : ℕ} (hl : 1 ≤ limit) (encode : ρ → String)
    (rows : List ρ) :
    finishPage limit encode (rows.take (limit + 1)) =
      .ret (rows.take limit,
        if limit < rows.length then (rows.take limit).getLast?.map encode else none,
        decide (limit < rows.length)) := by
  have hlength : limit < (rows.take (limit + 1)).length ↔ limit < rows.length := by
    rw [List.length_take]
    omega
  have htake : (rows.take (limit + 1)).take limit = rows.take limit := by
    rw [List.take_take, Nat.min_eq_left (Nat.le_succ limit)]
  unfold finishPage
  by_cases hlt : limit < rows.length
  · obtain ⟨last, hlast⟩ : ∃ last, (rows.take limit).getLast? = some last := by
      rw [getLast?_take_of_le hl hlt.le]
      exact ⟨_, List.getElem?_eq_getElem (by omega)⟩
    rw [if_pos (hlength.2 hlt), if_pos hlt, htake, lastOf, hlast, decide_eq_true hlt]
    rfl
  · have hall : rows.take (limit + 1) = rows.take limit := by
      rw [List.take_of_length_le (by omega), List.take_of_length_le (by omega)]
    rw [if_neg fun h => hlt (hlength.1 h), if_neg hlt, hall, decide_eq_false hlt]

/-- What follows the page in a list body reads more, and does not change the page. -/
theorem evaluates_rest (be : Backend) (req : ListRequest) (d : Db)
    (hs : applyExploreFilters cfg flt = .ok shown)
    (spots : List Spot) (nextCursor : Option String) (hasMore : Bool) :
    ∃ resp : SpotListResponse, resp.items.map SpotListItem.uid = spots.map Spot.uid ∧
      resp.nextCursor = nextCursor ∧ resp.hasMore = hasMore ∧
      Evaluates ((countSpots cfg be req.q flt).bind fun counted =>
        (getThumbnailsBySpots (spots.map Spot.uid)).bind fun thumbnails =>
          .ret (⟨spots.map (Explore.toListItem be thumbnails), nextCursor, hasMore, counted.1,
            counted.2⟩ : SpotListResponse)) d (.ok (resp, d)) := by
  have hcount : ∃ counted, Evaluates (countSpots cfg be req.q flt) d (.ok (counted, d)) := by
    unfold countSpots
    simp only [Prog.bind_eq_bind, hs, Prog.ofExcept, Prog.bind_ret]
    have hcapped : ∀ total, ∃ counted, Evaluates (if totalCap < total then
        (.ret (totalCap, true) : App (ℕ × Bool))
          else .ret (total, false)) d (.ok (counted, d)) := by
      intro total
      split
      · exact ⟨_, .ret _ _⟩
      · exact ⟨_, .ret _ _⟩
    obtain ⟨counted, hcounted⟩ := hcapped _
    exact ⟨counted, Evaluates.select hcounted⟩
  have hthumbnails : ∃ thumbnails,
      Evaluates (getThumbnailsBySpots (spots.map Spot.uid)) d (.ok (thumbnails, d)) := by
    unfold getThumbnailsBySpots
    split
    · exact ⟨_, .ret _ _⟩
    · exact ⟨_, Evaluates.statement _ _⟩
  obtain ⟨counted, hcounted⟩ := hcount
  obtain ⟨thumbnails, hthumbs⟩ := hthumbnails
  refine ⟨_, ?_, rfl, rfl, hcounted.bind_ok (hthumbs.bind_ok (.ret _ _))⟩
  rw [List.map_map]
  rfl

/-- A list body of a search whose cursor is taken. -/
theorem evaluates_listBody (d : Db) (hq : nonblank req.q = true)
    (hs : applyExploreFilters cfg flt = .ok shown)
    (hb : belowFilter be (req.q.getD "") flt req.cursor = .ok below) :
    ∃ resp, ListsPage be req flt (searchResults be (req.q.getD "") shown below d) resp ∧
      Evaluates (Explore.listBody cfg be req flt) d (.ok (resp, d)) := by
  generalize hrows : searchResults be (req.q.getD "") shown below d = rows
  have hpage : Evaluates (searchSpots cfg be (req.q.getD "") flt req.cursor req.limit) d
      (.ok ((rows.take req.limit, if req.limit < rows.length then
        (rows.take req.limit).getLast?.map (cursorAfter be (req.q.getD "") flt) else none,
          decide (req.limit < rows.length)), d)) := by
    rw [searchSpots_eq_below, hs, hb]
    apply Evaluates.select
    rw [hrows, finishPage_take req.limit_ge]
    exact .ret _ _
  obtain ⟨resp, hitems, hnext, hmore, hrest⟩ := evaluates_rest be req d hs
    (rows.take req.limit)
    (if req.limit < rows.length then
      (rows.take req.limit).getLast?.map (cursorAfter be (req.q.getD "") flt) else none)
    (decide (req.limit < rows.length))
  refine ⟨resp, ⟨hitems, hmore, hnext⟩, ?_⟩
  unfold Explore.listBody
  rw [if_pos hq]
  exact hpage.bind_ok hrest

end Body

/-! ## The reviewed spot in the list -/

section Moved

variable {cfg : Settings} {be : Backend} {query : String} {flt : ExploreFilter}
  {shown below : Spot → Bool}

theorem nodup_searchOrder {rows : List Spot} (h : (rows.map Spot.uid).Nodup) :
    (rows.map (searchOrder be query)).Nodup := by
  have huids : rows.map Spot.uid = (rows.map (searchOrder be query)).map
      fun k => (ofLex (ofLex (OrderDual.ofDual k)).2).2 := by
    rw [List.map_map]
    rfl
  rw [huids] at h
  exact List.Nodup.of_map _ h

/-- The filter of the explore pages does not look at the rating. -/
theorem shown_congr (hs : applyExploreFilters cfg flt = .ok shown) {s s' : Spot}
    (hlive : s.live = s'.live) (hcoordinates : s.hasCoordinates = s'.hasCoordinates)
    (hcategory : s.category = s'.category) (hregion : s.regionProvince = s'.regionProvince)
    (hlatitude : s.latitude = s'.latitude) (hlongitude : s.longitude = s'.longitude) :
    shown s = shown s' := by
  have hin : ∀ f, regionFilter flt.regionProvince = .ok f → f s = f s' := by
    intro f hf
    unfold regionFilter at hf
    split at hf
    · split at hf
      · cases hf
        rfl
      · split at hf
        · cases hf
        · cases hf
          simp only [hregion]
    · cases hf
      rfl
  unfold applyExploreFilters at hs
  cases hfilter : regionFilter flt.regionProvince with
  | error e =>
      rw [hfilter] at hs
      cases hs
  | ok f =>
      rw [hfilter] at hs
      cases hs
      have hoverlaps : categoryFilter flt.category s = categoryFilter flt.category s' := by
        simp only [categoryFilter, Spot.overlaps, hcategory]
      have hbox : bboxFilter flt.bbox s = bboxFilter flt.bbox s' := by
        simp only [bboxFilter, hlatitude, hlongitude]
      simp only [hlive, hcoordinates, hoverlaps, hbox, hin f hfilter]

/-- A cursor looks at the score, the rating and the uid. -/
theorem below_congr {cursor : Option String} (hb : belowFilter be query flt cursor = .ok below)
    {s s' : Spot} (hscore : be.searchScore s query = be.searchScore s' query)
    (hrating : s.ratingAvg = s'.ratingAvg) (huid : s.uid = s'.uid) : below s = below s' := by
  have hcursor : ∀ last, belowCursor be query last s = belowCursor be query last s' := by
    intro last
    simp only [belowCursor, hscore, hrating, huid]
  unfold belowFilter at hb
  split at hb
  · split at hb
    · cases hb
      rfl
    · rename_i c _
      cases hlast : decodeSearchCursor be c with
      | error e =>
          rw [hlast] at hb
          cases hb
      | ok last =>
          rw [hlast, Except.bind] at hb
          cases hscope : rejectScopeMismatch last.2.2.2 (scopeToken be flt.bbox) with
          | error e =>
              rw [hscope] at hb
              cases hb
          | ok _ =>
              rw [hscope] at hb
              cases hb
              exact hcursor _
  · cases hb
    rfl

/-- Cursors of rows that differ in the rating differ. -/
theorem cursorAfter_eq_iff (hx : ExactTexts be) {s s' : Spot}
    (hscore : be.searchScore s query = be.searchScore s' query) (huid : s.uid = s'.uid) :
    cursorAfter be query flt s = cursorAfter be query flt s' ↔ s.ratingAvg = s'.ratingAvg := by
  unfold cursorAfter
  rw [hscore, huid]
  constructor
  · intro h
    have hdecode := congrArg (decodeSearchCursor be) h
    rw [(decodeSearchCursor_encode hx ..).1, (decodeSearchCursor_encode hx ..).1] at hdecode
    exact FiniteFloat.num.inj
      (PyFloat.fin.inj (Prod.mk.inj (Prod.mk.inj (Except.ok.inj hdecode)).2).1)
  · exact fun h => by rw [h]

/-- The other rows that the search lists. -/
def rivals (be : Backend) (query : String) (shown below : Spot → Bool) (uid : String) (d : Db) :
    List Spot :=
  d.spots.select fun s => isListed be query shown below s && s.uid != uid

/-- The rivals, by the rows around the row. -/
theorem rivals_split {l₁ l₂ : List Spot} {x : Spot} {d : Db} (hrows : d.spots.rows = l₁ ++ x :: l₂)
    (hothers : ∀ s ∈ l₁ ++ l₂, s.uid ≠ x.uid) :
    rivals be query shown below x.uid d = (l₁ ++ l₂).filter (isListed be query shown below) := by
  have hsame : ∀ l : List Spot, (∀ s ∈ l, s.uid ≠ x.uid) →
      (l.filter fun s => isListed be query shown below s && s.uid != x.uid) =
        l.filter (isListed be query shown below) := by
    intro l hl
    apply List.filter_congr
    intro s hs
    simp [hl s hs]
  unfold rivals Table.select
  rw [hrows, List.filter_append, List.filter_append,
    hsame l₁ fun s hs => hothers s (List.mem_append_left _ hs), List.filter_cons_of_neg (by simp),
    hsame l₂ fun s hs => hothers s (List.mem_append_right _ hs)]

/-- The number of rivals that come before the row. -/
def rankAmong (be : Backend) (query : String) (others : List Spot) (s : Spot) : ℕ :=
  Keyset.rank (searchOrder be query) (searchOrder be query s) others

/-- The row with the new rating leaves the first page of `n` as it was: where both ratings are below
the request's cursor it stays at its place or behind the page, and is not the last row of a page
that goes on; where only one of them is, the row is behind the page, with others there. -/
def KeepsPlace (be : Backend) (query : String) (below : Spot → Bool) (n : ℕ) (others : List Spot)
    (s s' : Spot) : Prop :=
  match below s, below s' with
  | true, true => min (rankAmong be query others s) n = min (rankAmong be query others s') n ∧
      ¬(rankAmong be query others s + 1 = n ∧ n ≤ others.length)
  | true, false => n ≤ rankAmong be query others s ∧ n < others.length
  | false, true => n ≤ rankAmong be query others s' ∧ n < others.length
  | false, false => True

/-- What the search lists, by the row `x` and the rows around it. -/
theorem sort_split {l₁ l₂ : List Spot} {x : Spot} (h : ((l₁ ++ x :: l₂).map Spot.uid).Nodup)
    (p : Spot → Bool) :
    orderBySearch be query ((l₁ ++ x :: l₂).filter p) =
      if p x then (Keyset.sort (searchOrder be query) ((l₁ ++ l₂).filter p)).insertIdx
        (rankAmong be query ((l₁ ++ l₂).filter p) x) x
      else Keyset.sort (searchOrder be query) ((l₁ ++ l₂).filter p) := by
  have hkeys : ((x :: (l₁ ++ l₂)).map (searchOrder be query)).Nodup :=
    nodup_searchOrder ((List.perm_middle.map Spot.uid).nodup_iff.1 h)
  exact Keyset.sort_filter_split p hkeys

/-- The first page before and after the row `x` has become `x'`. -/
theorem samePage_moved_iff (hx : ExactTexts be) {n : ℕ} (hn : 1 ≤ n) {l₁ l₂ : List Spot}
    {x x' : Spot} (hnodup : ((l₁ ++ x :: l₂).map Spot.uid).Nodup) (huid : x'.uid = x.uid)
    (hscore : be.searchScore x' query = be.searchScore x query)
    (hmatch : be.searchMatch x' query = be.searchMatch x query) (hshown : shown x' = shown x)
    {cursor : Option String} (hb : belowFilter be query flt cursor = .ok below) :
    SamePage Spot.uid (cursorAfter be query flt) n
        (orderBySearch be query ((l₁ ++ x :: l₂).filter (isListed be query shown below)))
        (orderBySearch be query ((l₁ ++ x' :: l₂).filter (isListed be query shown below))) ↔
      (shown x = true → be.searchMatch x query = true → x'.ratingAvg ≠ x.ratingAvg →
        KeepsPlace be query below n ((l₁ ++ l₂).filter (isListed be query shown below)) x x') := by
  generalize hp : isListed be query shown below = p
  have hnodup' : ((l₁ ++ x' :: l₂).map Spot.uid).Nodup := by
    rw [List.map_append, List.map_cons, huid, ← List.map_cons, ← List.map_append]
    exact hnodup
  have hothers : ∀ y ∈ Keyset.sort (searchOrder be query) ((l₁ ++ l₂).filter p), y.uid ≠ x.uid := by
    intro y hy heq
    have hmem := (List.mem_filter.1 ((List.mem_insertionSort _).1 hy)).1
    have hfirst := (List.perm_middle.map Spot.uid).nodup_iff.1 hnodup
    rw [List.map_cons, List.nodup_cons] at hfirst
    exact hfirst.1 (heq ▸ List.mem_map_of_mem hmem)
  have hlength : (Keyset.sort (searchOrder be query) ((l₁ ++ l₂).filter p)).length =
      ((l₁ ++ l₂).filter p).length := List.length_insertionSort ..
  have hrank : ∀ y : Spot, rankAmong be query ((l₁ ++ l₂).filter p) y ≤
      (Keyset.sort (searchOrder be query) ((l₁ ++ l₂).filter p)).length := by
    intro y
    rw [hlength]
    exact Keyset.rank_le_length _ _
  rw [sort_split hnodup p, sort_split hnodup' p]
  by_cases hin : shown x = true ∧ be.searchMatch x query = true
  · obtain ⟨hshown₁, hmatch₁⟩ := hin
    have hpx : p x = below x := by
      simp only [← hp, isListed, hshown₁, hmatch₁, Bool.true_and]
    have hpx' : p x' = below x' := by
      simp only [← hp, isListed, hshown, hmatch, hshown₁, hmatch₁, Bool.true_and]
    rw [hpx, hpx']
    by_cases hrating : x'.ratingAvg = x.ratingAvg
    · -- the row has its old sort key
      refine iff_of_true ?_ fun _ _ hne => absurd hrating hne
      have hbelow : below x' = below x := below_congr hb hscore hrating huid
      have horder : searchOrder be query x' = searchOrder be query x := by
        simp only [searchOrder, searchKey, hscore, hrating, huid]
      have hsame : rankAmong be query ((l₁ ++ l₂).filter p) x' =
          rankAmong be query ((l₁ ++ l₂).filter p) x := by
        rw [rankAmong, rankAmong, horder]
      rw [hbelow, hsame]
      split
      · refine (samePage_insertIdx_iff hn (hrank x) (hrank x) huid hothers).2 ⟨rfl, fun _ _ => ?_⟩
        exact (cursorAfter_eq_iff hx hscore.symm huid.symm).2 hrating.symm
      · exact SamePage.refl _
    · have hcond : (shown x = true → be.searchMatch x query = true → x'.ratingAvg ≠ x.ratingAvg →
          KeepsPlace be query below n ((l₁ ++ l₂).filter p) x x') ↔
          KeepsPlace be query below n ((l₁ ++ l₂).filter p) x x' :=
        ⟨fun h => h hshown₁ hmatch₁ hrating, fun h _ _ _ => h⟩
      rw [hcond, KeepsPlace]
      cases hbx : below x with
      | true =>
          cases hbx' : below x' with
          | true =>
              rw [if_pos rfl, if_pos rfl,
                samePage_insertIdx_iff hn (hrank x) (hrank x') huid hothers, hlength]
              refine and_congr_right fun _ => ?_
              have hcursor : cursorAfter be query flt x ≠ cursorAfter be query flt x' := fun h =>
                hrating ((cursorAfter_eq_iff hx hscore.symm huid.symm).1 h).symm
              constructor
              · exact fun h hlast => hcursor (h hlast.1 hlast.2)
              · exact fun h hlast hlong => absurd ⟨hlast, hlong⟩ h
          | false =>
              rw [if_pos rfl, if_neg Bool.false_ne_true,
                samePage_insertIdx_self_iff (hrank x) hothers, hlength]
      | false =>
          cases hbx' : below x' with
          | true =>
              have hothers' : ∀ y ∈ Keyset.sort (searchOrder be query) ((l₁ ++ l₂).filter p),
                  y.uid ≠ x'.uid := fun y hy => huid ▸ hothers y hy
              rw [if_neg Bool.false_ne_true, if_pos rfl, ← hlength,
                ← samePage_insertIdx_self_iff (hrank x') hothers']
              exact ⟨SamePage.symm, SamePage.symm⟩
          | false =>
              rw [if_neg Bool.false_ne_true]
              exact iff_of_true (SamePage.refl _) trivial
  · -- no rating brings the row into the list
    have hnot : (shown x && be.searchMatch x query) = false := by
      rw [Bool.eq_false_iff]
      intro h
      exact hin ((Bool.and_eq_true ..).mp h)
    have hpx : p x = false := by rw [← hp, isListed, hnot, Bool.false_and]
    have hpx' : p x' = false := by rw [← hp, isListed, hshown, hmatch, hnot, Bool.false_and]
    rw [hpx, hpx', if_neg Bool.false_ne_true]
    exact iff_of_true (SamePage.refl _) fun h₁ h₂ => absurd ⟨h₁, h₂⟩ hin

end Moved

/-! ## Requests for the list -/

namespace ListRequest

/-- The request is answered, from the one state to the other. -/
def Serves (cfg : Settings) (be : Backend) (req : ListRequest) (reply : Reply)
    (s s' : State Unit) : Prop :=
  runAlone (fun i => exec i) () (withSession (Explore.listSpots cfg be req)) s =
    some (.ok reply, s')

/-- The key of the request's body under the version in force. -/
def cacheKey (be : Backend) (req : ListRequest) (s : State Unit) : String :=
  Cache.spotsListKey (s.counter Cache.spotsVersionKey) (be.sha256 (Cache.rawParams req.params))

end ListRequest

/-- What follows a miss: the page is read, and stored. -/
def ListRequest.fill (cfg : Settings) (be : Backend) (req : ListRequest) (flt : ExploreFilter)
    (cacheKey : String) : App Reply :=
  (Explore.listBody cfg be req flt).bind fun response =>
    (Cache.setCached cfg cacheKey (.list response)).bind fun _ => .ret (.inr (.list response))

/-- A list request looks for its body in the cache. -/
theorem listSpots_eq_fill (cfg : Settings) (be : Backend) (req : ListRequest) :
    Explore.listSpots cfg be req =
      (Prog.ofExcept req.filter).bind fun flt =>
        (Cache.makeSpotsListKey cfg be req.params).bind fun cacheKey =>
          (Cache.getCached cfg cacheKey).bind fun cached =>
            cached.elim (req.fill cfg be flt cacheKey) .ret := by
  unfold Explore.listSpots ListRequest.filter
  simp only [Prog.bind_eq_bind]
  cases parseOptionalBbox req.bbox with
  | error e => rfl
  | ok parsedBbox =>
      simp only [Prog.ofExcept, Prog.bind_ret, Except.map]
      congr 1
      funext cacheKey
      congr 1
      funext cached
      cases cached <;> rfl

/-- The version of the lists is a number, or has not been raised yet. -/
def HasVersion (s : State Unit) : Prop := ∀ v p, s.redis Cache.spotsVersionKey ≠ some (.body v p)

section Requests

variable {cfg : Settings} (hredis : cfg.redisUrl = true) {be : Backend} {req : ListRequest}
  {s : State Unit}
include hredis

theorem runAlone_makeSpotsListKey (hversion : HasVersion s) :
    runAlone (fun i => exec i) () (Cache.makeSpotsListKey cfg be req.params) s =
      some (.ok (req.cacheKey be s), s.log () (.get Cache.spotsVersionKey)) := by
  unfold Cache.makeSpotsListKey Cache.getSpotsVersion Cache.getVersion
  rw [if_pos hredis, runAlone_bind]
  cases hkey : s.redis Cache.spotsVersionKey with
  | none =>
      have hexec : exec () (.get Cache.spotsVersionKey : Command (Option Reply)) s =
          some (.ok none, s.log () (.get Cache.spotsVersionKey)) := by
        simp only [exec, hkey]
      have hcounter : s.counter Cache.spotsVersionKey = 0 := by
        simp only [World.counter, hkey]
      simp only [tryExcept, Prog.tryCatch, runAlone_bind, runAlone_attempt, Prog.perform, runAlone,
        hexec, ListRequest.cacheKey, hcounter]
      rfl
  | some stored =>
      cases stored with
      | counter n =>
          have hexec : exec () (.get Cache.spotsVersionKey : Command (Option Reply)) s =
              some (.ok (some (.inl n)), s.log () (.get Cache.spotsVersionKey)) := by
            simp only [exec, hkey]
          have hcounter : s.counter Cache.spotsVersionKey = n := by
            simp only [World.counter, hkey]
          simp only [tryExcept, Prog.tryCatch, runAlone_bind, runAlone_attempt, Prog.perform,
            runAlone, hexec, ListRequest.cacheKey, hcounter]
          rfl
      | body v p => exact absurd hkey (hversion v p)

theorem runAlone_getCached_none {key : String} (h : s.redis key = none) :
    runAlone (fun i => exec i) () (Cache.getCached cfg key) s =
      some (.ok none, s.log () (.get key)) := by
  have hexec : exec () (.get key : Command (Option Reply)) s =
      some (.ok none, s.log () (.get key)) := by
    simp only [exec, h]
  unfold Cache.getCached
  rw [if_pos hredis]
  simp only [tryExcept, Prog.tryCatch, runAlone_bind, runAlone_attempt, Prog.perform, runAlone,
    hexec]
  rfl

theorem runAlone_getCached_body {key : String} {v : Body} {p : List ℕ}
    (h : s.redis key = some (.body v p)) :
    ∃ s', runAlone (fun i => exec i) () (Cache.getCached cfg key) s =
      some (.ok (some (.inr v)), s') := by
  have hexec : exec () (.get key : Command (Option Reply)) s = some (.ok (some (.inr v)),
      { s.log () (.get key) with prov := Function.update s.prov () (p ++ s.prov ()) }) := by
    simp only [exec, h]
  refine ⟨{ s.log () (.get key) with prov := Function.update s.prov () (p ++ s.prov ()) }, ?_⟩
  unfold Cache.getCached
  rw [if_pos hredis]
  simp only [tryExcept, Prog.tryCatch, runAlone_bind, runAlone_attempt, Prog.perform, runAlone,
    hexec]
  rfl

theorem runAlone_setCached (key : String) (v : Body) :
    runAlone (fun i => exec i) () (Cache.setCached cfg key v) s =
      some (.ok (), (s.log () (.set key)).store key (.body v (s.prov ()))) := by
  unfold Cache.setCached
  rw [if_pos hredis]
  rfl

/-- A cached body is served. -/
theorem exists_serves_of_cached {flt : ExploreFilter} (hfilter : req.filter = .ok flt)
    (hversion : HasVersion s) {v : Body} {p : List ℕ}
    (h : s.redis (req.cacheKey be s) = some (.body v p)) :
    ∃ s', req.Serves cfg be (.inr v) s s' := by
  obtain ⟨s', hcached⟩ := runAlone_getCached_body (s := s.log () (.get Cache.spotsVersionKey))
    hredis h
  refine ⟨endTx () (s'.log () .rollback), ?_⟩
  unfold ListRequest.Serves
  rw [runAlone_withSession, listSpots_eq_fill, hfilter, Prog.ofExcept, Prog.bind_ret, runAlone_bind,
    runAlone_makeSpotsListKey hredis hversion]
  simp only [Option.bind_some]
  rw [runAlone_bind, hcached]
  rfl

end Requests

section Filled

variable {cfg : Settings} {be : Backend} {req : ListRequest} {flt : ExploreFilter}

/-- A search lists a page, or is refused. -/
theorem listBody_cases (cfg : Settings) (be : Backend) (req : ListRequest) (flt : ExploreFilter)
    (d : Db) (hq : nonblank req.q = true) :
    (∃ shown below resp, applyExploreFilters cfg flt = .ok shown ∧
      belowFilter be (req.q.getD "") flt req.cursor = .ok below ∧
      ListsPage be req flt (searchResults be (req.q.getD "") shown below d) resp ∧
      Evaluates (Explore.listBody cfg be req flt) d (.ok (resp, d))) ∨
    ∃ e, Evaluates (Explore.listBody cfg be req flt) d (.error e) := by
  have hrefused : ∀ e, searchSpots cfg be (req.q.getD "") flt req.cursor req.limit = .raise e →
      Evaluates (Explore.listBody cfg be req flt) d (.error e) := by
    intro e h
    unfold Explore.listBody
    rw [if_pos hq, h]
    exact .raise _ _
  cases hs : applyExploreFilters cfg flt with
  | error e =>
      refine .inr ⟨e, hrefused e ?_⟩
      rw [searchSpots_eq_below, hs]
      rfl
  | ok shown =>
      cases hb : belowFilter be (req.q.getD "") flt req.cursor with
      | error e =>
          refine .inr ⟨e, hrefused e ?_⟩
          rw [searchSpots_eq_below, hs, hb]
          rfl
      | ok below =>
          obtain ⟨resp, hpage, hresp⟩ := evaluates_listBody d hq hs hb
          exact .inl ⟨shown, below, resp, rfl, rfl, hpage, hresp⟩

/-- The queries of a list body do not touch the cache. -/
theorem raisesOnly_listBody (vk : String) :
    (Explore.listBody cfg be req flt).Uses (RaisesOnly vk) := by
  have hfinish : ∀ (encode : Spot → String) (rows : List Spot),
      (finishPage req.limit encode rows).Uses (RaisesOnly vk) := by
    intro encode rows
    unfold finishPage
    split
    · exact (Prog.uses_ofExcept _).bind fun _ => trivial
    · trivial
  have hpage : (if nonblank req.q then searchSpots cfg be (req.q.getD "") flt req.cursor req.limit
      else listSpots cfg be req.cursor req.limit flt).Uses (RaisesOnly vk) := by
    split
    · rcases searchSpots_form cfg be flt (req.q.getD "") req.cursor req.limit with
        ⟨e, h⟩ | ⟨p, -, h⟩
      · rw [h]
        trivial
      · rw [h]
        exact (raisesOnly_execute _).bind fun rows => hfinish _ rows
    · rcases listSpots_form cfg be flt req.cursor req.limit with ⟨e, h⟩ | ⟨p, -, h⟩
      · rw [h]
        trivial
      · rw [h]
        exact (raisesOnly_execute _).bind fun rows => hfinish _ rows
  have hcount : (countSpots cfg be req.q flt).Uses (RaisesOnly vk) := by
    apply (Prog.uses_ofExcept _).bind
    intro shown
    apply (raisesOnly_execute _).bind
    intro total
    split <;> trivial
  have hthumbnails : ∀ uids, (getThumbnailsBySpots uids).Uses (RaisesOnly vk) := by
    intro uids
    unfold getThumbnailsBySpots
    split
    · trivial
    · exact raisesOnly_execute _
  rw [listBody_eq]
  apply hpage.bind
  intro page
  apply hcount.bind
  intro counted
  exact (hthumbnails _).bind fun _ => trivial

/-- What a search that finds nothing in the cache answers, and leaves there. -/
structure Fills (cfg : Settings) (be : Backend) (req : ListRequest) (resp : SpotListResponse)
    (s s' : State Unit) : Prop where
  between : Between s'
  db_eq : s'.db = s.db
  version : s'.redis Cache.spotsVersionKey = s.redis Cache.spotsVersionKey
  body : ∃ p, s'.redis (req.cacheKey be s) = some (.body (.list resp) p)
  page : ∃ flt shown below, req.filter = .ok flt ∧ applyExploreFilters cfg flt = .ok shown ∧
    belowFilter be (req.q.getD "") flt req.cursor = .ok below ∧
    ListsPage be req flt (searchResults be (req.q.getD "") shown below s.db) resp

/-- The page that a search stores. -/
theorem ListRequest.Serves.fills (hredis : cfg.redisUrl = true) (hq : nonblank req.q = true)
    {reply : Reply} {s s' : State Unit} (h : req.Serves cfg be reply s s') (hs : Between s)
    (hversion : HasVersion s) (hmiss : s.redis (req.cacheKey be s) = none) :
    ∃ resp, reply = .inr (.list resp) ∧ Fills cfg be req resp s s' := by
  have hbetween : Between s' := between_of_withSession h
  unfold ListRequest.Serves at h
  rw [runAlone_withSession, listSpots_eq_fill] at h
  obtain ⟨⟨r, s₁⟩, hrun, hout⟩ := Option.map_eq_some_iff.1 h
  cases hout
  cases hfilter : req.filter with
  | error e =>
      rw [hfilter] at hrun
      cases hrun
  | ok flt =>
      rw [hfilter, Prog.ofExcept, Prog.bind_ret, runAlone_bind,
        runAlone_makeSpotsListKey hredis hversion] at hrun
      simp only [Option.bind_some] at hrun
      rw [runAlone_bind, runAlone_getCached_none hredis (by exact hmiss)] at hrun
      simp only [Option.bind_some, Option.elim_none, ListRequest.fill] at hrun
      rw [runAlone_bind] at hrun
      obtain ⟨⟨out, s₂⟩, hbody, hstore⟩ := Option.bind_eq_some_iff.1 hrun
      have hsees : Sees () s.db [] s.db ((s.log () (.get Cache.spotsVersionKey)).log ()
          (.get (req.cacheKey be s))) := hs.sees.of_same rfl rfl rfl
      have hkeeps : ∀ key, key ≠ Cache.spotDetailVersionKey "" → s₂.redis key = s.redis key := by
        intro key hkey
        exact runAlone_keeps (I := fun t => t.redis key = s.redis key)
          (fun _ hc _ _ _ ht hsame => (redis_of_raisesOnly hc ht hkey).trans hsame)
          (raisesOnly_listBody (Cache.spotDetailVersionKey "")) hbody rfl
      rcases listBody_cases cfg be req flt s.db hq with
        ⟨shown, below, resp, hshown, hbelow, hpage, hresp⟩ | ⟨e, hrefused⟩
      · obtain ⟨r, s₃, hrun₃, hr, hends⟩ := Lone.of_evaluates hresp s.db [] _ hsees
        have hsame : some (out, s₂) = some (r, s₃) := hbody.symm.trans hrun₃
        cases hsame
        rw [hr] at hstore
        dsimp only at hstore
        rw [runAlone_bind, runAlone_setCached hredis] at hstore
        cases hstore
        have hother : Cache.spotsVersionKey ≠ req.cacheKey be s := fun heq =>
          (Cache.bodyUnder_spotsListKey (s.counter Cache.spotsVersionKey)
            (be.sha256 (Cache.rawParams req.params))).not_isVersionKey (.inl heq.symm)
        have hversionKey : s₂.redis Cache.spotsVersionKey = s.redis Cache.spotsVersionKey :=
          hkeeps _ (Cache.spotsVersionKey_ne "")
        refine ⟨resp, rfl, ⟨hbetween, hends.holds.db_eq, ?_, ⟨s₂.prov (), ?_⟩, ?_⟩⟩
        · rw [← hversionKey]
          exact Function.update_of_ne hother
            (some (.body (.list resp) (s₂.prov ())) : Option (Stored Body)) s₂.redis
        · exact Function.update_self (req.cacheKey be s)
            (some (.body (.list resp) (s₂.prov ())) : Option (Stored Body)) s₂.redis
        · exact ⟨flt, shown, below, hfilter, hshown, hbelow, hpage⟩
      · obtain ⟨r, s₃, hrun₃, hr, -⟩ := Lone.of_evaluates hrefused s.db [] _ hsees
        have hsame : some (out, s₂) = some (r, s₃) := hbody.symm.trans hrun₃
        cases hsame
        rw [hr] at hstore
        cases hstore

end Filled

/-! ## Reviews after a search -/

section Reviews

variable {cfg : Settings} {be : Backend} {now : Timestamp} {req : ListRequest} {call : ReviewCall}

/-- The request is answered with `fresh` when it reads the database. -/
def ListRequest.Computes (cfg : Settings) (be : Backend) (req : ListRequest)
    (fresh : SpotListResponse) (d : Db) : Prop :=
  ∃ flt, req.filter = .ok flt ∧ Evaluates (Explore.listBody cfg be req flt) d (.ok (fresh, d))

/-- Where the search finds the reviewed spot and the call changes its rating, the spot keeps its
place. -/
def ReviewCall.Undisturbing (cfg : Settings) (be : Backend) (now : Timestamp) (call : ReviewCall)
    (req : ListRequest) (d : Db) : Prop :=
  ∀ flt shown below x, req.filter = .ok flt → applyExploreFilters cfg flt = .ok shown →
    belowFilter be (req.q.getD "") flt req.cursor = .ok below →
    d.spots.find? call.spotUid = some x → shown x = true →
    be.searchMatch x (req.q.getD "") = true → (call.after now d x).ratingAvg ≠ x.ratingAvg →
    KeepsPlace be (req.q.getD "") below req.limit
      (rivals be (req.q.getD "") shown below x.uid d) x (call.after now d x)

/-- The first pages of a search before and after the call. -/
theorem samePage_reviewed_iff (htexts : ExactTexts be) (hsearch : SearchesTexts be)
    {flt : ExploreFilter} {shown below : Spot → Bool} {d d' : Db} (hfilter : req.filter = .ok flt)
    (hshown : applyExploreFilters cfg flt = .ok shown)
    (hbelow : belowFilter be (req.q.getD "") flt req.cursor = .ok below)
    (hrows : d'.spots.rows = call.rowsAfter now d) :
    SamePage Spot.uid (cursorAfter be (req.q.getD "") flt) req.limit
        (searchResults be (req.q.getD "") shown below d)
        (searchResults be (req.q.getD "") shown below d') ↔
      call.Undisturbing cfg be now req d := by
  unfold searchResults Table.select
  cases hfind : d.spots.find? call.spotUid with
  | none =>
      have hsame : d'.spots.rows = d.spots.rows := by
        rw [hrows, ReviewCall.rowsAfter_eq,
          ReviewCall.map_after_of_ne (Table.find?_eq_none.1 hfind)]
      rw [hsame]
      refine iff_of_true (SamePage.refl _) fun _ _ _ x _ _ _ hx => ?_
      rw [hfind] at hx
      cases hx
  | some x =>
      obtain ⟨hmem, hx⟩ := Table.find?_eq_some.1 hfind
      obtain ⟨l₁, l₂, hsplit, hothers⟩ := d.spots.exists_split hmem
      obtain ⟨avg, count, updatedAt, hafter⟩ := call.after_eq now d x
      have hscore := hsearch (call.after now d x) x (req.q.getD "") (by rw [hafter])
        (by rw [hafter]) (by rw [hafter]) (by rw [hafter])
      have hnodup : ((l₁ ++ x :: l₂).map Spot.uid).Nodup := hsplit ▸ d.spots.nodup
      have hsame : shown (call.after now d x) = shown x := by
        apply shown_congr hshown <;> rw [hafter] <;> rfl
      have huid : (call.after now d x).uid = x.uid := by rw [hafter]
      have hmoved :=
          samePage_moved_iff htexts req.limit_ge hnodup huid hscore.1 hscore.2 hsame hbelow
      rw [hrows, call.rowsAfter_split hsplit hothers hx, hsplit,
        hmoved, ← rivals_split hsplit hothers]
      constructor
      · intro h flt' shown' below' x' hfilter' hshown' hbelow' hx'
        rw [hfilter] at hfilter'
        cases hfilter'
        rw [hshown] at hshown'
        cases hshown'
        rw [hbelow] at hbelow'
        cases hbelow'
        rw [hfind] at hx'
        cases hx'
        exact h
      · exact fun h => h flt shown below x hfilter hshown hbelow hfind

/-- The page of a search is served after the call. -/
theorem serves_after_review (hredis : cfg.redisUrl = true) {resp : SpotListResponse}
    {s₀ s s' : State Unit} (hversion : HasVersion s₀) (hfills : Fills cfg be req resp s₀ s)
    (hcall : call.Serves cfg be now s s') :
      ∃ s'', req.Serves cfg be (.inr (.list resp)) s' s'' := by
  obtain ⟨flt, -, -, hfilter, -⟩ := hfills.page
  obtain ⟨p, hbody⟩ := hfills.body
  have hversionKey : s'.redis Cache.spotsVersionKey = s₀.redis Cache.spotsVersionKey :=
    (hcall.redis_eq (Cache.spotsVersionKey_ne _)).trans hfills.version
  have hkey : req.cacheKey be s' = req.cacheKey be s₀ := by
    unfold ListRequest.cacheKey World.counter
    rw [hversionKey]
  have hother : req.cacheKey be s₀ ≠ Cache.spotDetailVersionKey call.spotUid := fun heq =>
    (Cache.bodyUnder_spotsListKey (s₀.counter Cache.spotsVersionKey)
      (be.sha256 (Cache.rawParams req.params))).not_isVersionKey (.inr ⟨_, heq⟩)
  have hversion' : HasVersion s' := fun v p => by
    rw [hversionKey]
    exact hversion v p
  apply exists_serves_of_cached hredis hfilter hversion' (p := p)
  rw [hkey, hcall.redis_eq hother]
  exact hbody

/-- A search that was answered from the database, and then a call that writes a review: the page
from before the call is served after it, and it is the page that the database then has exactly when
the call leaves the reviewed spot at its place. -/
theorem cached_page_right_iff (hredis : cfg.redisUrl = true) (htexts : ExactTexts be)
    (hsearch : SearchesTexts be) (hq : nonblank req.q = true) {resp : SpotListResponse}
    {s₀ s s' : State Unit} (hs₀ : Between s₀) (hversion : HasVersion s₀)
    (hmiss : s₀.redis (req.cacheKey be s₀) = none)
    (hfill : req.Serves cfg be (.inr (.list resp)) s₀ s) (hcall : call.Serves cfg be now s s') :
    (∃ s'', req.Serves cfg be (.inr (.list resp)) s' s'') ∧
      ((∃ fresh, req.Computes cfg be fresh s'.db ∧ SameListing resp fresh) ↔
        call.Undisturbing cfg be now req s₀.db) := by
  obtain ⟨resp', hresp, hfills⟩ := hfill.fills hredis hq hs₀ hversion hmiss
  cases hresp
  refine ⟨serves_after_review hredis hversion hfills hcall, ?_⟩
  obtain ⟨flt, shown, below, hfilter, hshown, hbelow, hpage⟩ := hfills.page
  have hrows : s'.db.spots.rows = call.rowsAfter now s₀.db :=
    hfills.db_eq ▸ hcall.leaves hfills.between
  obtain ⟨fresh, hpage', hfresh⟩ := evaluates_listBody s'.db hq hshown hbelow
  rw [← samePage_reviewed_iff htexts hsearch hfilter hshown hbelow hrows,
    ← sameListing_iff hpage hpage']
  constructor
  · rintro ⟨fresh', ⟨flt', hfilter', hfresh'⟩, hsame⟩
    rw [hfilter] at hfilter'
    cases hfilter'
    have heq := hfresh.unique hfresh'
    cases heq
    exact hsame
  · exact fun hsame => ⟨fresh, ⟨flt, hfilter, hfresh⟩, hsame⟩

/-- What a request computes is its list body's answer. -/
theorem ListRequest.Computes.exists_answer {fresh : SpotListResponse} {d : Db}
    (h : req.Computes cfg be fresh d) : ∃ flt, req.filter = .ok flt ∧
      answer d (Explore.listBody cfg be req flt) = .ok fresh := by
  obtain ⟨flt, hfilter, hfresh⟩ := h
  obtain ⟨r, s', hrun, hr, -⟩ := Lone.of_evaluates hfresh d [] _ (between_fresh d).sees
  refine ⟨flt, hfilter, ?_⟩
  rw [answer, hrun, hr]

end Reviews

namespace Sample

/-- Two camps and a user. -/
def camps : Db := { twoUids with users := ⟨[user "u"], List.nodup_singleton _⟩ }

def searchCamps : ListRequest := { listAll with q := some "camp" }

/-- The user's best rating for a spot. -/
def praise (spotUid : String) : ReviewCall := .create "rrrrrrrrrrrrrrrrrrrrrr" spotUid "u" 10 none

/-- A search for the camps, and then the rating: the page, and the states after the two. -/
def searchThenPraise (spotUid : String) : Option (SpotListResponse × State Unit × State Unit) :=
  match runAlone (fun i => exec i) () (withSession (Explore.listSpots settings backend searchCamps))
      (World.fresh camps) with
  | some (.ok (.inr (.list resp)), s) =>
    match runAlone (fun i => exec i) ()
      (withSession ((praise spotUid).program settings backend 5)) s
      with
    | some (.ok (), s') => some (resp, s, s')
    | _ => none
  | _ => none

theorem serves_of_searchThenPraise {spotUid : String} {resp : SpotListResponse} {s s' : State Unit}
    (h : searchThenPraise spotUid = some (resp, s, s')) :
    searchCamps.Serves settings backend (.inr (.list resp)) (World.fresh camps) s ∧
      (praise spotUid).Serves settings backend 5 s s' := by
  unfold searchThenPraise at h
  split at h
  · rename_i hfill
    split at h
    · rename_i hcall
      cases h
      exact ⟨hfill, hcall⟩
    · cases h
  · cases h

theorem hasVersion_fresh (db : Db) : HasVersion (World.fresh db) := fun v p h => by cases h

theorem searchesTexts : SearchesTexts backend := fun _ _ _ _ _ _ _ => ⟨rfl, rfl⟩

end Sample

/-- The best rating for the first camp of the page leaves it there. -/
theorem cached_page_right_first : ∃ (resp : SpotListResponse) (s s' : State Unit),
    Sample.searchCamps.Serves Sample.settings Sample.backend (.inr (.list resp))
        (World.fresh Sample.camps) s ∧
      (Sample.praise "bbbbbbbbbbbbbbbbbbbbbb").Serves Sample.settings Sample.backend 5 s s' ∧
      ∃ fresh, Sample.searchCamps.Computes Sample.settings Sample.backend fresh s'.db ∧
        SameListing resp fresh := by
  have hrun : (Sample.searchThenPraise "bbbbbbbbbbbbbbbbbbbbbb").isSome = true := by decide +kernel
  obtain ⟨⟨resp, s, s'⟩, hs⟩ := Option.isSome_iff_exists.1 hrun
  obtain ⟨hfill, hcall⟩ := Sample.serves_of_searchThenPraise hs
  refine ⟨resp, s, s', hfill, hcall, ?_⟩
  apply (cached_page_right_iff rfl Sample.exactTexts Sample.searchesTexts (by decide)
    (between_fresh _) (Sample.hasVersion_fresh _) rfl hfill hcall).2.2
  intro flt shown below x hfilter hshown hbelow hx _ _ _
  cases hfilter
  cases hshown
  cases hbelow
  cases hx
  exact And.intro (by decide +kernel) (by decide +kernel)

/-- The best rating for the second camp moves it up, and the old page is still served. -/
theorem cached_page_outdated : ∃ (resp : SpotListResponse) (s s' s'' : State Unit),
    Sample.searchCamps.Serves Sample.settings Sample.backend (.inr (.list resp))
        (World.fresh Sample.camps) s ∧
      (Sample.praise "aaaaaaaaaaaaaaaaaaaaaa").Serves Sample.settings Sample.backend 5 s s' ∧
      Sample.searchCamps.Serves Sample.settings Sample.backend (.inr (.list resp)) s' s'' ∧
      ∀ fresh, Sample.searchCamps.Computes Sample.settings Sample.backend fresh s'.db →
        resp.items.map SpotListItem.uid ≠ fresh.items.map SpotListItem.uid := by
  have hrun : (Sample.searchThenPraise "aaaaaaaaaaaaaaaaaaaaaa").any (fun out =>
      out.1.items.map SpotListItem.uid = ["bbbbbbbbbbbbbbbbbbbbbb", "aaaaaaaaaaaaaaaaaaaaaa"] ∧
      (answer out.2.2.db (Explore.listBody Sample.settings Sample.backend Sample.searchCamps
        {})).toOption.map
        (fun fresh => fresh.items.map SpotListItem.uid) =
          some ["aaaaaaaaaaaaaaaaaaaaaa", "bbbbbbbbbbbbbbbbbbbbbb"]) = true := by
    decide +kernel
  obtain ⟨⟨resp, s, s'⟩, hs, horder⟩ := (Option.any_eq_true _ _).1 hrun
  obtain ⟨hfill, hcall⟩ := Sample.serves_of_searchThenPraise hs
  obtain ⟨resp', hresp, hfills⟩ := hfill.fills rfl (by decide) (between_fresh _)
    (Sample.hasVersion_fresh _) rfl
  cases hresp
  obtain ⟨s'', hagain⟩ := serves_after_review rfl (Sample.hasVersion_fresh _) hfills hcall
  refine ⟨resp, s, s', s'', hfill, hcall, hagain, fun fresh hfresh heq => ?_⟩
  obtain ⟨flt, hfilter, hanswer⟩ := hfresh.exists_answer
  cases hfilter
  obtain ⟨hold, hnew⟩ := of_decide_eq_true horder
  have huids : some (fresh.items.map SpotListItem.uid) =
      some ["aaaaaaaaaaaaaaaaaaaaaa", "bbbbbbbbbbbbbbbbbbbbbb"] := by
    rw [← hnew]
    exact congrArg (fun r => r.toOption.map fun fresh : SpotListResponse =>
      fresh.items.map SpotListItem.uid) hanswer.symm
  rw [← heq, hold] at huids
  exact absurd huids (by decide)

end Vivac
