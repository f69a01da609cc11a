import Vivac.Reads.Pagination
import Mathlib.Data.Finset.Card

/-!
# One result set

The pages of the list or the search, the count, the map and the detail decide
membership by one filter, so they describe one set of spots.
-/

set_option autoImplicit false

namespace Vivac

open Lib App

namespace Spot

/-- `ck_spots_uid_format`: 22 ASCII letters and digits. -/
def checkUid (s : Spot) : Bool := s.uid.length == 22 && s.uid.toList.all fun c => c.isAlphanum

end Spot

/-- Every spot row meets the table's uid check. -/
def UidFormat (d : Db) : Prop := ∀ s ∈ d.spots.rows, s.checkUid = true

theorem UidFormat.noColons {d : Db} (h : UidFormat d) : NoColons d := by
  intro s hs hcolon
  have hall : ∀ c ∈ s.uid.toList, c.isAlphanum = true := by
    have hc := h s hs
    simp only [Spot.checkUid, Bool.and_eq_true, List.all_eq_true] at hc
    exact hc.2
  exact absurd (hall ':' hcolon) (by decide)

namespace ExploreFilter

/-- No value of the filter restricts anything. -/
def isEmpty (flt : ExploreFilter) : Bool :=
  (flt.category.all fun vs => vs.isEmpty) && !truthy flt.regionProvince && flt.bbox.isNone

end ExploreFilter

section

variable (cfg : Settings) (be : Backend) (q : Option String) (flt : ExploreFilter)

/-- The paged read behind `GET /spots`: search when `q` is not blank, the list otherwise. -/
def browse : PageRequest Spot := fun cursor limit =>
  if nonblank q then searchSpots cfg be (q.getD "") flt cursor limit
  else listSpots cfg be cursor limit flt

/-- The rows that pass the filter and match the query. -/
def resultRows (shown : Spot → Bool) (d : Db) : List Spot :=
  d.spots.select fun s => shown s && matchFilter be q s

/-- Following the cursors on an unchanged database to the end returns these rows. -/
def Crawled (d : Db) (limit : ℕ) (rows : List Spot) : Prop :=
  ∃ n pages, requestPages (browse cfg be q flt) none (List.replicate n (d, limit)) = .ok pages ∧
    Ended pages ∧ returned pages = rows

end

section Pages

variable {cfg : Settings} {be : Backend} {q : Option String} {flt : ExploreFilter}
  {shown : Spot → Bool} {d : Db}

/-- The sort order of the paged read. -/
theorem exists_pagedBy_browse (hx : ExactTexts be) (hs : applyExploreFilters cfg flt = .ok shown) :
    ∃ (κ : Type) (_ : LinearOrder κ) (key : Spot → κ) (ok : Db → Prop) (encode : κ → String)
      (issued : κ → Prop),
      PagedBy (browse cfg be q flt) (resultRows be q shown) key ok encode issued ∧
        ∀ d, UidFormat d → ok d := by
  by_cases hq : nonblank q
  · obtain ⟨query, rfl⟩ : ∃ query, q = some query := by
      cases q with
      | none => simp [nonblank] at hq
      | some query => exact ⟨query, rfl⟩
    have hreq : browse cfg be (some query) flt =
        fun cursor limit => searchSpots cfg be query flt cursor limit := by
      funext cursor limit
      simp only [browse, hq, if_true, Option.getD_some]
    have hrows : resultRows be (some query) shown = searched be query shown := by
      funext d
      simp only [resultRows, searched, matchFilter, hq, if_true]
    rw [hreq, hrows]
    exact ⟨_, _, _, _, _, _, pagedBy_searchSpots cfg query flt hx hs, fun _ _ => trivial⟩
  · have hreq : browse cfg be q flt = fun cursor limit => listSpots cfg be cursor limit flt := by
      funext cursor limit
      simp only [browse, hq]
      rfl
    have hrows : resultRows be q shown = fun d => d.spots.select shown := by
      funext d
      have hmatch : ∀ s, matchFilter be q s = true := by
        intro s
        cases q with
        | none => rfl
        | some query => simp only [matchFilter, hq]; rfl
      simp only [resultRows, hmatch, Bool.and_true]
    rw [hreq, hrows]
    exact ⟨_, _, _, _, _, _, pagedBy_listSpots cfg be flt hs, fun _ h => h.noColons⟩

/-- A crawl ends and returns the result rows, each once, for every page size. -/
theorem crawled_perm (hx : ExactTexts be) (hs : applyExploreFilters cfg flt = .ok shown)
    (hd : UidFormat d) {limit : ℕ} (hl : 1 ≤ limit) :
    (∃ rows, Crawled cfg be q flt d limit rows) ∧
      ∀ rows, Crawled cfg be q flt d limit rows → rows.Perm (resultRows be q shown d) := by
  obtain ⟨κ, _, key, ok, encode, issued, hpaged, hok⟩ :=
    exists_pagedBy_browse (q := q) hx hs
  have hvalid : ∀ n, Valid ok (List.replicate n (d, limit)) := by
    intro n st hst
    rw [List.eq_of_mem_replicate hst]
    exact ⟨hok d hd, hl⟩
  have hrep : ∀ n, List.replicate n (d, limit) = (List.replicate n limit).map fun l => (d, l) := by
    simp
  constructor
  · obtain ⟨pages, hpages⟩ := hpaged.law.accepted _ (hvalid ((resultRows be q shown d).length + 1))
    refine ⟨_, _, pages, hpages, ?_, rfl⟩
    rw [hpaged.pages_eq (hvalid _) hpages, PagedBy.ended_visible, hrep, PagedBy.tables_unchanged]
    refine Keyset.complete_of_length (hpaged.distinct d (hok d hd)) ?_ ?_
    · intro l hmem
      rw [List.eq_of_mem_replicate hmem]
      exact hl
    · simp [Keyset.candidates_none, Keyset.sort]
  · rintro rows ⟨n, pages, hpages, hend, rfl⟩
    rw [hrep] at hpages
    have hv : Valid ok ((List.replicate n limit).map fun l => (d, l)) := by
      rw [← hrep]
      exact hvalid n
    rw [hpaged.law.exact_rows d _ pages hv hpages hend]
    exact List.perm_insertionSort _ _

end Pages

/-! ## Count, map and detail -/

section Others

variable {cfg : Settings} {be : Backend} {flt : ExploreFilter} {shown : Spot → Bool} {d : Db}

theorem answer_countSpots (q : Option String) (hs : applyExploreFilters cfg flt = .ok shown) :
    answer d (countSpots cfg be q flt) =
      .ok (min (resultRows be q shown d).length totalCap,
        decide (totalCap < (resultRows be q shown d).length)) := by
  have hans : Answers () d (countSpots cfg be q flt)
      (.ok (min (resultRows be q shown d).length totalCap,
        decide (totalCap < (resultRows be q shown d).length))) := by
    unfold countSpots
    simp only [hs, Prog.ofExcept, Prog.bind_eq_bind, Prog.bind_ret, Prog.pure_eq_ret]
    refine Answers.bind (Answers.read _) ?_
    have hlen : ((resultRows be q shown d).take (totalCap + 1)).length =
        min (totalCap + 1) (resultRows be q shown d).length := List.length_take
    by_cases h : totalCap < (resultRows be q shown d).length
    · have hcut : totalCap < ((resultRows be q shown d).take (totalCap + 1)).length := by omega
      rw [Nat.min_eq_right (le_of_lt h), decide_eq_true h]
      exact (if_pos hcut).symm ▸ Answers.ret _
    · have hcut : ¬totalCap < ((resultRows be q shown d).take (totalCap + 1)).length := by omega
      have hall : ((resultRows be q shown d).take (totalCap + 1)).length =
          (resultRows be q shown d).length := by omega
      rw [Nat.min_eq_left (not_lt.1 h), decide_eq_false h, ← hall]
      exact (if_neg hcut).symm ▸ Answers.ret _
  exact hans.answer_eq

/-- Requiring coordinates adds just that condition. -/
theorem applyExploreFilters_coordinates (hs : applyExploreFilters cfg flt = .ok shown) :
    applyExploreFilters cfg flt (some true) = .ok fun s => shown s && s.hasCoordinates := by
  unfold applyExploreFilters at hs ⊢
  cases hr : regionFilter flt.regionProvince with
  | error e =>
    rw [hr] at hs
    cases hs
  | ok inRegion =>
    rw [hr] at hs
    cases hs
    refine congrArg Except.ok (funext fun s => ?_)
    by_cases hc : s.hasCoordinates = true <;> simp [hc]

theorem answer_listSpotsMap (q : Option String) (hs : applyExploreFilters cfg flt = .ok shown)
    (limit : ℕ) :
    answer d (listSpotsMap cfg be q flt limit) =
      .ok ((orderByUid ((resultRows be q shown d).filter Spot.hasCoordinates)).take limit,
        decide (limit < ((resultRows be q shown d).filter Spot.hasCoordinates).length)) := by
  have hrows : (d.spots.select fun s => shown s && s.hasCoordinates && matchFilter be q s) =
      (resultRows be q shown d).filter Spot.hasCoordinates := by
    simp only [resultRows, Table.select, List.filter_filter]
    congr 1
    funext s
    cases shown s <;> cases s.hasCoordinates <;> simp
  have hlen : (orderByUid ((resultRows be q shown d).filter Spot.hasCoordinates)).length =
      ((resultRows be q shown d).filter Spot.hasCoordinates).length :=
    List.length_insertionSort _ _
  have hans : Answers () d (listSpotsMap cfg be q flt limit)
      (.ok ((orderByUid ((resultRows be q shown d).filter Spot.hasCoordinates)).take limit,
        decide (limit < ((resultRows be q shown d).filter Spot.hasCoordinates).length))) := by
    unfold listSpotsMap
    simp only [applyExploreFilters_coordinates hs, Prog.ofExcept, Prog.bind_eq_bind,
      Prog.bind_ret, Prog.pure_eq_ret]
    refine Answers.bind (Answers.read _) ?_
    simp only [hrows, List.take_take, Nat.min_eq_left (Nat.le_succ limit), List.length_take, hlen]
    have hiff : decide (limit < min (limit + 1)
        ((resultRows be q shown d).filter Spot.hasCoordinates).length) =
        decide (limit < ((resultRows be q shown d).filter Spot.hasCoordinates).length) :=
      decide_eq_decide.2 (by omega)
    rw [hiff]
    exact Answers.ret _
  exact hans.answer_eq

/-- An empty filter is the filter of the detail. -/
theorem applyExploreFilters_of_isEmpty (h : flt.isEmpty = true) :
    applyExploreFilters cfg flt = applyExploreFilters cfg {} := by
  obtain ⟨category, region, bbox⟩ := flt
  simp only [ExploreFilter.isEmpty, Bool.and_eq_true, Option.isNone_iff_eq_none] at h
  obtain ⟨⟨hc, hr⟩, rfl⟩ := h
  have hcat : categoryFilter category = categoryFilter none := by
    funext s
    cases category with
    | none => rfl
    | some vs =>
      cases vs with
      | nil => rfl
      | cons v vs => simp at hc
  have hreg : regionFilter region = regionFilter none := by
    cases region with
    | none => rfl
    | some r =>
      have hr' : r = "" := by simpa [truthy] using hr
      simp only [regionFilter, hr', if_true]
  unfold applyExploreFilters
  simp only [hcat, hreg]

theorem answer_getSpotByUid (hs : applyExploreFilters cfg {} = .ok shown) (uid : String) :
    answer d (getSpotByUid cfg uid true) = .ok ((d.spots.find? uid).filter shown) := by
  have hans :
      Answers () d (getSpotByUid cfg uid true) (.ok ((d.spots.find? uid).filter shown)) := by
    unfold getSpotByUid
    simp only [if_true, hs, Prog.ofExcept, Prog.bind_eq_bind, Prog.bind_ret]
    exact Answers.read _
  exact hans.answer_eq

end Others

/-- The public reads agree on one set of uids: every crawl returns it, whatever the page
size; the count is its capped size; the map shows its members with coordinates, smallest
uids first; and without query and filter its members are what the detail finds. -/
theorem public_reads_agree {cfg : Settings} {be : Backend} (hx : ExactTexts be) {d : Db}
    (hd : UidFormat d) (q : Option String) {flt : ExploreFilter} {shown : Spot → Bool}
    (hs : applyExploreFilters cfg flt = .ok shown) :
    ∃ (S : Finset String) (pins : List Spot),
      (∀ limit, 1 ≤ limit → (∃ rows, Crawled cfg be q flt d limit rows) ∧
        ∀ rows, Crawled cfg be q flt d limit rows → (rows.map Spot.uid).toFinset = S) ∧
      answer d (countSpots cfg be q flt) = .ok (min S.card totalCap, decide (totalCap < S.card)) ∧
      (∀ s, s ∈ pins ↔ s ∈ d.spots.rows ∧ s.uid ∈ S ∧ s.hasCoordinates) ∧
      (pins.Pairwise fun a b => a.uid < b.uid) ∧
      (∀ m, answer d (listSpotsMap cfg be q flt m) =
        .ok (pins.take m, decide (m < pins.length))) ∧
      (nonblank q = false → flt.isEmpty = true → ∀ uid,
        uid ∈ S ↔ ∃ s, answer d (getSpotByUid cfg uid true) = .ok (some s)) := by
  have hnd : ((resultRows be q shown d).map Spot.uid).Nodup :=
    (List.filter_sublist.map Spot.uid).nodup d.spots.nodup
  have hmem : ∀ s ∈ d.spots.rows,
      (s.uid ∈ ((resultRows be q shown d).map Spot.uid).toFinset ↔
        (shown s && matchFilter be q s) = true) := by
    intro s hs'
    rw [List.mem_toFinset, List.mem_map]
    constructor
    · rintro ⟨t, ht, huid⟩
      obtain ⟨htrow, ht'⟩ := Table.mem_select.1 ht
      rw [← d.spots.eq_of_key_eq htrow hs' huid]
      exact ht'
    · exact fun h => ⟨s, Table.mem_select.2 ⟨hs', h⟩, rfl⟩
  have hlen : (orderByUid ((resultRows be q shown d).filter Spot.hasCoordinates)).length =
      ((resultRows be q shown d).filter Spot.hasCoordinates).length :=
    List.length_insertionSort _ _
  refine ⟨((resultRows be q shown d).map Spot.uid).toFinset,
    orderByUid ((resultRows be q shown d).filter Spot.hasCoordinates),
    fun limit hl => ?_, ?_, fun s => ?_, ?_, fun m => ?_, ?_⟩
  · obtain ⟨hex, hall⟩ := crawled_perm (q := q) hx hs hd hl
    exact ⟨hex, fun rows hrows => List.toFinset_eq_of_perm _ _ ((hall rows hrows).map _)⟩
  · rw [List.toFinset_card_of_nodup hnd, List.length_map]
    exact answer_countSpots q hs
  · rw [orderByUid, List.mem_insertionSort, List.mem_filter]
    constructor
    · rintro ⟨hrow, hc⟩
      exact ⟨(Table.mem_select.1 hrow).1, List.mem_toFinset.2 (List.mem_map_of_mem hrow), hc⟩
    · rintro ⟨hrow, hS, hc⟩
      exact ⟨Table.mem_select.2 ⟨hrow, (hmem s hrow).1 hS⟩, hc⟩
  · exact Keyset.pairwise_sort ((List.filter_sublist.map Spot.uid).nodup hnd)
  · rw [hlen]
    exact answer_listSpotsMap q hs m
  · intro hq hempty uid
    rw [applyExploreFilters_of_isEmpty hempty] at hs
    rw [answer_getSpotByUid hs]
    have hmatch : ∀ s, matchFilter be q s = true := by
      intro s
      cases q with
      | none => rfl
      | some query => simp [matchFilter, hq]
    constructor
    · intro h
      obtain ⟨s, hrow, rfl⟩ := List.mem_map.1 (List.mem_toFinset.1 h)
      obtain ⟨hs', hshown⟩ := Table.mem_select.1 hrow
      rw [hmatch, Bool.and_true] at hshown
      exact ⟨s, by rw [Table.find?_eq_some.2 ⟨hs', rfl⟩, Option.filter_some, if_pos hshown]⟩
    · rintro ⟨s, h⟩
      obtain ⟨hfind, hshown⟩ := Option.filter_eq_some_iff.1 (Except.ok.inj h)
      obtain ⟨hrow, rfl⟩ := Table.find?_eq_some.1 hfind
      rw [hmem s hrow, hmatch, Bool.and_true]
      exact hshown

/-- Two spots of well-formed uids, the second without coordinates. -/
def Sample.mixedSpots : Db :=
  { Db.empty with spots := ⟨[
      { Sample.spot "aaaaaaaaaaaaaaaaaaaaa1" with latitude := some 37, longitude := some 127 },
      Sample.spot "aaaaaaaaaaaaaaaaaaaaa2"], by decide⟩ }

/-- On two spots, one with coordinates, the common set has two members and the map one pin. -/
theorem public_reads_agree_two_spots :
    ∃ S : Finset String, S.card = 2 ∧
      (∀ limit, 1 ≤ limit → ∃ rows, (rows.map Spot.uid).toFinset = S ∧
        Crawled Sample.settings Sample.backend none {} Sample.mixedSpots limit rows) ∧
      ∀ uid, uid ∈ S ↔ ∃ s,
        answer Sample.mixedSpots (getSpotByUid Sample.settings uid true) = .ok (some s) := by
  have hd : ∀ s ∈ Sample.mixedSpots.spots.rows, s.checkUid = true := by decide +kernel
  obtain ⟨shown, hs⟩ : ∃ shown, applyExploreFilters Sample.settings {} = .ok shown := ⟨_, rfl⟩
  obtain ⟨S, pins, hcrawl, hcount, -, -, -, hdetail⟩ :=
    public_reads_agree Sample.exactTexts hd none hs
  have hanswer : answer Sample.mixedSpots (countSpots Sample.settings Sample.backend none {}) =
      .ok (2, false) := by decide +kernel
  rw [hanswer] at hcount
  have hcard := congrArg Prod.fst (Except.ok.inj hcount)
  refine ⟨S, ?_, fun limit hl => ?_, hdetail rfl rfl⟩
  · simp only [totalCap] at hcard
    omega
  · obtain ⟨⟨rows, hrows⟩, hall⟩ := hcrawl limit hl
    exact ⟨rows, hall rows hrows, hrows⟩

end Vivac
