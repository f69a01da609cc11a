import Vivac.Core.Contracts
import Vivac.Lib.Base64
import Vivac.Reads.ResultSet
import Mathlib.Data.List.TakeWhile

/-!
# The scope of a cursor

A cursor of the list is `{scope}:{uid}`, a cursor of a search is base64 of a JSON object with the
scope. A list cursor never has the length of base64, so a search refuses it, and both kinds carry
the scope they were issued for.

The list reads a search cursor, which has no colon, as a cursor with an empty scope. So the cursor
of one request is refused by a request of the other kind or of another scope, except when a search
cursor meets a list without a box (`cursor_rejected_iff`).
-/

set_option autoImplicit false

namespace Vivac

open Lib App

/-- A digit of a `hexdigest()`. -/
def isHexDigit (c : Char) : Bool := c.isDigit || ('a' ≤ c && c ≤ 'f')

/-- The texts of the library: base64 is URL-safe base64, and a digest is 64 hexadecimal digits. -/
structure LibraryTexts (be : Backend) : Prop where
  exact_texts : ExactTexts be
  encodes : ∀ text, be.b64encode text = Base64.encodeText text
  refuses : ∀ text, Base64.decodeText text = none → be.b64decode text = none
  hexdigest : ∀ text, (be.sha256 text).toList.length = 64 ∧
    (be.sha256 text).toList.all isHexDigit = true

/-- The two modes of the explore list. -/
inductive ExploreMode where
  | list
  | search (query : String)

namespace ExploreMode

def isSearch : ExploreMode → Bool
  | .list => false
  | .search _ => true

variable (cfg : Settings) (be : Backend) (flt : ExploreFilter)

/-- The paged read of a mode. -/
def request : ExploreMode → PageRequest Spot
  | .list => fun cursor limit => listSpots cfg be cursor limit flt
  | .search query => fun cursor limit => searchSpots cfg be query flt cursor limit

/-- The request answers with this cursor on some tables. -/
def Issues (mode : ExploreMode) (cursor : String) : Prop :=
  ∃ d before limit out, UidFormat d ∧ answer d (mode.request cfg be flt before limit) = .ok out ∧
    out.2.1 = some cursor

/-- The request with this cursor ends with an `AppException`, before it reads anything. -/
def Rejects (mode : ExploreMode) (cursor : String) (limit : ℕ) : Prop :=
  ∃ code message, mode.request cfg be flt (some cursor) limit = .raise (.app code message)

end ExploreMode

/-- The filter names no province, or one of the whitelist. -/
def ExploreFilter.KnownRegion (flt : ExploreFilter) : Prop :=
  ∃ inRegion, regionFilter flt.regionProvince = .ok inRegion

/-! ## The two reads, for any cursor -/

section Forms

variable (cfg : Settings) (be : Backend) (flt : ExploreFilter)

/-- A region that is not known is refused. -/
theorem applyExploreFilters_cases :
    (flt.KnownRegion ∧ ∃ shown, applyExploreFilters cfg flt = .ok shown) ∨
      (¬flt.KnownRegion ∧
        ∃ message, applyExploreFilters cfg flt = .error (.app .validationError message)) := by
  cases hregion : regionFilter flt.regionProvince with
  | ok inRegion =>
      refine .inl ⟨⟨inRegion, hregion⟩, ?_⟩
      simp only [applyExploreFilters, hregion]
      exact ⟨_, rfl⟩
  | error e =>
      have hunknown : ¬flt.KnownRegion := by
        rintro ⟨inRegion, h⟩
        rw [hregion] at h
        cases h
      have hmessage : ∃ message, e = .app .validationError message := by
        unfold regionFilter at hregion
        split at hregion
        · split at hregion
          · cases hregion
          · split at hregion
            · cases hregion
              exact ⟨_, rfl⟩
            · cases hregion
        · cases hregion
      obtain ⟨message, rfl⟩ := hmessage
      refine .inr ⟨hunknown, message, ?_⟩
      simp only [applyExploreFilters, hregion]
      rfl

/-- The explore reads show nothing that is not PUBLISHED, or is deleted. -/
theorem live_of_shown {cfg : Settings} {flt : ExploreFilter} {requireCoordinates : Option Bool}
    {shown : Spot → Bool} (hs : applyExploreFilters cfg flt requireCoordinates = .ok shown)
    {s : Spot} (h : shown s = true) : s.live = true := by
  unfold applyExploreFilters at hs
  cases hregion : regionFilter flt.regionProvince with
  | error e =>
      rw [hregion] at hs
      cases hs
  | ok inRegion =>
      rw [hregion] at hs
      cases hs
      simp only [Bool.and_eq_true] at h
      exact h.1.1.1.1

/-- The list with a cursor checks the region, then the scope, then reads. -/
theorem listSpots_some {cursor : String} (hne : cursor ≠ "") (limit : ℕ) :
    listSpots cfg be (some cursor) limit flt =
      (Prog.ofExcept (applyExploreFilters cfg flt)).bind fun shown =>
        (Prog.ofExcept (rejectScopeMismatch (rpartitionColon cursor).1
          (scopeToken be flt.bbox))).bind fun _ =>
          (select fun d => (orderByUid (d.spots.select fun s =>
            shown s && decide ((rpartitionColon cursor).2 < s.uid))).take (limit + 1)).bind
            (finishPage limit (listCursor be flt ∘ Spot.uid)) := by
  unfold listSpots
  simp only [Prog.bind_eq_bind, Prog.pure_eq_ret, if_neg hne]
  rfl

/-- A search with a cursor checks the region, then decodes, then checks the scope, then reads. -/
theorem searchSpots_some {cursor : String} (hne : cursor ≠ "") (query : String) (limit : ℕ) :
    searchSpots cfg be query flt (some cursor) limit =
      (Prog.ofExcept (applyExploreFilters cfg flt)).bind fun shown =>
        (Prog.ofExcept (decodeSearchCursor be cursor)).bind fun last =>
          (Prog.ofExcept (rejectScopeMismatch last.2.2.2 (scopeToken be flt.bbox))).bind fun _ =>
            (select fun d => (orderBySearch be query (d.spots.select fun s =>
              shown s && be.searchMatch s query &&
                belowCursor be query (last.1, last.2.1, last.2.2.1) s)).take (limit + 1)).bind
              (finishPage limit fun s => encodeSearchCursor be (be.searchScore s query)
                s.ratingAvg s.uid (scopeToken be flt.bbox)) := by
  unfold searchSpots
  simp only [Prog.bind_eq_bind, Prog.pure_eq_ret, if_neg hne]
  rfl

/-- Whatever its cursor, the list is refused or answers the page of a query by uid. -/
theorem listSpots_form (before : Option String) (limit : ℕ) :
    (∃ e, listSpots cfg be before limit flt = .raise e) ∨
      ∃ p, (∀ s, p s = true → s.live = true) ∧ listSpots cfg be before limit flt =
        (select fun d => (orderByUid (d.spots.select p)).take (limit + 1)).bind
          (finishPage limit (listCursor be flt ∘ Spot.uid)) := by
  rcases applyExploreFilters_cases cfg flt with ⟨-, shown, hs⟩ | ⟨-, message, hs⟩
  · have hlive : ∀ (q : Spot → Bool) (s : Spot), (shown s && q s) = true → s.live = true :=
      fun q s h => live_of_shown hs (Bool.and_eq_true_iff.1 h).1
    have hwithout : ∀ c : Option String, c = none ∨ c = some "" →
        listSpots cfg be c limit flt =
          (select fun d => (orderByUid (d.spots.select fun s => shown s && true)).take
            (limit + 1)).bind
            (finishPage limit (listCursor be flt ∘ Spot.uid)) := by
      rintro c (rfl | rfl) <;> (unfold listSpots; rw [hs]; rfl)
    cases before with
    | none => exact .inr ⟨_, hlive _, hwithout none (.inl rfl)⟩
    | some c =>
        by_cases hne : c = ""
        · exact .inr ⟨_, hlive _, hwithout (some c) (.inr (congrArg some hne))⟩
        · rw [listSpots_some cfg be flt hne, hs]
          cases rejectScopeMismatch (rpartitionColon c).1 (scopeToken be flt.bbox) with
          | error e => exact .inl ⟨e, rfl⟩
          | ok _ => exact .inr ⟨_, hlive _, rfl⟩
  · refine .inl ⟨.app .validationError message, ?_⟩
    unfold listSpots
    rw [hs]
    rfl

/-- Whatever its cursor, a search is refused or answers the page of a query by score. -/
theorem searchSpots_form (query : String) (before : Option String) (limit : ℕ) :
    (∃ e, searchSpots cfg be query flt before limit = .raise e) ∨
      ∃ p, (∀ s, p s = true → s.live = true) ∧ searchSpots cfg be query flt before limit =
        (select fun d => (orderBySearch be query (d.spots.select p)).take (limit + 1)).bind
          (finishPage limit fun s =>
            encodeSearchCursor be (be.searchScore s query) s.ratingAvg s.uid
            (scopeToken be flt.bbox)) := by
  rcases applyExploreFilters_cases cfg flt with ⟨-, shown, hs⟩ | ⟨-, message, hs⟩
  · have hlive : ∀ (q : Spot → Bool) (s : Spot),
        (shown s && be.searchMatch s query && q s) = true → s.live = true :=
      fun q s h => live_of_shown hs (Bool.and_eq_true_iff.1 (Bool.and_eq_true_iff.1 h).1).1
    have hwithout : ∀ c : Option String, c = none ∨ c = some "" →
        searchSpots cfg be query flt c limit =
          (select fun d => (orderBySearch be query (d.spots.select fun s =>
            shown s && be.searchMatch s query && true)).take (limit + 1)).bind
            (finishPage limit fun s => encodeSearchCursor be (be.searchScore s query) s.ratingAvg
              s.uid (scopeToken be flt.bbox)) := by
      rintro c (rfl | rfl) <;> (unfold searchSpots; rw [hs]; rfl)
    cases before with
    | none => exact .inr ⟨_, hlive _, hwithout none (.inl rfl)⟩
    | some c =>
        by_cases hne : c = ""
        · exact .inr ⟨_, hlive _, hwithout (some c) (.inr (congrArg some hne))⟩
        · rw [searchSpots_some cfg be flt hne, hs]
          cases hlast : decodeSearchCursor be c with
          | error e => exact .inl ⟨e, rfl⟩
          | ok last =>
              simp only [Prog.ofExcept, Prog.bind_ret]
              cases rejectScopeMismatch last.2.2.2 (scopeToken be flt.bbox) with
              | error e => exact .inl ⟨e, rfl⟩
              | ok _ => exact .inr ⟨_, hlive _, rfl⟩
  · refine .inl ⟨.app .validationError message, ?_⟩
    unfold searchSpots
    rw [hs]
    rfl

end Forms

/-! ## Issued cursors -/

section Pages

variable {ρ : Type} {limit : ℕ} {encode : ρ → String} {d : Db}
  {out : List ρ × Option String × Bool}

theorem readOnly_finishPage (limit : ℕ) (encode : ρ → String) (got : List ρ) :
    ReadOnly (finishPage limit encode got) := by
  unfold finishPage
  split
  · exact (ReadOnly.ofExcept _).bind fun _ => .ret _
  · exact .ret _

/-- A page is cut off what the query got, and its cursor encodes a row of it. -/
theorem of_finishPage {f : Db → List ρ}
    (h : answer d ((select f).bind (finishPage limit encode)) = .ok out) :
    out.1 ⊆ f d ∧ ∀ cursor, out.2.1 = some cursor → ∃ r ∈ f d, cursor = encode r := by
  obtain ⟨got, hgot, h⟩ :=
    exists_answer_of_bind (ReadOnly.select f) (readOnly_finishPage limit encode) h
  have hsame : f d = got := Except.ok.inj ((answer_select d f).symm.trans hgot)
  subst hsame
  unfold finishPage at h
  split at h
  · obtain ⟨last, hlast, h⟩ := exists_answer_of_ofExcept h
    have hout := eq_of_answer_ret h
    subst hout
    refine ⟨List.take_subset _ _, fun cursor hcursor => ⟨last, ?_, (Option.some.inj hcursor).symm⟩⟩
    unfold lastOf at hlast
    split at hlast
    · rename_i hsome
      cases hlast
      exact List.mem_of_mem_take (List.mem_of_getLast? hsome)
    · cases hlast
  · have hout := eq_of_answer_ret h
    subst hout
    refine ⟨fun _ hr => hr, fun cursor hcursor => ?_⟩
    cases hcursor

end Pages

section Issued

variable {cfg : Settings} {be : Backend} {flt : ExploreFilter} {cursor : String}

/-- A list issues the scope and the uid of a row. -/
theorem ExploreMode.Issues.of_list (h : ExploreMode.list.Issues cfg be flt cursor) :
    ∃ s : Spot, s.checkUid = true ∧ cursor = listCursor be flt s.uid := by
  obtain ⟨d, before, limit, out, hd, hout, hcursor⟩ := h
  change answer d (listSpots cfg be before limit flt) = .ok out at hout
  rcases listSpots_form cfg be flt before limit with ⟨e, hform⟩ | ⟨p, -, hform⟩
  · rw [hform, answer_raise] at hout
    cases hout
  · rw [hform] at hout
    obtain ⟨s, hs, rfl⟩ := (of_finishPage hout).2 _ hcursor
    have hmem := (List.mem_insertionSort _).1 (List.mem_of_mem_take hs)
    exact ⟨s, hd s (Table.mem_select.1 hmem).1, rfl⟩

/-- A search issues the sort key and the scope. -/
theorem ExploreMode.Issues.of_search {query : String}
    (h : (ExploreMode.search query).Issues cfg be flt cursor) :
    ∃ score rating uid,
      cursor = encodeSearchCursor be score rating uid (scopeToken be flt.bbox) := by
  obtain ⟨d, before, limit, out, -, hout, hcursor⟩ := h
  change answer d (searchSpots cfg be query flt before limit) = .ok out at hout
  rcases searchSpots_form cfg be flt query before limit with ⟨e, hform⟩ | ⟨p, -, hform⟩
  · rw [hform, answer_raise] at hout
    cases hout
  · rw [hform] at hout
    obtain ⟨s, -, rfl⟩ := (of_finishPage hout).2 _ hcursor
    exact ⟨_, _, _, rfl⟩

end Issued

/-! ## The two languages -/

/-- The characters of uids are characters of base64. -/
theorem mem_alphabet_of_isAlphanum {c : Char} (h : c.isAlphanum = true) : c ∈ Base64.alphabet := by
  have hupper : c.isUpper = decide ('A' ≤ c ∧ c ≤ 'Z') := rfl
  have hlower : c.isLower = (decide ('a' ≤ c) && decide (c ≤ 'z')) := rfl
  have hdigit : c.isDigit = (decide ('0' ≤ c) && decide (c ≤ '9')) := rfl
  have hclasses : c.isAlphanum = ((c.isUpper || c.isLower) || c.isDigit) := rfl
  have hsmall : c.toNat < 128 := by
    rw [hclasses, hupper, hlower, hdigit] at h
    simp only [Bool.or_eq_true, Bool.and_eq_true, decide_eq_true_eq, Char.le_def,
      UInt32.le_iff_toNat_le] at h
    have h9 : ('9' : Char).val.toNat = 57 := rfl
    have hZ : ('Z' : Char).val.toNat = 90 := rfl
    have hz : ('z' : Char).val.toNat = 122 := rfl
    show c.val.toNat < 128
    omega
  have hall : ∀ n < 128, (Char.ofNat n).isAlphanum = true → Char.ofNat n ∈ Base64.alphabet := by
    decide +kernel
  have hc := hall c.toNat hsmall
  rw [Char.ofNat_toNat] at hc
  exact hc h

theorem isAlphanum_of_isHexDigit {c : Char} (h : isHexDigit c = true) : c.isAlphanum = true := by
  have hlower : c.isLower = (decide ('a' ≤ c) && decide (c ≤ 'z')) := rfl
  have hclasses : c.isAlphanum = ((c.isUpper || c.isLower) || c.isDigit) := rfl
  rw [hclasses]
  rcases Bool.or_eq_true _ _ ▸ h with hdigit | hletter
  · rw [hdigit, Bool.or_true]
  · obtain ⟨ha, hf⟩ := (Bool.and_eq_true _ _).mp hletter
    have hz : c ≤ 'z' := le_trans (of_decide_eq_true hf) (by decide)
    rw [hlower, ha, decide_eq_true hz, Bool.and_self, Bool.or_true, Bool.true_or]

section Languages

variable {be : Backend} (hx : LibraryTexts be)
include hx

/-- The fingerprint of a box has twelve characters of base64, and no box has an empty one. -/
theorem scopeToken_chars (bbox : Option BBox) :
    (scopeToken be bbox).toList.length % 12 = 0 ∧
      ∀ c ∈ (scopeToken be bbox).toList, c ∈ Base64.alphabet := by
  cases bbox with
  | none => exact ⟨rfl, fun c hc => absurd hc (List.not_mem_nil)⟩
  | some b =>
      obtain ⟨hlength, hchars⟩ := hx.hexdigest b.fixedText
      rw [scopeToken, String.toList_ofList]
      constructor
      · rw [List.length_take, hlength]
        rfl
      · intro c hc
        exact mem_alphabet_of_isAlphanum
          (isAlphanum_of_isHexDigit (List.all_eq_true.1 hchars c (List.mem_of_mem_take hc)))

theorem scopeToken_eq_empty_iff {bbox : Option BBox} : scopeToken be bbox = "" ↔ bbox = none := by
  cases bbox with
  | none => exact iff_of_true rfl rfl
  | some b =>
      refine iff_of_false (fun hempty => ?_) (by simp)
      have hlist := congrArg (fun t => t.toList.length) hempty
      simp only [scopeToken, String.toList_ofList, List.length_take, (hx.hexdigest b.fixedText).1]
        at hlist
      cases hlist

/-- A list cursor is no base64: it has two data characters more than fill their quads. -/
theorem decodeSearchCursor_listCursor (flt : ExploreFilter) {s : Spot} (hs : s.checkUid = true) :
    decodeSearchCursor be (listCursor be flt s.uid) =
      .error (.app .validationError "Invalid cursor for search results") := by
  obtain ⟨hlength, hscope⟩ := scopeToken_chars hx flt.bbox
  simp only [Spot.checkUid, Bool.and_eq_true, beq_iff_eq, List.all_eq_true] at hs
  obtain ⟨huid, hchars⟩ := hs
  rw [← String.length_toList] at huid
  have htext : (listCursor be flt s.uid).toList =
      (scopeToken be flt.bbox).toList ++ ':' :: s.uid.toList := by
    simp [listCursor, String.toList_append]
  have hdata : ∀ cs : List Char, (∀ c ∈ cs, c ∈ Base64.alphabet) →
      (cs.countP fun c => (Base64.value? c).isSome) = cs.length := by
    intro cs hcs
    exact List.countP_eq_length.2 fun c hc => Base64.isSome_value?_of_mem (hcs c hc)
  have hpads : ∀ c ∈ (listCursor be flt s.uid).toList, c ≠ '=' := by
    intro c hc
    rw [htext, List.mem_append, List.mem_cons] at hc
    rcases hc with h | rfl | h
    · exact Base64.ne_pad_of_mem (hscope c h)
    · decide
    · exact Base64.ne_pad_of_mem (mem_alphabet_of_isAlphanum (hchars c h))
  have hcolon : (Base64.value? ':').isSome = false := by decide +kernel
  have hcount : ((listCursor be flt s.uid).toList.countP fun c => (Base64.value? c).isSome) =
      (scopeToken be flt.bbox).toList.length + 22 := by
    rw [htext, List.countP_append, List.countP_cons_of_neg (by simp [hcolon]), hdata _ hscope,
      hdata _ fun c hc => mem_alphabet_of_isAlphanum (hchars c hc), huid]
  have hnone : Base64.decodeText (listCursor be flt s.uid) = none :=
    Base64.decodeText_eq_none hpads (by omega)
  simp only [decodeSearchCursor, loadCursor, hx.refuses _ hnone]
  rfl

/-- A search cursor has no colon: the list takes all of it as a uid, of an empty scope. -/
theorem rpartitionColon_searchCursor (score rating : ℚ) (uid scope : String) :
    (rpartitionColon (encodeSearchCursor be score rating uid scope)).1 = "" := by
  have hcolon : ∀ c ∈ (encodeSearchCursor be score rating uid scope).toList.reverse,
      (c != ':') = true := by
    intro c hc
    rw [List.mem_reverse] at hc
    rw [bne_iff_ne]
    rintro rfl
    rw [encodeSearchCursor, hx.encodes] at hc
    exact Base64.not_mem_encodeText (by decide +kernel) (by decide) hc
  have hdrop := List.dropWhile_eq_nil_iff.2 hcolon
  simp only [rpartitionColon, hdrop, List.tail_nil, List.reverse_nil, String.ofList_nil]

end Languages

/-! ## Who takes whose cursor -/

section Rejections

variable {cfg : Settings} {be : Backend} {flt : ExploreFilter} {cursor : String} {limit : ℕ}

/-- The list refuses a cursor for its own region or for the cursor's scope. -/
theorem rejects_list_iff (hne : cursor ≠ "") :
    ExploreMode.list.Rejects cfg be flt cursor limit ↔
      ¬(flt.KnownRegion ∧ (rpartitionColon cursor).1 = scopeToken be flt.bbox) := by
  change (∃ code text, listSpots cfg be (some cursor) limit flt = .raise (.app code text)) ↔ _
  rw [listSpots_some cfg be flt hne]
  rcases applyExploreFilters_cases cfg flt with ⟨hknown, shown, hs⟩ | ⟨hunknown, message, hs⟩
  · rw [hs]
    by_cases hscope : (rpartitionColon cursor).1 = scopeToken be flt.bbox
    · -- nothing is raised before the query
      refine iff_of_false ?_ fun h => h ⟨hknown, hscope⟩
      rintro ⟨code, text, h⟩
      rw [rejectScopeMismatch, if_neg (not_not.2 hscope)] at h
      cases h
    · refine iff_of_true ?_ fun h => hscope h.2
      rw [rejectScopeMismatch, if_pos hscope]
      exact ⟨_, _, rfl⟩
  · rw [hs]
    exact iff_of_true ⟨_, _, rfl⟩ fun h => hunknown h.1

/-- A search refuses what it cannot decode. -/
theorem rejects_search_of_error (hne : cursor ≠ "") {query : String} {message : String}
    (h : decodeSearchCursor be cursor = .error (.app .validationError message)) :
    (ExploreMode.search query).Rejects cfg be flt cursor limit := by
  change ∃ code text, searchSpots cfg be query flt (some cursor) limit = .raise (.app code text)
  rw [searchSpots_some cfg be flt hne, h]
  rcases applyExploreFilters_cases cfg flt with ⟨-, shown, hs⟩ | ⟨-, text, hs⟩
  · rw [hs]
    exact ⟨_, _, rfl⟩
  · rw [hs]
    exact ⟨_, _, rfl⟩

/-- A search refuses the cursor of another scope. -/
theorem rejects_search_of_scope (hne : cursor ≠ "") {query : String}
    {last : PyFloat × PyFloat × String × String} (h : decodeSearchCursor be cursor = .ok last)
    (hscope : last.2.2.2 ≠ scopeToken be flt.bbox) :
    (ExploreMode.search query).Rejects cfg be flt cursor limit := by
  change ∃ code text, searchSpots cfg be query flt (some cursor) limit = .raise (.app code text)
  rw [searchSpots_some cfg be flt hne, h]
  rcases applyExploreFilters_cases cfg flt with ⟨-, shown, hs⟩ | ⟨-, text, hs⟩
  · rw [hs]
    simp only [Prog.ofExcept, Prog.bind_ret]
    rw [rejectScopeMismatch, if_pos hscope]
    exact ⟨_, _, rfl⟩
  · rw [hs]
    exact ⟨_, _, rfl⟩

end Rejections

/-- A cursor that one request issued and a request of the other mode or of another scope gets is
rejected, unless a search issued it and a list without a box, of a known region, gets it. -/
theorem cursor_rejected_iff (cfg cfg' : Settings) {be : Backend} (hx : LibraryTexts be)
    {mode mode' : ExploreMode} {flt flt' : ExploreFilter} {cursor : String}
    (hissued : mode.Issues cfg be flt cursor)
    (hother : mode.isSearch ≠ mode'.isSearch ∨ scopeToken be flt.bbox ≠ scopeToken be flt'.bbox)
    (limit : ℕ) :
    mode'.Rejects cfg' be flt' cursor limit ↔
      ¬(mode.isSearch = true ∧ mode'.isSearch = false ∧ flt'.bbox = none ∧ flt'.KnownRegion) := by
  cases mode with
  | list =>
      obtain ⟨s, hs, rfl⟩ := hissued.of_list
      have hne := listCursor_ne_empty be flt s.uid
      refine iff_of_true ?_ fun h => absurd h.1 (by decide)
      cases mode' with
      | list =>
          have hdiffer := hother.resolve_left fun h => h rfl
          have hcolon : ':' ∉ s.uid.toList :=
            UidFormat.noColons (d := { Db.empty with spots := ⟨[s], List.nodup_singleton _⟩ })
              (fun r hr => by
                rw [List.mem_singleton.1 hr]
                exact hs) s (List.mem_singleton_self s)
          rw [rejects_list_iff hne, rpartitionColon_listCursor be flt hcolon]
          exact fun h => hdiffer h.2
      | search query =>
          exact rejects_search_of_error hne (decodeSearchCursor_listCursor hx flt hs)
  | search query =>
      obtain ⟨score, rating, uid, rfl⟩ := hissued.of_search
      obtain ⟨hdecode, hne⟩ := decodeSearchCursor_encode hx.exact_texts score rating uid
        (scopeToken be flt.bbox)
      cases mode' with
      | list =>
          rw [rejects_list_iff hne, rpartitionColon_searchCursor hx, eq_comm,
            scopeToken_eq_empty_iff hx]
          constructor
          · exact fun h hall => h ⟨hall.2.2.2, hall.2.2.1⟩
          · exact fun h hall => h ⟨rfl, rfl, hall.2, hall.1⟩
      | search query' =>
          have hdiffer := hother.resolve_left fun h => h rfl
          refine iff_of_true ?_ fun h => Bool.noConfusion h.2.1
          exact rejects_search_of_scope hne hdecode hdiffer

/-! ## A search cursor in a list -/

namespace Sample

/-- The payload of a search cursor, and its JSON text. -/
def cursorPayload : Fields :=
  [("r", .inl (1 / 2)), ("v", .inl 0), ("u", .inr "bbbbbbbbbbbbbbbbbbbbbb"), ("s", .inr "")]

def cursorText : String :=
  "\x7b\"r\": 0.5, \"v\": 0.0, \"u\": \"bbbbbbbbbbbbbbbbbbbbbb\", \"s\": \"\"\x7d"

/-- The JSON text of the payload; other objects keep their unary codes. -/
def textDumps (v : Json) : String :=
  match v with
  | .obj ps => if toFields? ps = some cursorPayload then cursorText else dumps (.obj ps)
  | v => dumps v

def textLoads (text : String) : Option Json :=
  if text = cursorText then some (ofFields cursorPayload) else loads text

theorem textLoads_textDumps (fields : Fields) :
    textLoads (textDumps (ofFields fields)) = some (ofFields fields) := by
  have hfields : textDumps (ofFields fields) =
      if fields = cursorPayload then cursorText else dumps (ofFields fields) := by
    simp only [textDumps, ofFields, toFields?_ofFields, Option.some.injEq]
  rw [hfields]
  by_cases h : fields = cursorPayload
  · rw [if_pos h, textLoads, if_pos rfl, h]
  · -- a unary code begins with a digit
    have hne : dumps (ofFields fields) ≠ cursorText := by
      intro heq
      have hhead : (dumps (ofFields fields)).toList.head? = some '1' := by
        simp only [dumps, ofFields, toFields?_ofFields, String.toList_ofList,
          List.replicate_succ, List.head?_cons]
      rw [heq] at hhead
      exact absurd hhead (by decide +kernel)
    rw [if_neg h, textLoads, if_neg hne, loads_dumps]

/-- A backend with the library's texts where the examples need them. -/
def textBackend : Backend where
  __ := backend
  b64encode := Base64.encodeText
  b64decode := fun text => (Base64.decodeText text).bind Base64.ofUtf8
  jsonDumps := textDumps
  jsonLoads := textLoads
  sha256 := fun text =>
    if text = "126.000000,37.000000,127.000000,38.000000" then
      "33464b22a8406acd7c3d28a0f3a5f8ec2605f33e16de177b7dd35867460706cd"
    else "e3b0c44298fc1c149afbf4c8996fb92427ae41e4649b934ca495991b7852b855"
  searchScore := fun _ _ => 1 / 2

theorem libraryTexts : LibraryTexts textBackend where
  exact_texts :=
    { base64 := fun text => by
        simp only [textBackend, Base64.decodeText_encodeText, Option.bind_some, Base64.ofUtf8_utf8]
      base64_empty := by decide +kernel
      json := textLoads_textDumps
      json_empty := by decide +kernel
      iso := Sample.exactTexts.iso }
  encodes _ := rfl
  refuses text h := by simp only [textBackend, h, Option.bind_none]
  hexdigest text := by
    simp only [textBackend]
    split
    · exact ⟨by decide +kernel, by decide +kernel⟩
    · exact ⟨by decide +kernel, by decide +kernel⟩

/-- Two spots with uids of the format. -/
def twoUids : Db where
  __ := Db.empty
  spots := ⟨[spot "aaaaaaaaaaaaaaaaaaaaaa", spot "bbbbbbbbbbbbbbbbbbbbbb"], by decide⟩

/-- The cursor of the first page of one spot. -/
def searchPageCursor : String :=
  "eyJyIjogMC41LCAidiI6IDAuMCwgInUiOiAiYmJiYmJiYmJiYmJiYmJiYmJiYmJiYiIsICJzIjogIiJ9"

/-- The box around the capital. -/
def capitalBox : BBox := ⟨126, 37, 127, 38⟩

theorem issues_searchPageCursor :
    (ExploreMode.search "camp").Issues settings textBackend {} searchPageCursor := by
  have hanswer : (answer twoUids (searchSpots settings textBackend "camp" {} none 1)).map
      (fun out => out.2.1) = .ok (some searchPageCursor) := by decide +kernel
  cases hout : answer twoUids (searchSpots settings textBackend "camp" {} none 1) with
  | error e =>
      rw [hout] at hanswer
      cases hanswer
  | ok out =>
      rw [hout] at hanswer
      have huids : ∀ s ∈ twoUids.spots.rows, s.checkUid = true := by decide +kernel
      exact ⟨twoUids, none, 1, out, huids, hout, Except.ok.inj hanswer⟩

end Sample

/-- The list with a box refuses the search cursor. -/
theorem cursor_rejected_with_box : ExploreMode.list.Rejects Sample.settings Sample.textBackend
    { bbox := some Sample.capitalBox } Sample.searchPageCursor 20 :=
  (cursor_rejected_iff Sample.settings Sample.settings Sample.libraryTexts
    Sample.issues_searchPageCursor (.inl (by decide)) 20).2 fun h => absurd h.2.2.1 (by simp)

/-- The list without a box takes it for a uid, and answers. -/
theorem search_cursor_accepted :
    (ExploreMode.search "camp").Issues Sample.settings Sample.textBackend
    {} Sample.searchPageCursor ∧
      ¬ExploreMode.list.Rejects Sample.settings Sample.textBackend
        {} Sample.searchPageCursor 20 := by
  refine ⟨Sample.issues_searchPageCursor, ?_⟩
  rintro ⟨code, message, h⟩
  have hanswer :
      (answer Sample.twoUids (ExploreMode.list.request Sample.settings Sample.textBackend {}
      (some Sample.searchPageCursor) 20)).isOk = true := by decide +kernel
  rw [h] at hanswer
  cases hanswer

end Vivac
