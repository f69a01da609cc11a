import Vivac.Core.CacheKeys
import Vivac.Core.SampleBackend
import Vivac.Endpoints.Explore
import Vivac.Reads.KeyReadings

/-!
# Requests with one cache key

The key of a list or map request joins its parameters with `&` and its categories with `,`, and
escapes neither. The text of a request can then be that of another one: a parameter that holds the
name of a later one, a category with a comma, or no category and an empty one. A request shares its
key with requests for the same query only exactly when it is unambiguous
(`ExploreRequest.separates_iff`).
-/

set_option autoImplicit false

namespace Vivac

open Lib

/-! ## Boxes -/

section Boxes

/-- What bringing a text to ASCII leaves alone. -/
theorem mem_toAscii {s : List Char} (h : '&' ∈ s) : '&' ∈ Py.toAscii s := by
  unfold Py.toAscii
  split
  · exact h
  · exact List.mem_map.2 ⟨'&', h, by decide⟩

theorem mem_dropWhile {p : Char → Bool} {s : List Char} {c : Char} (h : c ∈ s) (hc : p c = false) :
    c ∈ s.dropWhile p := by
  rw [← List.takeWhile_append_dropWhile (p := p) (l := s)] at h
  rcases List.mem_append.1 h with h | h
  · have hp := List.all_eq_true.1 List.all_takeWhile c h
    rw [hc] at hp
    exact absurd hp Bool.false_ne_true
  · exact h

theorem mem_strip {p : Char → Bool} {s : List Char} {c : Char} (h : c ∈ s) (hc : p c = false) :
    c ∈ Py.strip p s := by
  unfold Py.strip
  rw [List.mem_reverse]
  apply mem_dropWhile _ hc
  rw [List.mem_reverse]
  exact mem_dropWhile h hc

theorem mem_dropUnderscores {prev : Bool} {s t : List Char} (h : '&' ∈ s)
    (ht : Py.dropUnderscores prev s = some t) : '&' ∈ t := by
  induction prev, s using Py.dropUnderscores.induct generalizing t with
  | case1 => simp at h
  | case2 => simp at h
  | case3 prev c cs hc ih =>
      rw [Py.dropUnderscores, if_pos hc] at ht
      exact ih ((List.mem_cons.1 h).resolve_left (by decide)) ht
  | case4 prev c cs hc =>
      rw [Py.dropUnderscores, if_neg hc] at ht
      cases ht
  | case5 prev c cs hc ih =>
      rw [Py.dropUnderscores] at ht
      · obtain ⟨u, hu, rfl⟩ := Option.map_eq_some_iff.1 ht
        rcases List.mem_cons.1 h with h | h
        · exact h ▸ List.mem_cons_self
        · exact List.mem_cons_of_mem c (ih h hu)
      · exact hc

theorem mem_scanSign {s : List Char} (h : '&' ∈ s) : '&' ∈ (Py.scanSign s).2 := by
  unfold Py.scanSign
  split
  · exact (List.mem_cons.1 h).resolve_left (by decide)
  · exact (List.mem_cons.1 h).resolve_left (by decide)
  · exact h

theorem scanExponent_none {s : List Char} (h : '&' ∈ s) : Py.scanExponent s = none := by
  cases s with
  | nil => simp at h
  | cons c cs =>
      rw [Py.scanExponent]
      split
      · next he =>
          have hc : '&' ≠ c := by
            rintro rfl
            revert he
            decide
          have hmem := mem_scanSign ((List.mem_cons.1 h).resolve_left hc)
          have hdigits : (Py.scanSign cs).2.all Char.isDigit = false := by
            rw [List.all_eq_false]
            exact ⟨'&', hmem, by decide⟩
          simp only [hdigits, Bool.and_false, if_neg Bool.false_ne_true]
      · rfl

theorem scanDecimal_none {s : List Char} (h : '&' ∈ s) : Py.scanDecimal s = none := by
  have hrest := mem_dropWhile (p := Char.isDigit) h (by decide)
  unfold Py.scanDecimal
  split
  · next frac rest hsplit =>
      have hmem : '&' ∈ rest := by
        split at hsplit
        · next cs hcs =>
            cases hsplit
            rw [hcs] at hrest
            exact mem_dropWhile ((List.mem_cons.1 hrest).resolve_left (by decide)) (by decide)
        · cases hsplit
          exact hrest
      rw [scanExponent_none hmem]
      exact ite_self none

theorem scanNumber_none {s : List Char} (h : '&' ∈ s) : Py.scanNumber s = none := by
  have hbody := mem_scanSign h
  have hname : ∀ text : String, '&' ∉ text.toList →
      String.ofList ((Py.scanSign s).2.map Char.toLower) ≠ text := by
    rintro text htext rfl
    apply htext
    rw [String.toList_ofList]
    exact List.mem_map.2 ⟨'&', hbody, by decide⟩
  have hinf := hname "inf" (by decide)
  have hinfinity := hname "infinity" (by decide)
  have hnan := hname "nan" (by decide)
  simp only [Py.scanNumber, hinf, hinfinity, hnan, decide_false, Bool.or_self,
    scanDecimal_none hbody]
  rfl

/-- The text of a number holds no `&`. -/
theorem not_mem_of_float {s : List Char} {f : PyFloat} (hf : Py.float (String.ofList s) = some f) :
    '&' ∉ s := by
  intro h
  have hstrip := mem_strip (p := Py.isCSpace) (mem_toAscii h) (by decide)
  rw [Py.float, String.toList_ofList] at hf
  obtain ⟨t, ht, hnumber⟩ := Option.bind_eq_some_iff.1 hf
  rw [scanNumber_none (mem_dropUnderscores hstrip ht)] at hnumber
  cases hnumber

/-- The text of a box holds no `&`. -/
theorem not_mem_of_parseBbox {raw : String} {b : BBox} (h : parseBbox raw = .ok b) :
    '&' ∉ raw.toList := by
  unfold parseBbox at h
  split at h
  · next p₀ p₁ p₂ p₃ hparts =>
      split at h
      · next f₀ f₁ f₂ f₃ hf₀ hf₁ hf₂ hf₃ =>
          have hraw : raw.toList = [','].intercalate [p₀, p₁, p₂, p₃] := by
            rw [← hparts, List.intercalate_splitOn]
          have h₀ := not_mem_of_float hf₀
          have h₁ := not_mem_of_float hf₁
          have h₂ := not_mem_of_float hf₂
          have h₃ := not_mem_of_float hf₃
          rw [hraw]
          simp [List.intercalate, h₀, h₁, h₂, h₃]
      · cases h
  · cases h

end Boxes

/-! ## Requests -/

/-- A request to the list or to the map. -/
inductive ExploreRequest where
  | list (req : ListRequest)
  | map (req : MapRequest)

/-- A value whose empty form means the same as its absence. -/
def textOf (value : Option String) : String := value.getD ""

namespace ExploreRequest

/-- The parameters the cache key is made of. -/
def params : ExploreRequest → List (String × Cache.Param)
  | list req => req.params
  | map req => req.params

def isMap : ExploreRequest → Bool
  | list _ => false
  | map _ => true

def q : ExploreRequest → String
  | list req => textOf req.q
  | map req => textOf req.q

def category : ExploreRequest → Option (List String)
  | list req => req.category
  | map req => req.category

def regionProvince : ExploreRequest → String
  | list req => textOf req.regionProvince
  | map req => textOf req.regionProvince

def bbox : ExploreRequest → Option String
  | list req => req.bbox
  | map req => req.bbox

/-- The map has no cursor. -/
def cursor : ExploreRequest → String
  | list req => textOf req.cursor
  | map _ => ""

def limit : ExploreRequest → ℕ
  | list req => req.limit
  | map req => req.limit

/-- The handler does not refuse the box, so it asks the cache. -/
def Accepted (r : ExploreRequest) : Prop := ∃ b, parseOptionalBbox r.bbox = .ok b

/-- The key under which the handler asks the cache, at a version. -/
def key (be : Backend) (version : ℕ) (r : ExploreRequest) : String :=
  Cache.spotsListKey version (be.sha256 (Cache.rawParams r.params))

theorem makeSpotsListKey_eq (cfg : Settings) (be : Backend) (r : ExploreRequest) :
    Cache.makeSpotsListKey cfg be r.params =
      (Cache.getSpotsVersion cfg).bind fun version => .ret (r.key be version) := rfl

/-- Both requests go to one endpoint and denote one query. -/
structure SameQuery (r r' : ExploreRequest) : Prop where
  endpoint : r.isMap = r'.isMap
  limit : r.limit = r'.limit
  q : r.q = r'.q
  bbox : textOf r.bbox = textOf r'.bbox
  cursor : r.cursor = r'.cursor
  regionProvince : r.regionProvince = r'.regionProvince
  category : ∀ code, code ∈ r.category.getD [] ↔ code ∈ r'.category.getD []

/-- The text behind `category=`, for a category text. -/
def Clear (c : List Char) : ExploreRequest → Prop
  | list req => ListClear c (textOf req.cursor).toList (textOf req.q).toList
      (textOf req.regionProvince).toList
  | map req => MapClear c req.limit (textOf req.q).toList (textOf req.regionProvince).toList

/-- One category that is not empty and that no comma splits in order, and a text that can be read in
one way only. -/
def Unambiguous (r : ExploreRequest) : Prop :=
  ∃ x, r.category = some [x] ∧ x ≠ "" ∧ (∀ a b, x = a ++ "," ++ b → b < a) ∧ r.Clear x.toList

/-- The texts of the parameters behind the category. -/
def tail (c : List Char) : ExploreRequest → List Char
  | list req => listTail c (textOf req.cursor).toList req.limit (textOf req.q).toList
      (textOf req.regionProvince).toList
  | map req => mapTail c req.limit (textOf req.q).toList (textOf req.regionProvince).toList

/-- The categories' text. -/
def categoryText (r : ExploreRequest) : String := Cache.normalizeParam (.list r.category)

theorem normalizeParam_text (value : Option String) :
    Cache.normalizeParam (.text value) = textOf value := by
  cases value <;> rfl

theorem normalizeParam_int (n : ℕ) : Cache.normalizeParam (.int n) = Nat.repr n := rfl

/-- The parameters of a list request, in the order of their names. -/
theorem sorted_list (req : ListRequest) :
    List.insertionSort (fun (a b : String × Cache.Param) => a.1 ≤ b.1) req.params =
      [("bbox", .text req.bbox), ("category", .list req.category), ("cursor", .text req.cursor),
        ("limit", .int req.limit), ("q", .text req.q),
        ("region_province", .text req.regionProvince)] := by
  simp [ListRequest.params, List.insertionSort, List.orderedInsert]

/-- The parameters of a map request, in the order of their names. -/
theorem sorted_map (req : MapRequest) :
    List.insertionSort (fun (a b : String × Cache.Param) => a.1 ≤ b.1) req.params =
      [("bbox", .text req.bbox), ("category", .list req.category), ("kind", .text (some "map")),
        ("limit", .int req.limit), ("q", .text req.q),
        ("region_province", .text req.regionProvince)] := by
  simp [MapRequest.params, List.insertionSort, List.orderedInsert]

/-- The text that the key's digest is taken of. -/
theorem rawParams_toList (r : ExploreRequest) : (Cache.rawParams r.params).toList =
    "bbox=".toList ++ ((textOf r.bbox).toList ++
      ("&category=".toList ++ r.tail r.categoryText.toList)) := by
  cases r with
  | list req =>
      rw [params, Cache.rawParams, sorted_list]
      simp only [List.map_cons, List.map_nil, String.intercalate_cons_cons,
        String.intercalate_singleton, normalizeParam_text, normalizeParam_int]
      simp [tail, listTail, Separator.text_cursor, Separator.text_limit,
        Separator.text_region, bbox,
        categoryText, category]
  | map req =>
      rw [params, Cache.rawParams, sorted_map]
      simp only [List.map_cons, List.map_nil, String.intercalate_cons_cons,
        String.intercalate_singleton, normalizeParam_text, normalizeParam_int]
      simp [tail, mapTail, Separator.text_kind, Separator.text_limit, Separator.text_region, bbox,
        categoryText, category, textOf]

/-! ## One key, one text -/

theorem Accepted.not_mem_bbox {r : ExploreRequest} (h : r.Accepted) :
    '&' ∉ (textOf r.bbox).toList := by
  obtain ⟨b, hb⟩ := h
  unfold parseOptionalBbox at hb
  split at hb
  · next raw hraw =>
      rw [hraw]
      split at hb
      · next hempty =>
          rw [hempty]
          decide
      · cases hbox : parseBbox raw with
        | error e =>
            rw [hbox] at hb
            cases hb
        | ok box => exact not_mem_of_parseBbox hbox
  · next hnone =>
      rw [hnone]
      decide

/-- A text is read in one way up to the first `c`. -/
theorem cut_inj {x y u v : List Char} {c : Char} (hx : c ∉ x) (hy : c ∉ y)
    (h : x ++ c :: u = y ++ c :: v) : x = y ∧ u = v := by
  have hread : ∀ z w : List Char, c ∉ z → (z ++ c :: w).takeWhile (· != c) = z := by
    intro z w hz
    have hpos : ∀ d ∈ z, (d != c) = true := fun d hd => bne_iff_ne.2 fun heq => hz (heq ▸ hd)
    rw [List.takeWhile_append_of_pos hpos, List.takeWhile_cons_of_neg (by simp), List.append_nil]
  have hcut := congrArg (List.takeWhile (· != c)) h
  rw [hread x u hx, hread y v hy] at hcut
  subst hcut
  exact ⟨rfl, (List.cons.inj (List.append_cancel_left h)).2⟩

/-- Accepted requests whose keys are made of one text have one box, and one text behind it. -/
theorem texts_of_rawParams {r r' : ExploreRequest} (h : r.Accepted) (h' : r'.Accepted)
    (heq : Cache.rawParams r.params = Cache.rawParams r'.params) :
    textOf r.bbox = textOf r'.bbox ∧
      r.tail r.categoryText.toList = r'.tail r'.categoryText.toList := by
  have hlist := congrArg String.toList heq
  rw [rawParams_toList, rawParams_toList] at hlist
  have hcut : (textOf r.bbox).toList ++
        '&' :: ("category=".toList ++ r.tail r.categoryText.toList) =
      (textOf r'.bbox).toList ++
        '&' :: ("category=".toList ++ r'.tail r'.categoryText.toList) :=
    List.append_cancel_left hlist
  obtain ⟨hbbox, htail⟩ := cut_inj h.not_mem_bbox h'.not_mem_bbox hcut
  exact ⟨String.toList_inj.1 hbbox, List.append_cancel_left htail⟩

/-- Requests with one box and one text behind it have one key. -/
theorem key_congr (be : Backend) (version : ℕ) {r r' : ExploreRequest}
    (hbbox : textOf r.bbox = textOf r'.bbox)
    (htail : r.tail r.categoryText.toList = r'.tail r'.categoryText.toList) :
    r.key be version = r'.key be version := by
  have hraw : Cache.rawParams r.params = Cache.rawParams r'.params := by
    rw [← String.toList_inj, rawParams_toList, rawParams_toList, hbbox, htail]
  rw [key, key, hraw]

/-! ## The categories -/

theorem normalizeParam_singleton (x : String) : Cache.normalizeParam (.list (some [x])) = x := by
  show ",".intercalate [x] = x
  exact String.intercalate_singleton

theorem le_append (a b : String) : a ≤ a ++ b := by
  rw [← not_lt, String.lt_iff_toList_lt, String.toList_append]
  exact @List.le_append_left Char _ ⟨lt_irrefl⟩ a.toList b.toList

theorem ne_append_comma (a b : String) : a ≠ a ++ "," ++ b := by
  intro h
  have hlength := congrArg String.length h
  rw [String.length_append, String.length_append] at hlength
  have hcomma : (",":String).length = 1 := by decide
  omega

/-- Several categories make a text that a comma splits in order. -/
theorem exists_split {a b : String} {cs : List String}
    (h : (a :: b :: cs).Pairwise (· ≤ ·)) :
    ∃ t, ",".intercalate (a :: b :: cs) = a ++ "," ++ t ∧ a ≤ t := by
  refine ⟨",".intercalate (b :: cs), String.intercalate_cons_cons, ?_⟩
  have hab : a ≤ b := (List.pairwise_cons.1 h).1 b List.mem_cons_self
  cases cs with
  | nil => rwa [String.intercalate_singleton]
  | cons c cs =>
      rw [String.intercalate_cons_cons, String.append_assoc]
      exact hab.trans (le_append b _)

/-- The text of one category that no comma splits in order is that of no other set of categories. -/
theorem category_of_text {x : String} (hx : x ≠ "") (hsplit : ∀ a b, x = a ++ "," ++ b → b < a)
    {category : Option (List String)} (h : Cache.normalizeParam (.list category) = x)
    (code : String) : code ∈ category.getD [] ↔ code = x := by
  cases category with
  | none => exact absurd h.symm hx
  | some codes =>
      have hsorted := List.pairwise_insertionSort (· ≤ ·) codes
      have hmem : ∀ code, code ∈ codes.insertionSort (· ≤ ·) ↔ code ∈ codes := fun code =>
        (List.perm_insertionSort (· ≤ ·) codes).mem_iff
      rw [Option.getD_some, ← hmem]
      rw [Cache.normalizeParam] at h
      match hcodes : codes.insertionSort (· ≤ ·) with
      | [] =>
          rw [hcodes] at h
          exact absurd h.symm hx
      | [a] =>
          rw [hcodes, String.intercalate_singleton] at h
          rw [h, List.mem_singleton]
      | a :: b :: cs =>
          rw [hcodes] at h hsorted
          obtain ⟨t, ht, hle⟩ := exists_split hsorted
          exact absurd hle (not_le.2 (hsplit a t (h.symm.trans ht)))

/-- A list of categories whose text is its only category has no other one. -/
theorem eq_singleton_of_text {x : String} {codes : List String}
    (hcodes : ∀ code, code ∈ codes ↔ code = x)
    (h : Cache.normalizeParam (.list (some codes)) = x) : codes = [x] := by
  have hlength := (List.perm_insertionSort (· ≤ ·) codes).length_eq
  have hmem : ∀ code, code ∈ codes.insertionSort (· ≤ ·) ↔ code = x := fun code =>
    (List.perm_insertionSort (· ≤ ·) codes).mem_iff.trans (hcodes code)
  have hsorted := List.pairwise_insertionSort (· ≤ ·) codes
  rw [Cache.normalizeParam] at h
  match hsort : codes.insertionSort (· ≤ ·) with
  | [] =>
      rw [hsort] at hmem
      exact absurd ((hmem x).2 rfl) List.not_mem_nil
  | [a] =>
      rw [hsort] at hlength
      obtain ⟨c, rfl⟩ := List.length_eq_one_iff.1 hlength.symm
      rw [(hcodes c).1 List.mem_cons_self]
  | a :: b :: cs =>
      rw [hsort] at h hsorted hmem
      obtain ⟨t, ht, -⟩ := exists_split hsorted
      have ha : a = x := (hmem a).1 List.mem_cons_self
      rw [h, ha] at ht
      exact absurd ht (ne_append_comma x t)

/-! ## Which requests share a key -/

/-- At the version, every accepted request with the key of `r` is for the query of `r`. -/
def Separates (be : Backend) (version : ℕ) (r : ExploreRequest) : Prop :=
  ∀ r' : ExploreRequest, r'.Accepted → r.key be version = r'.key be version → r.SameQuery r'

/-- The request with other categories. -/
def withCategory (category : Option (List String)) : ExploreRequest → ExploreRequest
  | list req => list { req with category := category }
  | map req => map { req with category := category }

@[simp] theorem bbox_withCategory (category : Option (List String)) (r : ExploreRequest) :
    (r.withCategory category).bbox = r.bbox := by
  cases r <;> rfl

@[simp] theorem category_withCategory (category : Option (List String)) (r : ExploreRequest) :
    (r.withCategory category).category = category := by
  cases r <;> rfl

@[simp] theorem tail_withCategory (category : Option (List String)) (r : ExploreRequest)
    (c : List Char) : (r.withCategory category).tail c = r.tail c := by
  cases r <;> rfl

variable {be : Backend} {version : ℕ} {r : ExploreRequest}

/-- Other categories with the same text are the same set. -/
theorem Separates.category (h : r.Separates be version) (hr : r.Accepted)
    {category : Option (List String)}
    (htext : Cache.normalizeParam (.list category) = r.categoryText) (code : String) :
      code ∈ r.category.getD [] ↔ code ∈ category.getD [] := by
  have haccepted : (r.withCategory category).Accepted := by
    rw [Accepted, bbox_withCategory]
    exact hr
  have hkey : r.key be version = (r.withCategory category).key be version := by
    apply key_congr be version
    · rw [bbox_withCategory]
    · rw [tail_withCategory, categoryText, categoryText, category_withCategory, htext, categoryText]
  have hsame := (h _ haccepted hkey).category code
  rwa [category_withCategory] at hsame

/-- There is one category, not empty, that no comma splits in order. -/
theorem Separates.singleton (h : r.Separates be version) (hr : r.Accepted) :
    ∃ x, r.category = some [x] ∧ x ≠ "" ∧ ∀ a b, x = a ++ "," ++ b → b < a := by
  -- the text of the categories as one category
  have hone : ∀ code, code ∈ r.category.getD [] ↔ code = r.categoryText := by
    intro code
    rw [h.category hr (normalizeParam_singleton r.categoryText), Option.getD_some,
      List.mem_singleton]
  have hcategory : r.category = some [r.categoryText] := by
    cases hcat : r.category with
    | none =>
        rw [hcat] at hone
        exact absurd ((hone r.categoryText).2 rfl) List.not_mem_nil
    | some codes =>
        have htext : Cache.normalizeParam (.list (some codes)) = r.categoryText := by
          rw [categoryText, hcat]
        rw [hcat, Option.getD_some] at hone
        rw [eq_singleton_of_text hone htext]
  have hmem : r.categoryText ∈ r.category.getD [] := (hone r.categoryText).2 rfl
  refine ⟨r.categoryText, hcategory, ?_, ?_⟩
  · intro hempty
    have hnone : Cache.normalizeParam (.list none) = r.categoryText := hempty.symm
    exact absurd ((h.category hr hnone r.categoryText).1 hmem) List.not_mem_nil
  · intro a b hab
    by_contra hle
    rw [not_lt] at hle
    have hsorted : [a, b].insertionSort (· ≤ ·) = [a, b] := by
      simp [List.insertionSort, hle]
    have htext : Cache.normalizeParam (.list (some [a, b])) = r.categoryText := by
      rw [Cache.normalizeParam, hsorted, String.intercalate_cons_cons,
        String.intercalate_singleton, hab]
    have ha := (h.category hr htext a).2 List.mem_cons_self
    have heq := ((hone a).1 ha).trans hab
    exact ne_append_comma a b heq

/-- The list request that a reading of a text is. -/
def ofListReading (bbox : Option String) (c k : List Char) (n : ℕ) (q r : List Char) (hn₁ : 1 ≤ n)
    (hn₂ : n ≤ 50) : ExploreRequest :=
  list
    { q := some (String.ofList q)
      category := some [String.ofList c]
      regionProvince := some (String.ofList r)
      bbox := bbox
      cursor := some (String.ofList k)
      limit := n
      limit_ge := hn₁
      limit_le := hn₂ }

/-- The map request that a reading of a text is. -/
def ofMapReading (bbox : Option String) (c : List Char) (n : ℕ) (q r : List Char) (hn₁ : 1 ≤ n)
    (hn₂ : n ≤ mapLimitMax) : ExploreRequest :=
  map
    { q := some (String.ofList q)
      category := some [String.ofList c]
      regionProvince := some (String.ofList r)
      bbox := bbox
      limit := n
      limit_ge := hn₁
      limit_le := hn₂ }

theorem tail_ofListReading (bbox : Option String) (c k : List Char) (n : ℕ) (q r : List Char)
    (hn₁ : 1 ≤ n) (hn₂ : n ≤ 50) :
    (ofListReading bbox c k n q r hn₁ hn₂).tail
      (ofListReading bbox c k n q r hn₁ hn₂).categoryText.toList = listTail c k n q r := by
  have htext : (ofListReading bbox c k n q r hn₁ hn₂).categoryText = String.ofList c :=
    normalizeParam_singleton _
  rw [htext]
  simp [ofListReading, tail, textOf]

theorem tail_ofMapReading (bbox : Option String) (c : List Char) (n : ℕ) (q r : List Char)
    (hn₁ : 1 ≤ n) (hn₂ : n ≤ mapLimitMax) :
    (ofMapReading bbox c n q r hn₁ hn₂).tail
      (ofMapReading bbox c n q r hn₁ hn₂).categoryText.toList = mapTail c n q r := by
  have htext : (ofMapReading bbox c n q r hn₁ hn₂).categoryText = String.ofList c :=
    normalizeParam_singleton _
  rw [htext]
  simp [ofMapReading, tail, textOf]

/-- The text behind the category is read in one way, since another reading is another request. -/
theorem Separates.clear (h : r.Separates be version) (hr : r.Accepted) {x : String}
    (hx : r.category = some [x]) : r.Clear x.toList := by
  have htext : r.categoryText = x := by
    rw [categoryText, hx, normalizeParam_singleton]
  have hcategory : ∀ {r' : ExploreRequest} {c : List Char}, r.SameQuery r' →
      r'.category = some [String.ofList c] → x.toList = c := by
    intro r' c hsame hc
    have hiff := hsame.category x
    rw [hx, hc, Option.getD_some, Option.getD_some, List.mem_singleton, List.mem_singleton] at hiff
    rw [hiff.1 rfl, String.toList_ofList]
  have hother : ∀ r' : ExploreRequest, r'.bbox = r.bbox →
      r.tail x.toList = r'.tail r'.categoryText.toList → r.SameQuery r' := by
    intro r' hbbox htail
    refine h r' ?_ (key_congr be version (by rw [hbbox]) (by rw [htext, htail]))
    rw [Accepted, hbbox]
    exact hr
  have hofList : ∀ {a : String} {b : List Char}, a = String.ofList b → a.toList = b := by
    rintro a b rfl
    exact String.toList_ofList
  cases r with
  | list req =>
      refine (listClear_iff req.limit_ge req.limit_le).2 ⟨?_, ?_⟩
      · intro c' k' n' q' r' hn₁ hn₂ heq
        have hsame := hother (ofListReading req.bbox c' k' n' q' r' hn₁ hn₂) rfl
          (heq.trans (tail_ofListReading ..).symm)
        exact ⟨hcategory hsame rfl, hofList hsame.cursor, hsame.limit, hofList hsame.q,
          hofList hsame.regionProvince⟩
      · intro c' n' q' r' hn₁ hn₂ heq
        have hsame := hother (ofMapReading req.bbox c' n' q' r' hn₁ hn₂) rfl
          (heq.trans (tail_ofMapReading ..).symm)
        exact absurd hsame.endpoint Bool.false_ne_true
  | map req =>
      refine (mapClear_iff req.limit_ge req.limit_le).2 ⟨?_, ?_⟩
      · intro c' n' q' r' hn₁ hn₂ heq
        have hsame := hother (ofMapReading req.bbox c' n' q' r' hn₁ hn₂) rfl
          (heq.trans (tail_ofMapReading ..).symm)
        exact ⟨hcategory hsame rfl, hsame.limit, hofList hsame.q, hofList hsame.regionProvince⟩
      · intro c' k' n' q' r' hn₁ hn₂ heq
        have hsame := hother (ofListReading req.bbox c' k' n' q' r' hn₁ hn₂) rfl
          (heq.trans (tail_ofListReading ..).symm)
        exact absurd hsame.endpoint.symm Bool.false_ne_true

/-- A request whose text is read in one way has its key for its query. -/
theorem Unambiguous.separates (hinj : Function.Injective be.sha256) (h : r.Unambiguous)
    (hr : r.Accepted) : r.Separates be version := by
  obtain ⟨x, hcategory, hx, hsplit, hclear⟩ := h
  intro r' hr' hkey
  have hraw := hinj (Cache.spotsListKey_inj hkey).2
  obtain ⟨hbbox, htail⟩ := texts_of_rawParams hr hr' hraw
  have htext : r.categoryText = x := by
    rw [categoryText, hcategory, normalizeParam_singleton]
  rw [htext] at htail
  have hset : x.toList = r'.categoryText.toList →
      ∀ code, code ∈ r.category.getD [] ↔ code ∈ r'.category.getD [] := by
    intro hc code
    rw [hcategory, Option.getD_some, List.mem_singleton]
    exact (category_of_text hx hsplit (String.toList_inj.1 hc).symm code).symm
  cases r with
  | list req =>
      cases r' with
      | list req' =>
          obtain ⟨hc, hk, hn, hq, hregion⟩ :=
            listTail_inj hclear req'.limit_ge req'.limit_le htail
          exact ⟨rfl, hn, String.toList_inj.1 hq, hbbox, String.toList_inj.1 hk,
            String.toList_inj.1 hregion, hset hc⟩
      | map req' => exact absurd htail (listTail_ne_mapTail hclear req'.limit_ge req'.limit_le)
  | map req =>
      cases r' with
      | list req' => exact absurd htail (mapTail_ne_listTail hclear req'.limit_ge req'.limit_le)
      | map req' =>
          obtain ⟨hc, hn, hq, hregion⟩ := mapTail_inj hclear req'.limit_ge req'.limit_le htail
          exact ⟨rfl, hn, String.toList_inj.1 hq, hbbox, rfl, String.toList_inj.1 hregion, hset hc⟩

/-- An accepted request shares its key with requests for its query only, exactly when it is
unambiguous. -/
theorem separates_iff (hinj : Function.Injective be.sha256) (hr : r.Accepted) :
    r.Separates be version ↔ r.Unambiguous := by
  constructor
  · intro h
    obtain ⟨x, hcategory, hx, hsplit⟩ := h.singleton hr
    exact ⟨x, hcategory, hx, hsplit, h.clear hr hcategory⟩
  · intro h
    exact h.separates hinj hr

theorem oneItem_ge : 1 ≤ 1 := le_rfl

theorem oneItem_le : 1 ≤ 50 := by decide

/-- A list request for the first item of some categories. -/
def firstOf (codes : List String) : ExploreRequest :=
  list { category := some codes, limit := 1, limit_ge := oneItem_ge, limit_le := oneItem_le }

theorem separates_firstOf : (firstOf ["camp"]).Separates Sample.backend 0 ↔
    (firstOf ["camp"]).Unambiguous :=
  separates_iff Function.injective_id ⟨none, rfl⟩

/-- Two categories have the key of one category that is their text. -/
theorem key_firstOf : (firstOf ["auto", "glamping"]).Accepted ∧
    (firstOf ["auto,glamping"]).Accepted ∧
    (firstOf ["auto", "glamping"]).key Sample.backend 0 =
      (firstOf ["auto,glamping"]).key Sample.backend 0 ∧
    ¬(firstOf ["auto", "glamping"]).SameQuery (firstOf ["auto,glamping"]) := by
  refine ⟨⟨none, rfl⟩, ⟨none, rfl⟩, by decide +kernel, ?_⟩
  intro hsame
  have hauto := (hsame.category "auto").1 List.mem_cons_self
  exact absurd (List.mem_singleton.1 hauto) (by decide)

end ExploreRequest

end Vivac
