import Vivac.Core.CacheKeys
import Vivac.Endpoints.Explore
import Vivac.Lib.Separators

/-!
# Readings of a cache key's text

The text of a list or map request is its parameters joined with `&`: behind the category a list
request's cursor, limit, query and region, or a map request's kind, limit, query and region. The
names of the parameters are separators, and no parameter is escaped. The text of a request is that
of no other one exactly when it holds none of them where it would start another reading
(`listClear_iff`, `mapClear_iff`).
-/

set_option autoImplicit false

namespace Vivac

open Lib

/-! ## Separators -/

/-- What stands between the parameters that follow the category; a limit is a number, so it stands
there with the name of the parameter that follows it. -/
inductive Separator where
  | cursor
  | kind
  | limit (n : ℕ)
  | region

namespace Separator

def text : Separator → List Char
  | .cursor => "&cursor=".toList
  | .kind => "&kind=map".toList
  | .limit n => "&limit=".toList ++ (Nat.toDigits 10 n ++ "&q=".toList)
  | .region => "&region_province=".toList

theorem text_cursor : cursor.text = "&cursor=".toList := rfl

theorem text_kind : kind.text = "&kind=map".toList := rfl

theorem text_limit (n : ℕ) :
    (limit n).text = "&limit=".toList ++ (Nat.toDigits 10 n ++ "&q=".toList) := rfl

theorem text_region : region.text = "&region_province=".toList := rfl

/-- The second character, which tells the separators apart. -/
def mark : Separator → Char
  | .cursor => 'c'
  | .kind => 'k'
  | .limit _ => 'l'
  | .region => 'r'

theorem text_eq (s : Separator) : ∃ t, s.text = '&' :: s.mark :: t := by
  cases s with
  | limit n => exact ⟨"imit=".toList ++ (Nat.toDigits 10 n ++ "&q=".toList), rfl⟩
  | cursor => exact ⟨"ursor=".toList, rfl⟩
  | kind => exact ⟨"ind=map".toList, rfl⟩
  | region => exact ⟨"egion_province=".toList, rfl⟩

theorem not_mem_limitTail (n : ℕ) : '&' ∉ "limit=".toList ++ Nat.toDigits 10 n := by
  intro h
  rcases List.mem_append.1 h with h | h
  · revert h
    decide
  · have hdigit := Nat.isDigit_of_mem_toDigits (by decide) (by decide) h
    revert hdigit
    decide

/-- The `&` inside a separator is that before `q`. -/
theorem suffix_cases {s : Separator} {b t : List Char} (h : b <:+ s.text) (hb : b ≠ s.text)
    (ht : b = '&' :: t) : b = "&q=".toList := by
  -- an end without an `&` does not start with one
  have hplain : ∀ {w : List Char}, '&' ∉ w → ¬b <:+ w := by
    intro w hw hsuffix
    exact hw (hsuffix.subset (ht ▸ List.mem_cons_self))
  have htail : ∀ {w : List Char}, s.text = '&' :: w → b <:+ w := by
    intro w hw
    rw [hw] at h hb
    exact (List.suffix_cons_iff.1 h).resolve_left hb
  cases s with
  | cursor => exact absurd (htail (w := "cursor=".toList) rfl) (hplain (by decide))
  | kind => exact absurd (htail (w := "kind=map".toList) rfl) (hplain (by decide))
  | region => exact absurd (htail (w := "region_province=".toList) rfl) (hplain (by decide))
  | limit n =>
      have hend : b <:+ ("limit=".toList ++ Nat.toDigits 10 n) ++ "&q=".toList := by
        rw [List.append_assoc]
        exact htail rfl
      obtain ⟨a, hab⟩ := hend
      rcases List.append_eq_append_iff.1 hab with ⟨c, hc, hbc⟩ | ⟨c, -, hq⟩
      · cases c with
        | nil => exact hbc
        | cons x c =>
            -- it would start within the number
            rw [hbc, List.cons_append, List.cons.injEq] at ht
            rw [ht.1] at hc
            exact absurd (hc ▸ List.mem_append_right a List.mem_cons_self) (not_mem_limitTail n)
      · have hsuffix : b <:+ "&q=".toList := ⟨c, hq.symm⟩
        rcases List.suffix_cons_iff.1 hsuffix with heq | hrest
        · exact heq
        · exact absurd hrest (hplain (by decide))

theorem mark_ne_q (s : Separator) : s.mark ≠ 'q' := by
  cases s <;> simp [mark]

/-- Digits are read up to what follows a number. -/
theorem digits_inj {n m : ℕ} {u u' : List Char}
    (h : Nat.toDigits 10 n ++ ("&q=".toList ++ u) = Nat.toDigits 10 m ++ ("&q=".toList ++ u')) :
    n = m := by
  have hdigits : ∀ k, ∀ c ∈ Nat.toDigits 10 k, c.isDigit = true := fun k c hc =>
    Nat.isDigit_of_mem_toDigits (by decide) (by decide) hc
  have htake := congrArg (List.takeWhile Char.isDigit) h
  have hread : ∀ k w, (Nat.toDigits 10 k ++ ("&q=".toList ++ w)).takeWhile Char.isDigit =
      Nat.toDigits 10 k := fun k w => Cache.digits_append (hdigits k) (by decide)
  rw [hread, hread] at htake
  apply Cache.versionText_injective
  rw [Cache.toList_versionText, Cache.toList_versionText, htake]

theorem limit_inj {n m : ℕ} {u u' : List Char}
    (h : (limit n).text ++ u = (limit m).text ++ u') : n = m := by
  have hassoc : ∀ k w, (limit k).text ++ w =
      "&limit=".toList ++ (Nat.toDigits 10 k ++ ("&q=".toList ++ w)) := by
    intro k w
    rw [text_limit, List.append_assoc, List.append_assoc]
  rw [hassoc, hassoc] at h
  exact digits_inj (List.append_cancel_left h)

theorem separable : Separable text where
  nonempty s := by
    obtain ⟨t, ht⟩ := s.text_eq
    rw [ht]
    exact List.cons_ne_nil _ _
  inj := by
    intro s s' u u' h
    have hmark : s.mark = s'.mark := by
      obtain ⟨t, ht⟩ := s.text_eq
      obtain ⟨t', ht'⟩ := s'.text_eq
      rw [ht, ht'] at h
      exact (List.cons.inj (List.cons.inj h).2).1
    cases s with
    | limit n =>
        cases s' with
        | limit m => exact congrArg limit (limit_inj h)
        | _ => simp [mark] at hmark
    | _ => cases s' <;> first | rfl | simp [mark] at hmark
  apart := by
    intro s s' b u u' h hb hempty heq
    obtain ⟨t', ht'⟩ := s'.text_eq
    obtain ⟨x, t, rfl⟩ := List.exists_cons_of_ne_nil hempty
    rw [ht', List.cons_append, List.cons_append, List.cons.injEq] at heq
    have hq := suffix_cases h hb (t := t) (by rw [heq.1])
    have hsecond : t = "q=".toList := (List.cons.inj hq).2
    rw [hsecond] at heq
    exact s'.mark_ne_q (List.cons.inj heq.2).1.symm

/-- The text holds the separator. -/
def In (s : Separator) (x : List Char) : Prop := ∃ a b, x = a ++ (s.text ++ b)

theorem In.intro {s : Separator} (a b : List Char) : In s (a ++ (s.text ++ b)) := ⟨a, b, rfl⟩

theorem In.append_left {s : Separator} {x : List Char} (h : In s x) (y : List Char) :
    In s (y ++ x) := by
  obtain ⟨a, b, rfl⟩ := h
  exact ⟨y ++ a, b, by rw [List.append_assoc]⟩

/-- The text holds `&kind=map&limit=n&q=`. -/
def MapIn (n : ℕ) (x : List Char) : Prop :=
  ∃ a b, x = a ++ (kind.text ++ ((limit n).text ++ b))

/-- The text holds a cursor, and a limit somewhere behind it. -/
def ListIn (n : ℕ) (x : List Char) : Prop :=
  ∃ a k b, x = a ++ (cursor.text ++ (k ++ ((limit n).text ++ b)))

/-- Two readings of a text at different separators. -/
theorem cases_of_ne {s s' : Separator} (hne : s ≠ s') {x x' u u' : List Char}
    (h : x ++ (s.text ++ u) = x' ++ (s'.text ++ u')) :
    (∃ y, x' = x ++ (s.text ++ y) ∧ u = y ++ (s'.text ++ u')) ∨
      ∃ y, x = x' ++ (s'.text ++ y) ∧ u' = y ++ (s.text ++ u) := by
  rcases separable.cases h with ⟨-, hsame, -⟩ | hinside
  · exact absurd hsame hne
  · exact hinside

theorem ne_of_separator (s : Separator) (x u : List Char) : [] ≠ x ++ (s.text ++ u) := by
  intro h
  have hempty : s.text = [] := (List.append_eq_nil_iff.1 (List.append_eq_nil_iff.1 h.symm).2).1
  exact separable.nonempty s hempty

/-- A text that starts with a separator is read at that one, or at one behind it. -/
theorem start_cases {s s' : Separator} {x' u u' : List Char}
    (h : s.text ++ u = x' ++ (s'.text ++ u')) :
    (x' = [] ∧ s = s' ∧ u = u') ∨ ∃ y, x' = s.text ++ y ∧ u = y ++ (s'.text ++ u') := by
  have hstart : [] ++ (s.text ++ u) = x' ++ (s'.text ++ u') := h
  rcases separable.cases hstart with ⟨hx, hsame, hu⟩ | hbehind | ⟨y, hx, -⟩
  · exact .inl ⟨hx.symm, hsame, hu⟩
  · exact .inr hbehind
  · exact absurd hx (ne_of_separator s' x' y)

theorem behind {s s' : Separator} (hne : s ≠ s') {x' u u' : List Char}
    (h : s.text ++ u = x' ++ (s'.text ++ u')) :
    ∃ y, x' = s.text ++ y ∧ u = y ++ (s'.text ++ u') := by
  rcases start_cases h with ⟨-, hsame, -⟩ | hbehind
  · exact absurd hsame hne
  · exact hbehind

end Separator

/-! ## Readings -/

section Readings

open Separator

/-- The text behind `category=` of a list request: its category, cursor, limit, query and region. -/
def listTail (c k : List Char) (n : ℕ) (q r : List Char) : List Char :=
  c ++ (cursor.text ++ (k ++ ((limit n).text ++ (q ++ (region.text ++ r)))))

/-- The text behind `category=` of a map request. -/
def mapTail (c : List Char) (n : ℕ) (q r : List Char) : List Char :=
  c ++ (kind.text ++ ((limit n).text ++ (q ++ (region.text ++ r))))

/-- The text of a list request can be read in no other way. -/
structure ListClear (c k q r : List Char) : Prop where
  noCursor : ¬In cursor c ∧ ¬In cursor k
  noLimit : ∀ n, 1 ≤ n → n ≤ 50 → ¬In (limit n) k ∧ ¬In (limit n) q
  noRegion : ¬In region q ∧ ¬In region r
  noMap : ∀ n, 1 ≤ n → n ≤ mapLimitMax → ¬MapIn n c ∧ ¬MapIn n k ∧ ¬MapIn n q
  noKind : ∀ a, k ≠ a ++ kind.text

/-- The text of a map request can be read in no other way. -/
structure MapClear (c : List Char) (n : ℕ) (q r : List Char) : Prop where
  noRegion : ¬In region q ∧ ¬In region r
  noMap : ∀ m, 1 ≤ m → m ≤ mapLimitMax → ¬MapIn m c ∧ ¬MapIn m q
  noList : ∀ m, 1 ≤ m → m ≤ 50 → ¬ListIn m c ∧ ¬ListIn m q
  noCursor : In cursor c → 50 < n ∧ ∀ m, 1 ≤ m → m ≤ 50 → ¬In (limit m) q

variable {c c' k k' q q' r r' : List Char} {n n' : ℕ}

/-- Query and region are read in one way. -/
theorem region_inj (hclear : ¬In region q ∧ ¬In region r)
    (h : q ++ (region.text ++ r) = q' ++ (region.text ++ r')) : q = q' ∧ r = r' := by
  rcases separable.cases h with ⟨hq, -, hr⟩ | ⟨y, -, hr⟩ | ⟨y, hq, -⟩
  · exact ⟨hq, hr⟩
  · exact absurd ⟨y, r', hr⟩ hclear.2
  · exact absurd ⟨q', y, hq⟩ hclear.1

/-- A reading at another separator has it within the query, with the region behind it. -/
theorem inside_query (hclear : ¬In region r) {s : Separator} (hs : s ≠ region) {z w : List Char}
    (hw : In region w) (h : q ++ (region.text ++ r) = z ++ (s.text ++ w)) :
    ∃ y, q = z ++ (s.text ++ y) ∧ w = y ++ (region.text ++ r) := by
  rcases cases_of_ne hs.symm h with ⟨y, -, hr⟩ | hinside
  · -- the region of the other reading would lie within the region
    obtain ⟨a, b, rfl⟩ := hw
    refine absurd ⟨y ++ (s.text ++ a), b, ?_⟩ hclear
    rw [hr, List.append_assoc, List.append_assoc]
  · exact hinside

/-- What is behind a limit is read in one way. -/
theorem limit_tail_inj (hclear : ¬In region q ∧ ¬In region r)
    (hlimit : ∀ n, 1 ≤ n → n ≤ 50 → ¬In (limit n) k ∧ ¬In (limit n) q)
    (hn : 1 ≤ n') (hn' : n' ≤ 50)
    (h : k ++ ((limit n).text ++ (q ++ (region.text ++ r))) =
      k' ++ ((limit n').text ++ (q' ++ (region.text ++ r')))) :
    k = k' ∧ n = n' ∧ q = q' ∧ r = r' := by
  rcases separable.cases h with ⟨hk, hnn, htail⟩ | ⟨y, -, htail⟩ | ⟨y, hk, -⟩
  · cases hnn
    obtain ⟨hq, hr⟩ := region_inj hclear htail
    exact ⟨hk, rfl, hq, hr⟩
  · obtain ⟨z, hq, -⟩ := inside_query hclear.2 (s := limit n') (by simp) (In.intro q' r') htail
    exact absurd ⟨y, z, hq⟩ (hlimit n' hn hn').2
  · exact absurd ⟨k', y, hk⟩ (hlimit n' hn hn').1

/-- A list request whose text is read in one way only. -/
theorem listTail_inj (hclear : ListClear c k q r) (hn : 1 ≤ n') (hn' : n' ≤ 50)
    (h : listTail c k n q r = listTail c' k' n' q' r') :
    c = c' ∧ k = k' ∧ n = n' ∧ q = q' ∧ r = r' := by
  rcases separable.cases h with ⟨hc, -, htail⟩ | ⟨y, -, htail⟩ | ⟨y, hc, -⟩
  · exact ⟨hc, limit_tail_inj hclear.noRegion hclear.noLimit hn hn' htail⟩
  · -- the other cursor lies behind the first
    have hcursor : limit n ≠ cursor := (by simp)
    rcases cases_of_ne hcursor htail with ⟨z, -, htail⟩ | ⟨z, hk, -⟩
    · have hregion : In region (k' ++ ((limit n').text ++ (q' ++ (region.text ++ r')))) :=
        ((In.intro q' r').append_left _).append_left k'
      obtain ⟨w, hq, hw⟩ := inside_query hclear.noRegion.2 (s := cursor) (by simp) hregion htail
      have hlimit : limit n' ≠ region := (by simp)
      rcases cases_of_ne hlimit hw with ⟨v, hv, -⟩ | ⟨v, -, hr⟩
      · -- and its limit within the query
        refine absurd ?_ (hclear.noLimit n' hn hn').2
        rw [hq, hv]
        exact ((In.intro k' v).append_left cursor.text).append_left z
      · refine absurd ?_ hclear.noRegion.2
        rw [hr]
        exact ((In.intro q' r').append_left (limit n').text).append_left v
    · exact absurd ⟨y, z, hk⟩ hclear.noCursor.2
  · exact absurd ⟨c', y, hc⟩ hclear.noCursor.1

/-- The text of a list request is not that of a map request. -/
theorem listTail_ne_mapTail (hclear : ListClear c k q r) (hn₁ : 1 ≤ n') (hn₂ : n' ≤ mapLimitMax) :
    listTail c k n q r ≠ mapTail c' n' q' r' := by
  intro h
  have hregion : In region (q' ++ (region.text ++ r')) := In.intro q' r'
  rcases cases_of_ne (by simp) h with ⟨y, -, htail⟩ | ⟨y, hc, htail⟩
  · -- the kind lies behind the cursor
    rcases cases_of_ne (by simp) htail with ⟨z, -, htail⟩ | ⟨z, hk, htail⟩
    · obtain ⟨w, hq, hw⟩ :=
        inside_query hclear.noRegion.2 (by simp) (hregion.append_left (limit n').text) htail
      obtain ⟨v, rfl, -⟩ := behind (by simp) hw
      exact (hclear.noMap n' hn₁ hn₂).2.2 ⟨z, v, hq⟩
    · rcases start_cases htail with ⟨rfl, -, -⟩ | ⟨v, rfl, -⟩
      · rw [List.append_nil] at hk
        exact hclear.noKind y hk
      · exact (hclear.noMap n' hn₁ hn₂).2.1 ⟨y, v, hk⟩
  · obtain ⟨v, rfl, -⟩ := behind (by simp) htail
    exact (hclear.noMap n' hn₁ hn₂).1 ⟨c', v, hc⟩

/-- A map request whose text is read in one way among the map requests. -/
theorem mapTail_inj (hclear : MapClear c n q r) (hn₁ : 1 ≤ n') (hn₂ : n' ≤ mapLimitMax)
    (h : mapTail c n q r = mapTail c' n' q' r') : c = c' ∧ n = n' ∧ q = q' ∧ r = r' := by
  have hregion : In region (q' ++ (region.text ++ r')) := In.intro q' r'
  rcases separable.cases h with ⟨hc, -, htail⟩ | ⟨y, -, htail⟩ | ⟨y, hc, htail⟩
  · obtain rfl := limit_inj htail
    obtain ⟨hq, hr⟩ := region_inj hclear.noRegion (List.append_cancel_left htail)
    exact ⟨hc, rfl, hq, hr⟩
  · -- the other kind lies behind the limit
    obtain ⟨z, -, htail⟩ := behind (by simp) htail
    obtain ⟨w, hq, hw⟩ :=
      inside_query hclear.noRegion.2 (by simp) (hregion.append_left (limit n').text) htail
    obtain ⟨v, rfl, -⟩ := behind (by simp) hw
    exact absurd ⟨z, v, hq⟩ (hclear.noMap n' hn₁ hn₂).2
  · obtain ⟨v, rfl, -⟩ := behind (by simp) htail
    exact absurd ⟨c', v, hc⟩ (hclear.noMap n' hn₁ hn₂).1

/-- The text of a map request is not that of a list request. -/
theorem mapTail_ne_listTail (hclear : MapClear c n q r) (hn₁ : 1 ≤ n') (hn₂ : n' ≤ 50) :
    mapTail c n q r ≠ listTail c' k' n' q' r' := by
  intro h
  have hregion : In region (q' ++ (region.text ++ r')) := In.intro q' r'
  rcases cases_of_ne (by simp) h with ⟨y, -, htail⟩ | ⟨y, hc, htail⟩
  · -- the cursor lies in the query, and its limit behind it
    obtain ⟨z, -, htail⟩ := behind (by simp) htail
    obtain ⟨w, hq, hw⟩ := inside_query hclear.noRegion.2 (by simp)
      ((hregion.append_left (limit n').text).append_left k') htail
    rcases cases_of_ne (by simp) hw with ⟨v, rfl, -⟩ | ⟨v, -, hr⟩
    · exact (hclear.noList n' hn₁ hn₂).2 ⟨z, k', v, hq⟩
    · refine hclear.noRegion.2 ?_
      rw [hr]
      exact (hregion.append_left (limit n').text).append_left v
  · -- the cursor lies in the category
    have hcursor : In cursor c := ⟨c', y, hc⟩
    obtain ⟨hbig, hquery⟩ := hclear.noCursor hcursor
    rcases cases_of_ne (by simp) htail with ⟨z, rfl, -⟩ | ⟨z, -, htail⟩
    · exact (hclear.noList n' hn₁ hn₂).1 ⟨c', k', z, hc⟩
    · rcases start_cases htail with ⟨-, hsame, -⟩ | ⟨v, -, htail⟩
      · cases hsame
        omega
      · obtain ⟨w, hq, -⟩ := inside_query hclear.noRegion.2 (by simp) hregion htail
        exact hquery n' hn₁ hn₂ ⟨v, w, hq⟩

/-! ## Texts with one reading -/

theorem ne_longer_front (a : List Char) (s : Separator) (b : List Char) :
    a ++ (s.text ++ b) ≠ a := by
  intro h
  have hlength := congrArg List.length h
  have hpos := List.length_pos_of_ne_nil (separable.nonempty s)
  rw [List.length_append, List.length_append] at hlength
  omega

theorem ne_longer_back (a : List Char) (s : Separator) (b : List Char) :
    a ++ (s.text ++ b) ≠ b := by
  intro h
  have hlength := congrArg List.length h
  have hpos := List.length_pos_of_ne_nil (separable.nonempty s)
  rw [List.length_append, List.length_append] at hlength
  omega

/-- A list request is clear exactly when its text is read in one way. -/
theorem listClear_iff (hn₁ : 1 ≤ n) (hn₂ : n ≤ 50) :
    ListClear c k q r ↔
      (∀ c' k' n' q' r', 1 ≤ n' → n' ≤ 50 → listTail c k n q r = listTail c' k' n' q' r' →
        c = c' ∧ k = k' ∧ n = n' ∧ q = q' ∧ r = r') ∧
      ∀ c' n' q' r', 1 ≤ n' → n' ≤ mapLimitMax → listTail c k n q r ≠ mapTail c' n' q' r' := by
  constructor
  · intro hclear
    exact ⟨fun _ _ _ _ _ hn hn' h => listTail_inj hclear hn hn' h,
      fun _ _ _ _ hn hn' => listTail_ne_mapTail hclear hn hn'⟩
  · rintro ⟨hlist, hmap⟩
    refine ⟨⟨?_, ?_⟩, fun m hm₁ hm₂ => ⟨?_, ?_⟩, ⟨?_, ?_⟩, fun m hm₁ hm₂ => ⟨?_, ?_, ?_⟩, ?_⟩
    -- a separator that the text holds starts another reading there
    · rintro ⟨a, b, rfl⟩
      have h := hlist a (b ++ (cursor.text ++ k)) n q r hn₁ hn₂ (by simp [listTail])
      exact ne_longer_front _ _ _ h.1
    · rintro ⟨a, b, rfl⟩
      have h := hlist (c ++ (cursor.text ++ a)) b n q r hn₁ hn₂ (by simp [listTail])
      exact ne_longer_back _ _ _ h.2.1
    · rintro ⟨a, b, rfl⟩
      have h := hlist c a m (b ++ ((limit n).text ++ q)) r hm₁ hm₂ (by simp [listTail])
      exact ne_longer_front _ _ _ h.2.1
    · rintro ⟨a, b, rfl⟩
      have h := hlist c (k ++ ((limit n).text ++ a)) m b r hm₁ hm₂ (by simp [listTail])
      exact ne_longer_back _ _ _ h.2.2.2.1
    · rintro ⟨a, b, rfl⟩
      have h := hlist c k n a (b ++ (region.text ++ r)) hn₁ hn₂ (by simp [listTail])
      exact ne_longer_front _ _ _ h.2.2.2.1
    · rintro ⟨a, b, rfl⟩
      have h := hlist c k n (q ++ (region.text ++ a)) b hn₁ hn₂ (by simp [listTail])
      exact ne_longer_back _ _ _ h.2.2.2.2
    · rintro ⟨a, b, rfl⟩
      exact hmap a m (b ++ (cursor.text ++ (k ++ ((limit n).text ++ q)))) r hm₁ hm₂
        (by simp [listTail, mapTail])
    · rintro ⟨a, b, rfl⟩
      exact hmap (c ++ (cursor.text ++ a)) m (b ++ ((limit n).text ++ q)) r hm₁ hm₂
        (by simp [listTail, mapTail])
    · rintro ⟨a, b, rfl⟩
      exact hmap (c ++ (cursor.text ++ (k ++ ((limit n).text ++ a)))) m b r hm₁ hm₂
        (by simp [listTail, mapTail])
    · rintro a rfl
      have hmax : n ≤ mapLimitMax := hn₂.trans (by decide)
      exact hmap (c ++ (cursor.text ++ a)) n q r hn₁ hmax (by simp [listTail, mapTail])

/-- A map request is clear exactly when its text is read in one way. -/
theorem mapClear_iff (hn₁ : 1 ≤ n) (hn₂ : n ≤ mapLimitMax) :
    MapClear c n q r ↔
      (∀ c' n' q' r', 1 ≤ n' → n' ≤ mapLimitMax → mapTail c n q r = mapTail c' n' q' r' →
        c = c' ∧ n = n' ∧ q = q' ∧ r = r') ∧
      ∀ c' k' n' q' r', 1 ≤ n' → n' ≤ 50 → mapTail c n q r ≠ listTail c' k' n' q' r' := by
  constructor
  · intro hclear
    exact ⟨fun _ _ _ _ hn hn' h => mapTail_inj hclear hn hn' h,
      fun _ _ _ _ _ hn hn' => mapTail_ne_listTail hclear hn hn'⟩
  · rintro ⟨hmap, hlist⟩
    refine ⟨⟨?_, ?_⟩, fun m hm₁ hm₂ => ⟨?_, ?_⟩, fun m hm₁ hm₂ => ⟨?_, ?_⟩, ?_⟩
    · rintro ⟨a, b, rfl⟩
      have h := hmap c n a (b ++ (region.text ++ r)) hn₁ hn₂ (by simp [mapTail])
      exact ne_longer_front _ _ _ h.2.2.1
    · rintro ⟨a, b, rfl⟩
      have h := hmap c n (q ++ (region.text ++ a)) b hn₁ hn₂ (by simp [mapTail])
      exact ne_longer_back _ _ _ h.2.2.2
    · rintro ⟨a, b, rfl⟩
      have h := hmap a m (b ++ (kind.text ++ ((limit n).text ++ q))) r hm₁ hm₂ (by simp [mapTail])
      exact ne_longer_front _ _ _ h.1
    · rintro ⟨a, b, rfl⟩
      have h := hmap (c ++ (kind.text ++ ((limit n).text ++ a))) m b r hm₁ hm₂ (by simp [mapTail])
      exact ne_longer_front _ _ _ h.1.symm
    · rintro ⟨a, k, b, rfl⟩
      exact hlist a k m (b ++ (kind.text ++ ((limit n).text ++ q))) r hm₁ hm₂
        (by simp [listTail, mapTail])
    · rintro ⟨a, k, b, rfl⟩
      exact hlist (c ++ (kind.text ++ ((limit n).text ++ a))) k m b r hm₁ hm₂
        (by simp [listTail, mapTail])
    · rintro ⟨a, b, rfl⟩
      refine ⟨?_, ?_⟩
      · by_contra hsmall
        exact hlist a (b ++ kind.text) n q r hn₁ (by omega) (by simp [listTail, mapTail])
      · rintro m hm₁ hm₂ ⟨a', b', rfl⟩
        exact hlist a (b ++ (kind.text ++ ((limit n).text ++ a'))) m b' r hm₁ hm₂
          (by simp [listTail, mapTail])

end Readings

end Vivac
