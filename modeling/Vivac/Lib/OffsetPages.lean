import Mathlib.Data.List.Sort
import Mathlib.Data.List.Nodup
import Mathlib.Data.Nat.Notation

/-!
# Pages by offset

A query sorts its rows by an order in which rows may tie, and lists tied rows as it likes. The
windows of `n` rows at the offsets `0`, `n`, `2 n`, .. come from one query each. Together they hold
each row once, whatever the queries choose, exactly when no class of tied rows has a page boundary
inside it (`windows_perm_iff`).

* `RowOrder`: what `ORDER BY` compares by, with the orders of columns (`on`, `nullsLast`,
`reverse`);
* `Arrangement`: what a query makes of its rows;
* `holds_getElem_iff`: the rows with a property that goes down are a prefix of every arrangement.
-/

set_option autoImplicit false

namespace Vivac.Lib

variable {α β : Type}

/-- An order of rows in which any two compare, and may tie. -/
structure RowOrder (α : Type) where
  le : α → α → Bool
  total : ∀ a b, le a b = true ∨ le b a = true
  trans : ∀ a b c, le a b = true → le b c = true → le a c = true

namespace RowOrder

theorem refl (r : RowOrder α) (a : α) : r.le a a = true := (r.total a a).elim id id

theorem total_decide [LinearOrder β] (a b : β) :
    decide (a ≤ b) = true ∨ decide (b ≤ a) = true := by simpa using le_total a b

theorem trans_decide [LinearOrder β] (a b c : β) (hab : decide (a ≤ b) = true)
    (hbc : decide (b ≤ c) = true) : decide (a ≤ c) = true :=
  decide_eq_true ((of_decide_eq_true hab).trans (of_decide_eq_true hbc))

/-- The values of a linear order. -/
def ofLinear (β : Type) [LinearOrder β] : RowOrder β :=
    ⟨fun a b => a ≤ b, total_decide, trans_decide⟩

/-- Rows by a column. -/
def on (f : α → β) (r : RowOrder β) : RowOrder α where
  le a b := r.le (f a) (f b)
  total a b := r.total (f a) (f b)
  trans a b c := r.trans (f a) (f b) (f c)

/-- `DESC`: the other way round. -/
def reverse (r : RowOrder α) : RowOrder α where
  le a b := r.le b a
  total a b := r.total b a
  trans a b c hab hbc := r.trans c b a hbc hab

/-- Nulls come after every value, and tie. -/
def leNullsLast (r : RowOrder β) : Option β → Option β → Bool
  | _, none => true
  | none, some _ => false
  | some a, some b => r.le a b

theorem total_leNullsLast (r : RowOrder β) (a b : Option β) :
    r.leNullsLast a b = true ∨ r.leNullsLast b a = true := by
  cases a with
  | none => exact .inr (by cases b <;> rfl)
  | some a =>
      cases b with
      | none => exact .inl rfl
      | some b => exact r.total a b

theorem trans_leNullsLast (r : RowOrder β) (a b c : Option β) (hab : r.leNullsLast a b = true)
    (hbc : r.leNullsLast b c = true) : r.leNullsLast a c = true := by
  cases c with
  | none => cases a <;> rfl
  | some c =>
      cases b with
      | none => cases hbc
      | some b =>
          cases a with
          | none => cases hab
          | some a => exact r.trans a b c hab hbc

def nullsLast (r : RowOrder β) : RowOrder (Option β) :=
  ⟨r.leNullsLast, r.total_leNullsLast, r.trans_leNullsLast⟩

/-- Rows by one order, and by a second one where they tie. -/
def leThen (r r' : RowOrder α) (a b : α) : Bool := r.le a b && (!r.le b a || r'.le a b)

theorem total_leThen (r r' : RowOrder α) (a b : α) :
    r.leThen r' a b = true ∨ r.leThen r' b a = true := by
  simp only [leThen, Bool.and_eq_true, Bool.or_eq_true, Bool.not_eq_true']
  cases hab : r.le a b with
  | false => exact .inr ⟨(r.total a b).resolve_left (by simp [hab]), .inl rfl⟩
  | true =>
      cases hba : r.le b a with
      | false => exact .inl ⟨rfl, .inl rfl⟩
      | true => exact (r'.total a b).imp (fun h => ⟨rfl, .inr h⟩) fun h => ⟨rfl, .inr h⟩

theorem trans_leThen (r r' : RowOrder α) (a b c : α) (hab : r.leThen r' a b = true)
    (hbc : r.leThen r' b c = true) : r.leThen r' a c = true := by
  simp only [leThen, Bool.and_eq_true, Bool.or_eq_true, Bool.not_eq_true'] at *
  obtain ⟨hab, hab'⟩ := hab
  obtain ⟨hbc, hbc'⟩ := hbc
  refine ⟨r.trans a b c hab hbc, ?_⟩
  cases hca : r.le c a with
  | false => exact .inl rfl
  | true =>
      -- all three tie in the first order
      have hba := r.trans b c a hbc hca
      have hcb := r.trans c a b hca hab
      rw [hba] at hab'
      rw [hcb] at hbc'
      have hab'' : r'.le a b = true := hab'.resolve_left Bool.noConfusion
      have hbc'' : r'.le b c = true := hbc'.resolve_left Bool.noConfusion
      exact .inr (r'.trans a b c hab'' hbc'')

def thenBy (r r' : RowOrder α) : RowOrder α := ⟨r.leThen r', r.total_leThen r', r.trans_leThen r'⟩

/-! ## Arrangements -/

/-- The rows sorted, in one of the orders in which they can be. -/
structure Arranges (r : RowOrder α) (rows l : List α) : Prop where
  perm : l.Perm rows
  sorted : l.Pairwise fun a b => r.le a b = true

theorem Arranges.filter {r : RowOrder α} {rows l : List α} (h : r.Arranges rows l) (p : α → Bool) :
    r.Arranges (rows.filter p) (l.filter p) := ⟨h.perm.filter p, h.sorted.filter p⟩

/-- Rows that do not tie can be arranged in one way only. -/
theorem Arranges.unique {r : RowOrder α} {rows l l' : List α} (h : r.Arranges rows l)
    (h' : r.Arranges rows l')
    (hties : ∀ a ∈ rows, ∀ b ∈ rows, r.le a b = true → r.le b a = true → a = b) : l = l' :=
  List.Perm.eq_of_pairwise
    (fun a b ha hb => hties a (h.perm.mem_iff.1 ha) b (h'.perm.mem_iff.1 hb)) h.sorted h'.sorted
    (h.perm.trans h'.perm.symm)

/-- Rows that tie in the first order are arranged by the second one. -/
theorem Arranges.of_thenBy {r r' : RowOrder α} {rows l : List α}
    (h : (r.thenBy r').Arranges rows l)
    (hties : ∀ a ∈ rows, ∀ b ∈ rows, r.le a b = true) : r'.Arranges rows l := by
  refine ⟨h.perm, h.sorted.imp_of_mem fun {a b} ha hb hab => ?_⟩
  have hba := hties b (h.perm.mem_iff.1 hb) a (h.perm.mem_iff.1 ha)
  have hthen : (r.le a b && (!r.le b a || r'.le a b)) = true := hab
  rw [hba] at hthen
  exact ((Bool.and_eq_true ..).mp hthen).2

/-- What one query makes of its rows. -/
structure Arrangement (r : RowOrder α) where
  run : List α → List α
  arranges : ∀ rows, r.Arranges rows (run rows)

theorem arranges_insertionSort (r : RowOrder α) (rows : List α) :
    r.Arranges rows (rows.insertionSort fun a b => r.le a b = true) :=
  haveI : Std.Total fun a b : α => r.le a b = true := ⟨r.total⟩
  haveI : IsTrans α fun a b => r.le a b = true := ⟨r.trans⟩
  ⟨List.perm_insertionSort _ rows, List.pairwise_insertionSort _ rows⟩

/-- A query that keeps tied rows in the order of the table. -/
def stable (r : RowOrder α) : r.Arrangement := ⟨_, r.arranges_insertionSort⟩

section Choosing

variable (r : RowOrder α) {rows l : List α}

open Classical in
/-- The list `l` for the rows `rows`, and other rows sorted. -/
noncomputable def choose (rows l rows' : List α) : List α :=
  if rows' = rows then l else r.stable.run rows'

variable {r} in
theorem arranges_choose (h : r.Arranges rows l) (rows' : List α) :
    r.Arranges rows' (r.choose rows l rows') := by
  unfold choose
  split
  · rename_i heq
    rwa [heq]
  · exact r.stable.arranges rows'

/-- A query that returns the list `l` for the rows. -/
noncomputable def choosing (h : r.Arranges rows l) : r.Arrangement :=
  ⟨r.choose rows l, arranges_choose h⟩

theorem run_choosing (h : r.Arranges rows l) : (r.choosing h).run rows = l := if_pos rfl

end Choosing

/-- The number of rows strictly before `a`. -/
def below (r : RowOrder α) (rows : List α) (a : α) : ℕ := rows.countP fun b => !r.le a b

/-- The number of rows up to `a`, those tied with it among them. -/
def upTo (r : RowOrder α) (rows : List α) (a : α) : ℕ := rows.countP fun b => r.le b a

/-- A page boundary is between two rows tied with `a`. -/
def Straddles (r : RowOrder α) (rows : List α) (n : ℕ) (a : α) : Prop :=
  ∃ k, r.below rows a < k * n ∧ k * n < r.upTo rows a

/-- In a sorted list the elements with a property that goes down come first. -/
theorem holds_getElem_iff {r : RowOrder α} {p : α → Bool}
    (hdown : ∀ a b, r.le a b = true → p b = true → p a = true) {l : List α}
    (hl : l.Pairwise fun a b => r.le a b = true) {i : ℕ} (hi : i < l.length) :
    p l[i] = true ↔ i < l.countP p := by
  induction l generalizing i with
  | nil => cases hi
  | cons a l ih =>
      obtain ⟨ha, hl⟩ := List.pairwise_cons.1 hl
      cases hp : p a with
      | true =>
          rw [List.countP_cons_of_pos hp]
          cases i with
          | zero => simp [hp]
          | succ i =>
              rw [List.getElem_cons_succ, ih hl]
              omega
      | false =>
          -- nothing after `a` has the property either
          have hnone : ∀ b ∈ a :: l, ¬p b = true := by
            intro b hb hpb
            rcases List.mem_cons.1 hb with rfl | hb
            · rw [hp] at hpb
              cases hpb
            · have hpa := hdown a b (ha b hb) hpb
              rw [hp] at hpa
              cases hpa
          rw [List.countP_eq_zero.2 hnone]
          constructor
          · intro h
            exact absurd h (hnone _ (List.getElem_mem hi))
          · intro h
            omega

section Positions

variable {r : RowOrder α} {rows l : List α}

theorem below_arranged (h : r.Arranges rows l) (a : α) : r.below l a = r.below rows a :=
  h.perm.countP_eq _

theorem upTo_arranged (h : r.Arranges rows l) (a : α) : r.upTo l a = r.upTo rows a :=
  h.perm.countP_eq _

/-- Position `i` holds a row up to `a`. -/
theorem le_getElem_iff (h : r.Arranges rows l) (a : α) {i : ℕ} (hi : i < l.length) :
    r.le l[i] a = true ↔ i < r.upTo rows a := by
  rw [← upTo_arranged h]
  exact holds_getElem_iff (fun x y hxy hy => r.trans x y a hxy hy) h.sorted hi

/-- Position `i` holds a row that is not strictly before `a`. -/
theorem getElem_le_iff (h : r.Arranges rows l) (a : α) {i : ℕ} (hi : i < l.length) :
    r.le a l[i] = true ↔ r.below rows a ≤ i := by
  have hdown : ∀ x y, r.le x y = true → (!r.le a y) = true → (!r.le a x) = true := by
    intro x y hxy hy
    rw [Bool.not_eq_true'] at hy ⊢
    by_contra hx
    rw [Bool.not_eq_false] at hx
    rw [r.trans a x y hx hxy] at hy
    cases hy
  have hbefore := holds_getElem_iff hdown h.sorted hi
  rw [← below_arranged h]
  rw [Bool.not_eq_true'] at hbefore
  constructor
  · intro ha
    by_contra hlt
    rw [hbefore.2 (by unfold below at hlt; omega)] at ha
    cases ha
  · intro hle
    by_contra ha
    rw [Bool.not_eq_true] at ha
    have hlt := hbefore.1 ha
    unfold below at hle
    omega

end Positions

end RowOrder

/-! ## Windows -/

/-- `OFFSET k * n LIMIT n`. -/
def window (n k : ℕ) (l : List α) : List α := (l.drop (k * n)).take n

/-- The first `count` windows, the window `k` of the list `lists k`. -/
def windows (n : ℕ) (lists : ℕ → List α) (count : ℕ) : List α :=
  (List.range count).flatMap fun k => window n k (lists k)

theorem windows_succ (n : ℕ) (lists : ℕ → List α) (count : ℕ) :
    windows n lists (count + 1) = windows n lists count ++ window n count (lists count) := by
  simp [windows, List.range_succ]

theorem take_append_window (n k : ℕ) (l : List α) :
    l.take (k * n) ++ window n k l = l.take ((k + 1) * n) := by
  rw [window, Nat.succ_mul, List.take_add]

theorem mem_window_iff {n k : ℕ} {l : List α} {a : α} :
    a ∈ window n k l ↔ ∃ i, ∃ h : i < l.length, k * n ≤ i ∧ i < (k + 1) * n ∧ l[i] = a := by
  rw [window, List.mem_take_iff_getElem]
  constructor
  · rintro ⟨j, hj, rfl⟩
    rw [List.length_drop] at hj
    refine ⟨k * n + j, by omega, by omega, ?_, (List.getElem_drop ..).symm⟩
    rw [Nat.succ_mul]
    omega
  · rintro ⟨i, h, hlow, hhigh, rfl⟩
    rw [Nat.succ_mul] at hhigh
    refine ⟨i - k * n, by rw [List.length_drop]; omega, ?_⟩
    rw [List.getElem_drop]
    congr 1
    omega

section Windows

variable {r : RowOrder α} {rows : List α} {n : ℕ}

/-- Where no class of tied rows straddles a boundary, the rows before it are the same in every
arrangement. -/
theorem perm_take (hfree : ∀ a ∈ rows, ¬r.Straddles rows n a) (k : ℕ) {l : List α}
    (h : r.Arranges rows l) :
    (l.take (k * n)).Perm (rows.filter fun a => r.upTo rows a ≤ k * n) := by
  have hsplit : l.filter (fun a => r.upTo rows a ≤ k * n) = l.take (k * n) := by
    conv_lhs => rw [← List.take_append_drop (k * n) l, List.filter_append]
    have hbefore : (l.take (k * n)).filter (fun a => r.upTo rows a ≤ k * n) = l.take (k * n) := by
      rw [List.filter_eq_self]
      intro a ha
      obtain ⟨i, hi, rfl⟩ := List.mem_take_iff_getElem.1 ha
      have hlow : r.below rows l[i] ≤ i := (RowOrder.getElem_le_iff h _ (by omega)).1 (r.refl _)
      have hmem : l[i] ∈ rows := h.perm.mem_iff.1 (List.getElem_mem _)
      by_contra hover
      rw [decide_eq_true_eq] at hover
      exact hfree _ hmem ⟨k, by omega, by omega⟩
    have hafter : (l.drop (k * n)).filter (fun a => r.upTo rows a ≤ k * n) = [] := by
      rw [List.filter_eq_nil_iff]
      intro a ha
      obtain ⟨j, hj, rfl⟩ := List.mem_drop_iff_getElem.1 ha
      have hhigh : k * n + j < r.upTo rows l[k * n + j] :=
        (RowOrder.le_getElem_iff h _ (by omega)).1 (r.refl _)
      rw [decide_eq_true_eq]
      omega
    rw [hbefore, hafter, List.append_nil]
  rw [← hsplit]
  exact h.perm.filter _

/-- Then the windows before a boundary hold the rows before it. -/
theorem windows_perm_take (hfree : ∀ a ∈ rows, ¬r.Straddles rows n a) {lists : ℕ → List α}
    (h : ∀ k, r.Arranges rows (lists k)) (count : ℕ) :
    (windows n lists count).Perm (rows.filter fun a => r.upTo rows a ≤ count * n) := by
  induction count with
  | zero =>
      have hnone := perm_take hfree 0 (h 0)
      rw [Nat.zero_mul, List.take_zero] at hnone
      rw [Nat.zero_mul]
      exact hnone
  | succ count ih =>
      rw [windows_succ]
      calc windows n lists count ++ window n count (lists count)
          |>.Perm ((lists count).take (count * n) ++ window n count (lists count)) :=
            (ih.trans (perm_take hfree count (h count)).symm).append_right _
        _ = (lists count).take ((count + 1) * n) := take_append_window ..
        _ |>.Perm _ := perm_take hfree (count + 1) (h count)

/-- The list with the rows on both sides of position `m` exchanged. -/
def exchanged (l : List α) (m : ℕ) (hm : m < l.length) : List α :=
  l.take (m - 1) ++ l[m] :: l[m - 1] :: l.drop (m + 1)

theorem split_at {l : List α} {m : ℕ} (hpos : 0 < m) (hm : m < l.length) :
    l = l.take (m - 1) ++ l[m - 1] :: l[m] :: l.drop (m + 1) := by
  have hsucc : m - 1 + 1 = m := by omega
  have hone : l.drop (m - 1) = l[m - 1] :: l.drop (m - 1 + 1) :=
      List.drop_eq_getElem_cons (by omega)
  have htwo : l.drop m = l[m] :: l.drop (m + 1) := List.drop_eq_getElem_cons hm
  rw [hsucc, htwo] at hone
  rw [← hone, List.take_append_drop]

/-- Tied neighbours can be listed the other way round. -/
theorem arranges_exchanged {l : List α} (h : r.Arranges rows l) {m : ℕ} (hpos : 0 < m)
    (hm : m < l.length) (htied : r.le l[m] l[m - 1] = true) :
    r.Arranges rows (exchanged l m hm) := by
  have hsorted := h.sorted
  have hperm := h.perm
  rw [split_at hpos hm] at hsorted hperm
  constructor
  · exact ((List.Perm.swap ..).append_left _).trans hperm
  · simp only [exchanged, List.pairwise_append, List.pairwise_cons, List.mem_cons] at hsorted ⊢
    grind

theorem getElem_exchanged {l : List α} {m : ℕ} (hpos : 0 < m) (hm : m < l.length) :
    ∃ h : m - 1 < (exchanged l m hm).length, (exchanged l m hm)[m - 1] = l[m] := by
  have hlen : (l.take (m - 1)).length = m - 1 := by
    rw [List.length_take]
    omega
  refine ⟨by simp [exchanged]; omega, ?_⟩
  simp [exchanged, hlen]

/-- Where a class of tied rows straddles a boundary, two queries may list its rows in different
orders, and the row after the boundary is in no window. -/
theorem exists_missing (hrows : rows.Nodup) (hn : 1 ≤ n) {a : α} (h : r.Straddles rows n a) :
    ∃ query : ℕ → r.Arrangement, ∃ y ∈ rows, ∀ count,
      y ∉ windows n (fun k => (query k).run rows) count := by
  obtain ⟨k, hbelow, hupTo⟩ := h
  have hsorted : r.Arranges rows (r.stable.run rows) := r.stable.arranges rows
  generalize hl : r.stable.run rows = l at hsorted
  have hpos : 0 < k * n := by omega
  have hm : k * n < l.length := by
    have hle : r.upTo rows a ≤ rows.length := List.countP_le_length
    rw [hsorted.perm.length_eq]
    omega
  -- the rows on both sides of the boundary are tied with `a`
  have htied : r.le l[k * n] l[k * n - 1] = true :=
    r.trans _ a _ ((RowOrder.le_getElem_iff hsorted a hm).2 hupTo)
      ((RowOrder.getElem_le_iff hsorted a (by omega)).2 (by omega))
  have hexchanged := arranges_exchanged hsorted hpos hm htied
  have hnodup : l.Nodup := hsorted.perm.nodup_iff.2 hrows
  have hnodup' : (exchanged l (k * n) hm).Nodup := hexchanged.perm.nodup_iff.2 hrows
  refine ⟨fun j => if j = k then r.choosing hexchanged else r.stable, l[k * n],
    hsorted.perm.mem_iff.1 (List.getElem_mem _), ?_⟩
  intro count hmem
  obtain ⟨j, -, hj⟩ := List.mem_flatMap.1 hmem
  obtain ⟨i, hi, hlow, hhigh, hat⟩ := mem_window_iff.1 hj
  by_cases hjk : j = k
  · subst hjk
    -- its own query lists the row one position before the window
    obtain ⟨hlt, hbefore⟩ := getElem_exchanged hpos hm
    have hrun : (r.choosing hexchanged).run rows = exchanged l (j * n) hm :=
        r.run_choosing hexchanged
    simp only [if_true, hrun] at hi hat
    have hsame : i = j * n - 1 := (hnodup'.getElem_inj_iff).1 (hat.trans hbefore.symm)
    omega
  · simp only [hjk, if_false, hl] at hi hat
    have hsame : i = k * n := (hnodup.getElem_inj_iff).1 hat
    subst hsame
    have hle : j ≤ k := Nat.le_of_mul_le_mul_right hlow hn
    have hlt : k < j + 1 := Nat.lt_of_mul_lt_mul_right hhigh
    omega

/-- The windows up to the number of rows hold each row once, whatever the queries choose, when and
only when no class of tied rows has a boundary inside it. -/
theorem windows_perm_iff (hrows : rows.Nodup) (hn : 1 ≤ n) {count : ℕ}
    (hcount : rows.length ≤ count * n) :
    (∀ query : ℕ → r.Arrangement, (windows n (fun k => (query k).run rows) count).Perm rows) ↔
      ∀ a ∈ rows, ¬r.Straddles rows n a := by
  constructor
  · intro hall a _ hstraddles
    obtain ⟨query, y, hy, hmissing⟩ := exists_missing hrows hn hstraddles
    exact hmissing count ((hall query).mem_iff.2 hy)
  · intro hfree query
    have hperm := windows_perm_take hfree (fun k => (query k).arranges rows) count
    have hall : rows.filter (fun a => r.upTo rows a ≤ count * n) = rows := by
      rw [List.filter_eq_self]
      intro a _
      have hle : r.upTo rows a ≤ rows.length := List.countP_le_length
      rw [decide_eq_true_eq]
      omega
    rwa [hall] at hperm

end Windows

end Vivac.Lib
