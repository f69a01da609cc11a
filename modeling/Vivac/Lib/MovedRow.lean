import Mathlib.Data.List.InsertIdx
import Vivac.Lib.Keyset

/-!
# A page of a sorted list in which one row moves

A row that changes its key leaves its place in a sorted list and goes to another one. The other rows
stay in order, so both lists are one list with the row put in somewhere.

* `sort_cons`: the place of a row is the number of keys before its own;
* `samePage_insertIdx_iff`: the first page stays as it is when the row stays at its place or stays
  behind the page, and it is not the row the cursor is made of, or its cursor is the same;
* `samePage_insertIdx_self_iff`: a row that leaves the list must have been behind the page, with
  others there.
-/

set_option autoImplicit false

namespace Vivac.Lib

/-! ## The place of a row -/

namespace Keyset

variable {ρ κ : Type} [LinearOrder κ] {key : ρ → κ}

/-- Rows with distinct keys have one order. -/
theorem sort_eq_of_perm {rows rows' : List ρ} (hperm : rows.Perm rows') (h : (rows.map key).Nodup) :
    sort key rows = sort key rows' := by
  have h' : (rows'.map key).Nodup := (hperm.map key).nodup_iff.1 h
  have hsorted : (sort key rows).Perm (sort key rows') :=
    (List.perm_insertionSort _ rows).trans (hperm.trans (List.perm_insertionSort _ rows').symm)
  have hasymm : ∀ a b, a ∈ sort key rows → b ∈ sort key rows' → key a < key b → key b < key a →
      a = b := fun a b _ _ hab hba => absurd hba (lt_asymm hab)
  exact List.Perm.eq_of_pairwise hasymm (pairwise_sort h) (pairwise_sort h') hsorted

/-- The number of rows with a key before `k`. -/
def rank (key : ρ → κ) (k : κ) (rows : List ρ) : ℕ := rows.countP fun r => key r < k

theorem rank_le_length (k : κ) (rows : List ρ) : rank key k rows ≤ rows.length :=
  List.countP_le_length

theorem orderedInsert_eq_insertIdx {x : ρ} {rows : List ρ}
    (hsorted : rows.Pairwise fun a b => key a < key b) (hx : ∀ r ∈ rows, key r ≠ key x) :
    rows.orderedInsert (fun a b => key a ≤ key b) x = rows.insertIdx (rank key (key x) rows) x := by
  induction rows with
  | nil => rfl
  | cons r rows ih =>
      obtain ⟨hfirst, hrest⟩ := List.pairwise_cons.1 hsorted
      by_cases hle : key x ≤ key r
      · -- no key is before the new one
        have hnone : rank key (key x) (r :: rows) = 0 := by
          refine List.countP_eq_zero.2 fun r' hr' hlt => ?_
          have hlt' : key r' < key x := of_decide_eq_true hlt
          rcases List.mem_cons.1 hr' with rfl | hr'
          · exact absurd hlt' (not_lt.2 hle)
          · exact absurd (hlt'.trans_le hle) (lt_asymm (hfirst r' hr'))
        rw [hnone, List.insertIdx_zero]
        exact List.orderedInsert_cons_of_le _ _ hle
      · have hlt : key r < key x := not_le.1 hle
        have hsucc : rank key (key x) (r :: rows) = rank key (key x) rows + 1 :=
          List.countP_cons_of_pos (decide_eq_true hlt)
        rw [hsucc, List.insertIdx_succ_cons,
          ← ih hrest fun r' hr' => hx r' (List.mem_cons_of_mem _ hr')]
        exact List.orderedInsert_of_not_le _ _ hle

/-- One more row goes to its rank. -/
theorem sort_cons {x : ρ} {rows : List ρ} (h : ((x :: rows).map key).Nodup) :
    sort key (x :: rows) = (sort key rows).insertIdx (rank key (key x) rows) x := by
  obtain ⟨hx, hrows⟩ := List.nodup_cons.1 h
  have hrank : rank key (key x) rows = rank key (key x) (sort key rows) :=
    (List.perm_insertionSort _ rows).symm.countP_eq _
  rw [hrank, ← orderedInsert_eq_insertIdx (pairwise_sort hrows)]
  · rfl
  · intro r hr heq
    exact hx (List.mem_map.2 ⟨r, (List.mem_insertionSort _).1 hr, heq⟩)

/-- Among the rows that are selected, a row has its rank among the others. -/
theorem sort_filter_split {x : ρ} {l₁ l₂ : List ρ} (p : ρ → Bool)
    (h : ((x :: (l₁ ++ l₂)).map key).Nodup) :
    sort key ((l₁ ++ x :: l₂).filter p) =
      if p x then (sort key ((l₁ ++ l₂).filter p)).insertIdx
        (rank key (key x) ((l₁ ++ l₂).filter p)) x
      else sort key ((l₁ ++ l₂).filter p) := by
  have hfilter : ((l₁ ++ x :: l₂).filter p).Perm ((x :: (l₁ ++ l₂)).filter p) :=
    List.perm_middle.filter p
  have hnodup : (((l₁ ++ x :: l₂).filter p).map key).Nodup := by
    rw [(hfilter.map key).nodup_iff]
    exact (List.filter_sublist.map key).nodup h
  rw [sort_eq_of_perm hfilter hnodup]
  by_cases hp : p x = true
  · rw [List.filter_cons_of_pos hp, if_pos hp]
    apply sort_cons
    rw [← List.filter_cons_of_pos hp]
    exact (List.filter_sublist.map key).nodup h
  · rw [List.filter_cons_of_neg hp, if_neg hp]

end Keyset

/-! ## Pages -/

section Pages

variable {α ι κ : Type} (ident : α → ι) (cursor : α → κ) (n : ℕ)

/-- Two lists have the same first page of `n`: the same rows, a page after it both or neither, and
then the same cursor. -/
structure SamePage (R R' : List α) : Prop where
  rows : (R.take n).map ident = (R'.take n).map ident
  more : n < R.length ↔ n < R'.length
  next : n < R.length → (R.take n).getLast?.map cursor = (R'.take n).getLast?.map cursor

variable {ident cursor n}

theorem SamePage.symm {R R' : List α} (h : SamePage ident cursor n R R') :
    SamePage ident cursor n R' R :=
  ⟨h.rows.symm, h.more.symm, fun hlt => (h.next (h.more.2 hlt)).symm⟩

theorem SamePage.refl (R : List α) : SamePage ident cursor n R R := ⟨rfl, Iff.rfl, fun _ => rfl⟩

variable {L : List α} {x x' : α} {p p' : ℕ}

/-- The row put in is at its place only. -/
theorem ident_insertIdx_iff (hp : p ≤ L.length) (hout : ∀ y ∈ L, ident y ≠ ident x) {i : ℕ} :
    ((L.insertIdx p x)[i]?).map ident = some (ident x) ↔ i = p := by
  have hothers : ∀ j : ℕ, ¬(L[j]?).map ident = some (ident x) := by
    intro j h
    obtain ⟨y, hy, hident⟩ := Option.map_eq_some_iff.1 h
    exact hout y (List.mem_of_getElem? hy) hident
  rw [List.getElem?_insertIdx]
  split
  · exact iff_of_false (hothers i) (by omega)
  · split
    · rename_i heq
      rw [heq, if_pos hp]
      exact iff_of_true rfl rfl
    · exact iff_of_false (hothers (i - 1)) (by omega)

/-- A row on the first page is on the other one, at the same place. -/
theorem getElem?_of_rows {R R' : List α} (h : (R.take n).map ident = (R'.take n).map ident)
    {i : ℕ} (hi : i < n) : (R[i]?).map ident = (R'[i]?).map ident := by
  have hat := congrArg (fun l : List ι => l[i]?) h
  simpa only [List.getElem?_map, List.getElem?_take_of_lt hi] using hat

theorem getLast?_take_of_le {R : List α} (hn : 1 ≤ n) (h : n ≤ R.length) :
    (R.take n).getLast? = R[n - 1]? := by
  rw [List.getLast?_eq_getElem?, List.length_take, Nat.min_eq_left h,
    List.getElem?_take_of_lt (by omega)]

/-- A row behind the page does not show. -/
theorem take_insertIdx (h : n ≤ p) : (L.insertIdx p x).take n = L.take n :=
  List.take_insertIdx_eq_take_of_le L x n p h

/-- The row moves from the place `p` to `p'`. -/
theorem samePage_insertIdx_iff (hn : 1 ≤ n) (hp : p ≤ L.length) (hp' : p' ≤ L.length)
    (hident : ident x' = ident x) (hout : ∀ y ∈ L, ident y ≠ ident x) :
    SamePage ident cursor n (L.insertIdx p x) (L.insertIdx p' x') ↔
      min p n = min p' n ∧ (p + 1 = n → n ≤ L.length → cursor x = cursor x') := by
  have hlength : (L.insertIdx p x).length = L.length + 1 := List.length_insertIdx_of_le_length hp x
  have hlength' : (L.insertIdx p' x').length = L.length + 1 :=
    List.length_insertIdx_of_le_length hp' x'
  have hout' : ∀ y ∈ L, ident y ≠ ident x' := fun y hy => hident ▸ hout y hy
  constructor
  · intro h
    have hplace : p < n → p = p' := by
      intro hlt
      have hat := getElem?_of_rows h.rows hlt
      rw [(ident_insertIdx_iff hp hout).2 rfl, ← hident] at hat
      exact (ident_insertIdx_iff hp' hout').1 hat.symm
    have hplace' : p' < n → p' = p := by
      intro hlt
      have hat := getElem?_of_rows h.rows hlt
      rw [(ident_insertIdx_iff hp' hout').2 rfl, hident] at hat
      exact (ident_insertIdx_iff hp hout).1 hat
    refine ⟨by omega, fun hlast hlong => ?_⟩
    -- the cursor is made of the row
    have hsame : p = p' := hplace (by omega)
    have hnext := h.next (by omega)
    rw [getLast?_take_of_le hn (by omega), getLast?_take_of_le hn (by omega)] at hnext
    have hx : (L.insertIdx p x)[n - 1]? = some x := by
      rw [← hlast, Nat.add_sub_cancel, List.getElem?_insertIdx_self, if_pos hp]
    have hx' : (L.insertIdx p' x')[n - 1]? = some x' := by
      rw [← hlast, Nat.add_sub_cancel, hsame, List.getElem?_insertIdx_self, if_pos hp']
    rw [hx, hx'] at hnext
    exact Option.some.inj hnext
  · rintro ⟨hmin, hcursor⟩
    by_cases hbehind : n ≤ p
    · have hbehind' : n ≤ p' := by omega
      refine ⟨?_, by rw [hlength, hlength'], fun _ => ?_⟩
      · rw [take_insertIdx hbehind, take_insertIdx hbehind']
      · rw [take_insertIdx hbehind, take_insertIdx hbehind']
    · have hsame : p' = p := by omega
      subst hsame
      refine ⟨?_, by rw [hlength, hlength'], fun hmore => ?_⟩
      · rw [List.map_take, List.map_take, List.map_insertIdx, List.map_insertIdx, hident]
      · rw [getLast?_take_of_le hn (by omega), getLast?_take_of_le hn (by omega)]
        by_cases hlast : p' + 1 = n
        · have hx : ∀ z : α, (L.insertIdx p' z)[n - 1]? = some z := by
            intro z
            rw [← hlast, Nat.add_sub_cancel, List.getElem?_insertIdx_self, if_pos hp]
          rw [hx, hx, Option.map_some, Option.map_some, hcursor hlast (by omega)]
        · -- another row is the last one
          rw [List.getElem?_insertIdx_of_gt (by omega), List.getElem?_insertIdx_of_gt (by omega)]

/-- The row leaves the list. -/
theorem samePage_insertIdx_self_iff (hp : p ≤ L.length)
    (hout : ∀ y ∈ L, ident y ≠ ident x) :
    SamePage ident cursor n (L.insertIdx p x) L ↔ n ≤ p ∧ n < L.length := by
  have hlength : (L.insertIdx p x).length = L.length + 1 := List.length_insertIdx_of_le_length hp x
  constructor
  · intro h
    have hbehind : n ≤ p := by
      by_contra hlt
      have hat := getElem?_of_rows h.rows (Nat.lt_of_not_le hlt)
      rw [(ident_insertIdx_iff hp hout).2 rfl] at hat
      obtain ⟨y, hy, hident⟩ := Option.map_eq_some_iff.1 hat.symm
      exact hout y (List.mem_of_getElem? hy) hident
    exact ⟨hbehind, h.more.1 (by omega)⟩
  · rintro ⟨hbehind, hmore⟩
    refine ⟨?_, by omega, fun _ => ?_⟩
    · rw [take_insertIdx hbehind]
    · rw [take_insertIdx hbehind]

end Pages

end Vivac.Lib
