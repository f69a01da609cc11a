import Mathlib.Data.List.Nodup
import Mathlib.Data.List.Perm.Basic

/-!
# Keyed tables

A table is a list of rows with pairwise distinct keys. Every operation returns a
table, so the primary key holds by construction: `insert` leaves a table alone
that already has the key, and `update` takes the proof that it keeps keys.
-/

set_option autoImplicit false

namespace Vivac.Lib

variable {κ ρ : Type}

/-- The new version of a row, under the same key; `none` is a row with no new version. -/
structure Rewrite (key : ρ → κ) where
  apply : ρ → Option ρ
  keeps : ∀ {r r'}, apply r = some r' → key r' = key r

/-- A rewrite that every row admits. -/
def Rewrite.total {key : ρ → κ} (f : ρ → ρ) (hf : ∀ r, key (f r) = key r) : Rewrite key where
  apply r := some (f r)
  keeps h := by
    cases h
    exact hf _

theorem Rewrite.key_getD {key : ρ → κ} (f : Rewrite key) (r : ρ) :
    key ((f.apply r).getD r) = key r := by
  cases h : f.apply r with
  | none => rfl
  | some r' => exact f.keeps h

/-- Rows with pairwise distinct keys. -/
structure Table (key : ρ → κ) where
  rows : List ρ
  nodup : (rows.map key).Nodup

namespace Table

variable {key : ρ → κ}

/-- The table without rows. -/
def empty : Table key := ⟨[], List.nodup_nil⟩

@[ext] theorem ext {t t' : Table key} (h : t.rows = t'.rows) : t = t' := by
  cases t
  cases t'
  cases h
  rfl

/-- `SELECT ... WHERE p`, in storage order. -/
def select (t : Table key) (p : ρ → Bool) : List ρ := t.rows.filter p

/-- Some row meets `p`. -/
def any (t : Table key) (p : ρ → Bool) : Bool := t.rows.any p

/-- `UPDATE ... SET f WHERE p`, for an `f` that leaves the key alone. -/
def update (t : Table key) (p : ρ → Bool) (f : ρ → ρ) (hf : ∀ r, key (f r) = key r) :
    Table key where
  rows := t.rows.map fun r => if p r then f r else r
  nodup := by
    have hkeys : (t.rows.map fun r => if p r then f r else r).map key = t.rows.map key := by
      rw [List.map_map]
      refine List.map_congr_left fun r _ => ?_
      by_cases h : p r <;> simp [h, hf]
    rw [hkeys]
    exact t.nodup

/-- Replace each row that meets `p` by its new version; one without stays. -/
def rewrite (t : Table key) (p : ρ → Bool) (f : Rewrite key) : Table key :=
  t.update p (fun r => (f.apply r).getD r) f.key_getD

/-- `DELETE ... WHERE p`. -/
def delete (t : Table key) (p : ρ → Bool) : Table key where
  rows := t.rows.filter fun r => !p r
  nodup := (List.Sublist.map key List.filter_sublist).nodup t.nodup

/-- The row under `k` is `r'` now; the other rows are as before. -/
structure Replaces [DecidableEq κ] (t t' : Table key) (k : κ) (r' : ρ) : Prop where
  key_eq : key r' = k
  rows_eq : t'.rows = t.rows.map fun r => if key r = k then r' else r

/-! ## Reading -/

@[simp] theorem mem_select {t : Table key} {p : ρ → Bool} {r : ρ} :
    r ∈ t.select p ↔ r ∈ t.rows ∧ p r = true := List.mem_filter

theorem nodup_rows (t : Table key) : t.rows.Nodup := List.Nodup.of_map key t.nodup

/-- Two rows with one key are the same row. -/
theorem eq_of_key_eq (t : Table key) {r r' : ρ} (hr : r ∈ t.rows) (hr' : r' ∈ t.rows)
    (h : key r = key r') : r = r' :=
  List.inj_on_of_nodup_map t.nodup hr hr' h

/-- The rows around one of them have other keys. -/
theorem exists_split (t : Table key) {r : ρ} (hr : r ∈ t.rows) :
    ∃ l₁ l₂, t.rows = l₁ ++ r :: l₂ ∧ ∀ s ∈ l₁ ++ l₂, key s ≠ key r := by
  obtain ⟨l₁, l₂, hrows⟩ := List.append_of_mem hr
  refine ⟨l₁, l₂, hrows, fun s hs heq => ?_⟩
  have hnodup := t.nodup
  rw [hrows, (List.perm_middle.map key).nodup_iff, List.map_cons, List.nodup_cons] at hnodup
  exact hnodup.1 (heq ▸ List.mem_map_of_mem hs)

/-! ## Writing -/

@[simp] theorem rows_update (t : Table key) (p : ρ → Bool) (f : ρ → ρ)
    (hf : ∀ r, key (f r) = key r) :
    (t.update p f hf).rows = t.rows.map fun r => if p r then f r else r := rfl

@[simp] theorem rows_delete (t : Table key) (p : ρ → Bool) :
    (t.delete p).rows = t.rows.filter fun r => !p r := rfl

/-! ## Rows by key -/

variable [DecidableEq κ]

/-- The row under a key. -/
def find? (t : Table key) (k : κ) : Option ρ := t.rows.find? fun r => key r = k

/-- Append a row whose key is new. -/
def insert (t : Table key) (r : ρ) : Table key where
  rows := if key r ∈ t.rows.map key then t.rows else t.rows ++ [r]
  nodup := by
    by_cases h : key r ∈ t.rows.map key
    · rw [if_pos h]
      exact t.nodup
    · rw [if_neg h, List.map_append, List.map_singleton]
      exact List.Nodup.append t.nodup (List.nodup_singleton _) (by simpa using h)

theorem find?_eq_some {t : Table key} {k : κ} {r : ρ} :
    t.find? k = some r ↔ r ∈ t.rows ∧ key r = k := by
  constructor
  · intro h
    exact ⟨List.mem_of_find?_eq_some h, by simpa using List.find?_some h⟩
  · rintro ⟨hr, rfl⟩
    cases h : t.find? (key r) with
    | some r' =>
      have hmem : r' ∈ t.rows := List.mem_of_find?_eq_some h
      have hkey : key r' = key r := by simpa using List.find?_some h
      rw [t.eq_of_key_eq hmem hr hkey]
    | none =>
      have hno := List.find?_eq_none.1 h r hr
      simp at hno

theorem find?_eq_none {t : Table key} {k : κ} :
    t.find? k = none ↔ ∀ r ∈ t.rows, key r ≠ k := by
  unfold find?
  simp [List.find?_eq_none]

theorem mem_insert {t : Table key} {r r' : ρ} (h : r' ∈ (t.insert r).rows) :
    r' ∈ t.rows ∨ r' = r := by
  simp only [insert] at h
  split at h
  · exact .inl h
  · simpa using h

/-- A row whose key is new is found under it. -/
theorem find?_insert_self {t : Table key} {r : ρ} (h : t.find? (key r) = none) :
    (t.insert r).find? (key r) = some r := by
  have hnew : key r ∉ t.rows.map key := by
    intro hmem
    obtain ⟨r', hr', hk⟩ := List.mem_map.1 hmem
    exact find?_eq_none.1 h r' hr' hk
  rw [find?_eq_some]
  refine ⟨?_, rfl⟩
  simp only [insert, if_neg hnew]
  exact List.mem_append_right _ (List.mem_singleton_self r)

/-- A row that is there stays. -/
theorem find?_insert_of_some {t : Table key} {r r' : ρ} {k : κ} (h : t.find? k = some r') :
    (t.insert r).find? k = some r' := by
  obtain ⟨hmem, hkey⟩ := find?_eq_some.1 h
  rw [find?_eq_some]
  refine ⟨?_, hkey⟩
  simp only [insert]
  split
  · exact hmem
  · exact List.mem_append_left _ hmem

theorem find?_insert_of_ne {t : Table key} {r : ρ} {k : κ} (h : key r ≠ k) :
    (t.insert r).find? k = t.find? k := by
  cases hold : t.find? k with
  | some r' => exact find?_insert_of_some hold
  | none =>
    rw [find?_eq_none] at hold ⊢
    intro r' hr'
    rcases mem_insert hr' with hmem | rfl
    · exact hold r' hmem
    · exact h

theorem find?_update (t : Table key) (p : ρ → Bool) (f : ρ → ρ) (hf : ∀ r, key (f r) = key r)
    (k : κ) : (t.update p f hf).find? k = (t.find? k).map fun r => if p r then f r else r := by
  unfold find?
  rw [rows_update, List.find?_map]
  refine congrArg (Option.map _) (congrArg (List.find? · t.rows) (funext fun r => ?_))
  simp only [Function.comp_apply]
  split
  · rw [hf]
  · rfl

theorem find?_rewrite (t : Table key) (p : ρ → Bool) (f : Rewrite key) (k : κ) :
    (t.rewrite p f).find? k =
      (t.find? k).map fun r => if p r then (f.apply r).getD r else r := find?_update ..

/-- A row is there after a deletion when it was and is not one of the deleted. -/
theorem find?_delete (t : Table key) (p : ρ → Bool) (k : κ) :
    (t.delete p).find? k = (t.find? k).filter fun r => !p r := by
  cases hold : t.find? k with
  | none =>
      rw [Option.filter_none, find?_eq_none]
      intro r hr
      rw [rows_delete, List.mem_filter] at hr
      exact find?_eq_none.1 hold r hr.1
  | some r =>
      obtain ⟨hmem, hkey⟩ := find?_eq_some.1 hold
      rw [Option.filter_some]
      split
      · rename_i hkept
        refine find?_eq_some.2 ⟨?_, hkey⟩
        rw [rows_delete, List.mem_filter]
        exact ⟨hmem, hkept⟩
      · rename_i hdeleted
        rw [find?_eq_none]
        intro s hs hsame
        rw [rows_delete, List.mem_filter] at hs
        -- the only row under the key is the deleted one
        obtain rfl := t.eq_of_key_eq hs.1 hmem (hsame.trans hkey.symm)
        exact hdeleted hs.2

theorem rows_insert_of_new {t : Table key} {r : ρ} (h : ∀ r' ∈ t.rows, key r' ≠ key r) :
    (t.insert r).rows = t.rows ++ [r] := by
  have hnot : key r ∉ t.rows.map key := by
    intro hmem
    obtain ⟨r', hr', hk⟩ := List.mem_map.1 hmem
    exact h r' hr' hk
  simp only [insert, if_neg hnot]

/-- The row that was just inserted, rewritten: it might have been inserted so. -/
theorem rewrite_insert_self {t : Table key} {p : ρ → Bool} {f : Rewrite key} {r r' : ρ}
    (h : t.find? (key r) = none) (hp : ∀ s, p s = true ↔ key s = key r) (hf : f.apply r = some r') :
    (t.insert r).rewrite p f = t.insert r' := by
  have hold := find?_eq_none.1 h
  have hkey : key r' = key r := f.keeps hf
  have hold' : ∀ s ∈ t.rows, key s ≠ key r' := by
    intro s hs
    rw [hkey]
    exact hold s hs
  apply ext
  rw [rewrite, rows_update, rows_insert_of_new hold, rows_insert_of_new hold', List.map_append]
  congr 1
  · refine (List.map_congr_left fun s hs => ?_).trans (List.map_id _)
    rw [if_neg fun hs' => hold s hs ((hp s).1 hs')]
    rfl
  · rw [List.map_singleton, if_pos ((hp r).2 rfl), hf]
    rfl

/-- After an insert a key is there that was there before, or is the new row's. -/
theorem isSome_find?_insert (t : Table key) (r : ρ) (k : κ) :
    ((t.insert r).find? k).isSome = ((t.find? k).isSome || decide (key r = k)) := by
  cases hold : t.find? k with
  | some r' =>
      rw [find?_insert_of_some hold]
      rfl
  | none =>
      by_cases hk : key r = k
      · subst hk
        have hnew : r ∈ (t.insert r).rows := by
          rw [rows_insert_of_new (find?_eq_none.1 hold)]
          exact List.mem_append_right _ (List.mem_singleton_self r)
        rw [find?_eq_some.2 ⟨hnew, rfl⟩]
        simp
      · rw [find?_insert_of_ne hk, hold]
        simp [hk]

/-- The rows that meet `p`, after the insert of a row under a new key. -/
theorem select_insert {t : Table key} {r : ρ} (h : t.find? (key r) = none) (p : ρ → Bool) :
    (t.insert r).select p = t.select p ++ if p r then [r] else [] := by
  unfold select
  rw [rows_insert_of_new (find?_eq_none.1 h), List.filter_append, List.filter_cons,
    List.filter_nil]

omit [DecidableEq κ] in
/-- What is shown of the rows that meet `p`, where an update keeps both. -/
theorem map_select_update {α : Type} {t : Table key} {p q : ρ → Bool} {f : ρ → ρ}
    (hf : ∀ r, key (f r) = key r) {g : ρ → α} (hq : ∀ r, q (f r) = q r) (hg : ∀ r, g (f r) = g r) :
    ((t.update p f hf).select q).map g = (t.select q).map g := by
  unfold select
  rw [rows_update, List.filter_map, List.map_map]
  have hkeeps : (q ∘ fun r => if p r then f r else r) = q := by
    funext r
    simp only [Function.comp_apply]
    split
    · exact hq r
    · rfl
  rw [hkeeps]
  apply List.map_congr_left
  intro r _
  simp only [Function.comp_apply]
  split
  · exact hg r
  · rfl

/-- The rows under one key are the row that a lookup finds. -/
theorem select_eq_find? {t : Table key} {k : κ} {p : ρ → Bool} (hp : ∀ r, p r = true ↔ key r = k) :
    t.select p = (t.find? k).toList := by
  have hsel : ∀ r, r ∈ t.select p ↔ t.find? k = some r := by
    intro r
    rw [mem_select, hp, find?_eq_some]
  have hnodup : (t.select p).Nodup := t.nodup_rows.filter _
  cases hk : t.find? k with
  | none =>
      rw [Option.toList_none, List.eq_nil_iff_forall_not_mem]
      intro r hr
      rw [hsel, hk] at hr
      cases hr
  | some r =>
      apply List.perm_singleton.1
      rw [List.perm_ext_iff_of_nodup hnodup (List.nodup_singleton r)]
      intro r'
      rw [hsel, hk, Option.some.injEq, List.mem_singleton, eq_comm]

/-- A row replaced by itself. -/
theorem Replaces.refl {t : Table key} {k : κ} {r : ρ} (h : t.find? k = some r) :
    t.Replaces t k r := by
  obtain ⟨hmem, hkey⟩ := find?_eq_some.1 h
  refine ⟨hkey, ((List.map_congr_left fun s hs => ?_).trans (List.map_id _)).symm⟩
  split
  · exact t.eq_of_key_eq hmem hs (by rw [hkey]; exact (‹key s = k›).symm)
  · rfl

/-- The new row is found under the key. -/
theorem Replaces.find? {t t' : Table key} {k : κ} {r r' : ρ} (h : t.Replaces t' k r')
    (hr : t.find? k = some r) : t'.find? k = some r' := by
  rw [find?_eq_some, h.rows_eq]
  obtain ⟨hmem, hk⟩ := find?_eq_some.1 hr
  exact ⟨List.mem_map.2 ⟨r, hmem, if_pos hk⟩, h.key_eq⟩

/-- A rewrite of the rows with one key replaces one row. -/
theorem replaces_rewrite {t : Table key} {k : κ} {p : ρ → Bool} {f : Rewrite key} {r r' : ρ}
    (h : t.find? k = some r) (hp : ∀ s ∈ t.rows, p s = true ↔ key s = k)
    (hf : f.apply r = some r') :
    t.Replaces (t.rewrite p f) k r' := by
  obtain ⟨hmem, hkey⟩ := find?_eq_some.1 h
  refine ⟨(f.keeps hf).trans hkey, List.map_congr_left fun s hs => ?_⟩
  by_cases hs' : key s = k
  · have hsame : s = r := t.eq_of_key_eq hs hmem (hs'.trans hkey.symm)
    rw [if_pos ((hp s hs).2 hs'), if_pos hs', hsame]
    exact congrArg (fun new => new.getD r) hf
  · rw [if_neg fun hps => hs' ((hp s hs).1 hps), if_neg hs']

/-- A table with the keys of `t` and a new version of each row has the new rows. -/
theorem perm_of_find? {t t' : Table key} {g : ρ → ρ} (hg : ∀ r, key (g r) = key r)
    (h : ∀ k, t'.find? k = (t.find? k).map g) : t'.rows.Perm (t.rows.map g) := by
  have hkeys : (t.rows.map g).map key = t.rows.map key := by
    rw [List.map_map]
    exact List.map_congr_left fun r _ => hg r
  have hnodup : (t.rows.map g).Nodup := List.Nodup.of_map key (hkeys ▸ t.nodup)
  refine (List.perm_ext_iff_of_nodup t'.nodup_rows hnodup).2 fun r => ?_
  constructor
  · intro hr
    have hfind : t'.find? (key r) = some r := find?_eq_some.2 ⟨hr, rfl⟩
    rw [h] at hfind
    obtain ⟨r₀, hr₀, rfl⟩ := Option.map_eq_some_iff.1 hfind
    exact List.mem_map_of_mem (find?_eq_some.1 hr₀).1
  · intro hr
    obtain ⟨r₀, hr₀, rfl⟩ := List.mem_map.1 hr
    have hfind : t.find? (key r₀) = some r₀ := find?_eq_some.2 ⟨hr₀, rfl⟩
    have hnew : t'.find? (key r₀) = some (g r₀) := by
      rw [h, hfind]
      rfl
    exact (find?_eq_some.1 hnew).1

/-- The rows under distinct keys that all occur, counted. -/
theorem countP_keys {t : Table key} {ks : List κ} (hnodup : ks.Nodup)
    (h : ∀ k ∈ ks, ∃ r, t.find? k = some r) :
    t.rows.countP (fun r => key r ∈ ks) = ks.length := by
  have hfilter : ((t.rows.filter fun r => key r ∈ ks).map key).Nodup :=
    (List.Sublist.map key List.filter_sublist).nodup t.nodup
  have hperm : ((t.rows.filter fun r => key r ∈ ks).map key).Perm ks := by
    refine (List.perm_ext_iff_of_nodup hfilter hnodup).2 fun k => ?_
    constructor
    · intro hk
      obtain ⟨r, hr, rfl⟩ := List.mem_map.1 hk
      simpa using (List.mem_filter.1 hr).2
    · intro hk
      obtain ⟨r, hr⟩ := h k hk
      obtain ⟨hrow, rfl⟩ := find?_eq_some.1 hr
      exact List.mem_map_of_mem (List.mem_filter.2 ⟨hrow, by simpa using hk⟩)
  rw [List.countP_eq_length_filter, ← hperm.length_eq, List.length_map]

end Table

end Vivac.Lib
