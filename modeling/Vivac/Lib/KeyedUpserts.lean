import Vivac.Lib.Patches
import Mathlib.Data.List.Nodup
import Mathlib.Data.List.Perm.Basic

/-!
# Upserts by key

A list of rows, each under a key. An entry names a key: it patches the rows that have the
key, or adds a row when none has it. `upsertAll_eq` says what a list of entries makes of the rows:
each row gets the patches of its key, and each key that was not there gets one row. From it follow
that upserting twice is upserting once (`upsertAll_again`), and that entries with distinct keys may
come in any order (`upsertAll_of_nodup`, `patchFor_perm`).
-/

set_option autoImplicit false

namespace Vivac.Lib

variable {κ C V : Type}

/-- A key, what to patch the rows with, and the row to start from when there is none. -/
structure Entry (κ C V : Type) where
  key : κ
  patch : Patch C V
  base : C → V

variable [DecidableEq κ] (key : (C → V) → κ)

/-- The entry keeps keys, and the row it adds has its key. -/
structure Entry.Lawful (e : Entry κ C V) : Prop where
  keeps : ∀ row, key (e.patch.apply row) = key row
  key_base : key e.base = e.key

/-- Patch the rows with the entry's key, or add one. -/
def upsert (e : Entry κ C V) (rows : List (C → V)) : List (C → V) :=
  if e.key ∈ rows.map key then
    rows.map fun row => if key row = e.key then e.patch.apply row else row
  else rows ++ [e.patch.apply e.base]

/-- The entries in order. -/
def upsertAll : List (Entry κ C V) → List (C → V) → List (C → V)
  | [], rows => rows
  | e :: es, rows => upsertAll es (upsert key e rows)

/-- The patches of a key, in order. -/
def patchFor (es : List (Entry κ C V)) (k : κ) : Patch C V :=
  .seq ((es.filter fun e => e.key = k).map Entry.patch)

/-- The entries that add a row: the first of each key that is not there. -/
def adding : List (Entry κ C V) → List (κ) → List (Entry κ C V)
  | [], _ => []
  | e :: es, seen =>
    if e.key ∈ seen then adding es seen else e :: adding es (seen ++ [e.key])

variable {key} {e : Entry κ C V} {es : List (Entry κ C V)} {rows : List (C → V)}

theorem patchFor_cons_of_eq {k : κ} (h : e.key = k) (row : C → V) :
    (patchFor (e :: es) k).apply row = (patchFor es k).apply (e.patch.apply row) := by
  unfold patchFor
  rw [List.filter_cons_of_pos (by simpa using h), List.map_cons]
  exact Patch.apply_seq_cons _ _ row

theorem patchFor_cons_of_ne {k : κ} (h : e.key ≠ k) :
    patchFor (e :: es) k = patchFor es k := by
  unfold patchFor
  rw [List.filter_cons_of_neg (by simpa using h)]

theorem not_mem_of_adding {seen : List (κ)} {e : Entry κ C V} (h : e ∈ adding es seen) :
    e.key ∉ seen := by
  induction es generalizing seen with
  | nil => cases h
  | cons e' es ih =>
      unfold adding at h
      split at h
      · exact ih h
      · rename_i hnew
        rcases List.mem_cons.1 h with rfl | hrest
        · exact hnew
        · intro hmem
          exact ih hrest (List.mem_append_left _ hmem)

theorem mem_of_adding {seen : List (κ)} (h : e ∈ adding es seen) : e ∈ es := by
  induction es generalizing seen with
  | nil => cases h
  | cons e' es ih =>
      unfold adding at h
      split at h
      · exact List.mem_cons_of_mem _ (ih h)
      · rcases List.mem_cons.1 h with rfl | hrest
        · exact List.mem_cons_self ..
        · exact List.mem_cons_of_mem _ (ih hrest)

/-- Every entry's key was there, or is added. -/
theorem mem_adding (seen : List (κ)) (h : e ∈ es) :
    e.key ∈ seen ∨ e.key ∈ (adding es seen).map Entry.key := by
  induction es generalizing seen with
  | nil => cases h
  | cons e' es ih =>
      unfold adding
      rcases List.mem_cons.1 h with rfl | hrest
      · split
        · rename_i hseen
          exact .inl hseen
        · exact .inr (List.mem_cons_self ..)
      · split
        · exact ih seen hrest
        · rcases ih (seen ++ [e'.key]) hrest with hseen | hadded
          · rcases List.mem_append.1 hseen with hold | hnew
            · exact .inl hold
            · exact .inr (List.mem_cons.2 (.inl (by simpa using hnew)))
          · exact .inr (List.mem_cons_of_mem _ hadded)

section Keys

theorem map_key_upsert (he : e.Lawful key) :
    (upsert key e rows).map key =
      if e.key ∈ rows.map key then rows.map key else rows.map key ++ [e.key] := by
  unfold upsert
  split
  · rw [List.map_map]
    apply List.map_congr_left
    intro row _
    simp only [Function.comp_apply]
    split
    · exact he.keeps row
    · rfl
  · rw [List.map_append, List.map_singleton, he.keeps, he.key_base]

/-- At most one row has a key. -/
def UniqueKeys (key : (C → V) → κ) (rows : List (C → V)) : Prop := (rows.map key).Nodup

theorem UniqueKeys.upsert (h : UniqueKeys key rows) (he : e.Lawful key) :
    UniqueKeys key (Lib.upsert key e rows) := by
  unfold UniqueKeys
  rw [map_key_upsert he]
  split
  · exact h
  · rename_i hnew
    apply List.Nodup.append h (List.nodup_singleton _)
    intro k hk hk'
    rw [List.mem_singleton.1 hk'] at hk
    exact hnew hk

end Keys

/-! ## What the entries make of the rows -/

/-- Each row gets the patches of its key, and each key that was not there gets a row. -/
theorem upsertAll_eq (hes : ∀ e ∈ es, e.Lawful key) :
    upsertAll key es rows = rows.map (fun row => (patchFor es (key row)).apply row) ++
      (adding es (rows.map key)).map fun e => (patchFor es (e.key)).apply e.base := by
  induction es generalizing rows with
  | nil =>
      have hsame : (fun row : C → V => (patchFor ([] : List (Entry κ C V)) (key row)).apply row) =
          id := by
        funext row
        rfl
      simp [upsertAll, adding, hsame]
  | cons e es ih =>
      have he := hes e (List.mem_cons_self ..)
      have hlater := @ih (upsert key e rows) fun e' he' => hes e' (List.mem_cons_of_mem _ he')
      rw [upsertAll, hlater, map_key_upsert he]
      -- an entry that adds later has another key
      have hothers : ∀ seen, e.key ∈ seen →
          (adding es seen).map (fun e' => (patchFor es (e'.key)).apply e'.base) =
            (adding es seen).map fun e' => (patchFor (e :: es) (e'.key)).apply e'.base := by
        intro seen hseen
        apply List.map_congr_left
        intro e' he'
        have hne : e.key ≠ e'.key := by
          intro heq
          rw [heq] at hseen
          exact not_mem_of_adding he' hseen
        rw [patchFor_cons_of_ne hne]
      by_cases hthere : e.key ∈ rows.map key
      · simp only [upsert, adding, if_pos hthere, List.map_map]
        rw [hothers _ hthere]
        congr 1
        apply List.map_congr_left
        intro row _
        simp only [Function.comp_apply]
        by_cases hkey : key row = e.key
        · rw [if_pos hkey, he.keeps, hkey, patchFor_cons_of_eq rfl]
        · rw [if_neg hkey, patchFor_cons_of_ne (Ne.symm hkey)]
      · simp only [upsert, adding, if_neg hthere, List.map_append, List.map_cons]
        rw [hothers _ (by simp), he.keeps, he.key_base, patchFor_cons_of_eq rfl, List.append_assoc]
        congr 1
        apply List.map_congr_left
        intro row hrow
        have hne : e.key ≠ key row := by
          intro heq
          exact hthere (heq ▸ List.mem_map_of_mem hrow)
        rw [patchFor_cons_of_ne hne]

/-- The patches of a key keep keys. -/
theorem key_patchFor (hes : ∀ e ∈ es, e.Lawful key) (k : κ) (row : C → V) :
    key ((patchFor es k).apply row) = key row := by
  induction es generalizing row with
  | nil => rfl
  | cons e es ih =>
      have hrest : ∀ e ∈ es, e.Lawful key := fun e' he' => hes e' (List.mem_cons_of_mem _ he')
      by_cases hk : e.key = k
      · rw [patchFor_cons_of_eq hk, ih hrest]
        exact (hes e (List.mem_cons_self ..)).keeps row
      · rw [patchFor_cons_of_ne hk, ih hrest]

/-- A row that was there, afterwards. -/
theorem mem_upsertAll_of_mem (hes : ∀ e ∈ es, e.Lawful key) {row : C → V} (h : row ∈ rows) :
    (patchFor es (key row)).apply row ∈ upsertAll key es rows := by
  rw [upsertAll_eq hes]
  apply List.mem_append_left
  exact List.mem_map_of_mem h

/-- Every row afterwards has the patches of its key, on a row that was there or on a new one. -/
theorem mem_upsertAll (hes : ∀ e ∈ es, e.Lawful key) {row : C → V}
    (h : row ∈ upsertAll key es rows) :
    (∃ old ∈ rows, row = (patchFor es (key old)).apply old) ∨
      ∃ e ∈ es, e.key ∉ rows.map key ∧ row = (patchFor es (e.key)).apply e.base := by
  rw [upsertAll_eq hes] at h
  rcases List.mem_append.1 h with hold | hnew
  · obtain ⟨old, hmem, rfl⟩ := List.mem_map.1 hold
    exact .inl ⟨old, hmem, rfl⟩
  · obtain ⟨e, hmem, rfl⟩ := List.mem_map.1 hnew
    exact .inr ⟨e, mem_of_adding hmem, not_mem_of_adding hmem, rfl⟩

variable (rows) in
/-- The key of an entry is there afterwards. -/
theorem mem_keys_upsertAll (hes : ∀ e ∈ es, e.Lawful key) (he : e ∈ es) :
    e.key ∈ (upsertAll key es rows).map key := by
  rw [upsertAll_eq hes, List.map_append, List.mem_append, List.map_map, List.map_map]
  rcases mem_adding (rows.map key) he with hold | hadded
  · left
    obtain ⟨row, hrow, hkey⟩ := List.mem_map.1 hold
    apply List.mem_map.2
    exact ⟨row, hrow, (key_patchFor hes _ row).trans hkey⟩
  · right
    obtain ⟨e', he', hkey⟩ := List.mem_map.1 hadded
    apply List.mem_map.2
    refine ⟨e', he', ?_⟩
    simp only [Function.comp_apply]
    rw [key_patchFor hes, (hes e' (mem_of_adding he')).key_base, ← hkey]

/-! ## Twice is once -/

/-- Nothing is added when every key is there. -/
theorem adding_eq_nil {seen : List (κ)} (h : ∀ e ∈ es, e.key ∈ seen) :
    adding es seen = [] := by
  induction es with
  | nil => rfl
  | cons e es ih =>
      unfold adding
      rw [if_pos (h e (List.mem_cons_self ..))]
      exact ih fun e' he' => h e' (List.mem_cons_of_mem _ he')

/-- Two lists of entries with the same keys and patches; the rows they add may differ. -/
def SamePatches (es es' : List (Entry κ C V)) : Prop :=
  es.map (fun e => (e.key, e.patch)) = es'.map fun e => (e.key, e.patch)

omit [DecidableEq κ] in
theorem SamePatches.keys {es' : List (Entry κ C V)} (h : SamePatches es es') :
    es.map Entry.key = es'.map Entry.key := by
  have hmap := congrArg (List.map Prod.fst) h
  simpa only [List.map_map, Function.comp_def] using hmap

theorem SamePatches.patchFor {es' : List (Entry κ C V)} (h : SamePatches es es')
    (k : κ) : Lib.patchFor es k = Lib.patchFor es' k := by
  have hpairs : ∀ es : List (Entry κ C V), Lib.patchFor es k =
      .seq (((es.map fun e => (e.key, e.patch)).filter fun x => x.1 = k).map Prod.snd) := by
    intro es
    rw [List.filter_map, List.map_map]
    rfl
  have hsame : es.map (fun e => (e.key, e.patch)) = es'.map fun e => (e.key, e.patch) := h
  rw [hpairs, hpairs, hsame]

/-- Entries upserted once more change nothing. -/
theorem upsertAll_again {es' : List (Entry κ C V)} (hes : ∀ e ∈ es, e.Lawful key)
    (hes' : ∀ e ∈ es', e.Lawful key) (hsame : SamePatches es es') :
    upsertAll key es' (upsertAll key es rows) = upsertAll key es rows := by
  rw [upsertAll_eq hes']
  have hthere : ∀ e' ∈ es', e'.key ∈ (upsertAll key es rows).map key := by
    intro e' he'
    have hkey : e'.key ∈ es.map Entry.key := by
      rw [hsame.keys]
      exact List.mem_map_of_mem he'
    obtain ⟨e, he, heq⟩ := List.mem_map.1 hkey
    rw [← heq]
    exact mem_keys_upsertAll rows hes he
  rw [adding_eq_nil hthere, List.map_nil, List.append_nil]
  -- a row that has the patches of its key already
  have hfixed : ∀ row ∈ upsertAll key es rows, (patchFor es' (key row)).apply row = row := by
    intro row hrow
    rw [← hsame.patchFor]
    rcases mem_upsertAll hes hrow with ⟨old, -, rfl⟩ | ⟨e, he, -, rfl⟩
    · rw [key_patchFor hes, Patch.apply_apply_self]
    · rw [key_patchFor hes, (hes e he).key_base, Patch.apply_apply_self]
  calc (upsertAll key es rows).map (fun row => (patchFor es' (key row)).apply row)
      = (upsertAll key es rows).map id := List.map_congr_left hfixed
    _ = upsertAll key es rows := List.map_id _

/-! ## Distinct keys -/

theorem adding_of_nodup {seen : List (κ)} (h : (es.map Entry.key).Nodup) :
    adding es seen = es.filter fun e => e.key ∉ seen := by
  induction es generalizing seen with
  | nil => rfl
  | cons e es ih =>
      rw [List.map_cons, List.nodup_cons] at h
      unfold adding
      split
      · rename_i hseen
        rw [List.filter_cons_of_neg (by simpa using hseen)]
        exact ih h.2
      · rename_i hnew
        rw [List.filter_cons_of_pos (by simpa using hnew), ih h.2]
        congr 1
        apply List.filter_congr
        intro e' he'
        have hne : e'.key ≠ e.key := by
          intro heq
          exact h.1 (heq ▸ List.mem_map_of_mem he')
        simp [hne]

/-- The patch of a key that one entry has. -/
theorem patchFor_of_nodup (h : (es.map Entry.key).Nodup) (he : e ∈ es) :
    patchFor es (e.key) = e.patch := by
  have hfilter : es.filter (fun e' => e'.key = e.key) = [e] := by
    have hnodup : (es.filter fun e' => e'.key = e.key).Nodup :=
      (List.Nodup.of_map _ h).filter _
    apply List.perm_singleton.1
    rw [List.perm_ext_iff_of_nodup hnodup (List.nodup_singleton e)]
    intro e'
    rw [List.mem_filter, List.mem_singleton]
    constructor
    · rintro ⟨he', hkey⟩
      exact List.inj_on_of_nodup_map h he' he (by simpa using hkey)
    · rintro rfl
      exact ⟨he, by simp⟩
  rw [patchFor, hfilter, List.map_singleton, Patch.seq_singleton]

/-- The order of entries with distinct keys does not matter for the rows that are there. -/
theorem patchFor_perm {es' : List (Entry κ C V)} (h : (es.map Entry.key).Nodup)
    (hperm : es.Perm es') (k : κ) : patchFor es k = patchFor es' k := by
  have h' : (es'.map Entry.key).Nodup := (hperm.map Entry.key).nodup_iff.1 h
  by_cases hk : ∃ e ∈ es, e.key = k
  · obtain ⟨e, he, rfl⟩ := hk
    rw [patchFor_of_nodup h he, patchFor_of_nodup h' (hperm.mem_iff.1 he)]
  · have hnone : ∀ {es : List (Entry κ C V)}, (∀ e ∈ es, e.key ≠ k) →
        patchFor es k = .seq [] := by
      intro es hes
      rw [patchFor, List.filter_eq_nil_iff.2 fun e he => by simpa using hes e he]
      rfl
    rw [hnone fun e he heq => hk ⟨e, he, heq⟩,
      hnone fun e he heq => hk ⟨e, hperm.mem_iff.2 he, heq⟩]

/-- What entries with distinct keys make of the rows. -/
theorem upsertAll_of_nodup (hes : ∀ e ∈ es, e.Lawful key) (h : (es.map Entry.key).Nodup) :
    upsertAll key es rows = rows.map (fun row => (patchFor es (key row)).apply row) ++
      (es.filter fun e => e.key ∉ rows.map key).map fun e => e.patch.apply e.base := by
  rw [upsertAll_eq hes, adding_of_nodup h]
  congr 1
  apply List.map_congr_left
  intro e he
  rw [patchFor_of_nodup h (List.mem_filter.1 he).1]

end Vivac.Lib
