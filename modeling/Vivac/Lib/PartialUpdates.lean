import Vivac.Lib.Patches
import Mathlib.Data.List.Nodup
import Mathlib.Logic.Function.Basic

/-!
# Partial updates

An update dictionary is a list of pairs, each a new value for a column of a row. `Columns` says how
one pair is set; setting all pairs of a dictionary that names each column once sets exactly what it
supplies (`Columns.sets_setAll`), also when the pairs that change nothing are left out
(`Columns.exists_setAll_filter`).
-/

set_option autoImplicit false

namespace Vivac.Lib

variable {R A C V : Type} [DecidableEq C]

/-- Rows `R` as values for the columns `C`, and the pairs `A` that set them; `set` has no row for a
value that its column cannot have. -/
structure Columns (R A C V : Type) [DecidableEq C] where
  get : R → C → V
  key : A → C
  value : A → V
  set : A → R → Option R
  get_set : ∀ {a r r'}, set a r = some r' → get r' = Function.update (get r) (key a) (value a)

namespace Columns

variable {t : Columns R A C V} {data : List A} {others : C → Prop} {r r' : R}

/-- The pairs of a dictionary, in order. -/
def setAll (t : Columns R A C V) : List A → R → Option R
  | [], r => some r
  | a :: as, r => (t.set a r).bind (t.setAll as)

/-- The supplied columns have the supplied values, and every other column its old value; nothing is
said of the columns `others`. -/
structure Sets (t : Columns R A C V) (others : C → Prop) (data : List A) (old new : R) : Prop where
  supplied : ∀ a ∈ data, t.get new (t.key a) = t.value a
  kept : ∀ c, ¬others c → (∀ a ∈ data, t.key a ≠ c) → t.get new c = t.get old c

/-- A row whose columns are as before, but for those of which nothing is said. -/
theorem Sets.congr {new : R} (h : t.Sets others data r r') (hkeys : ∀ a ∈ data, ¬others (t.key a))
    (hsame : ∀ c, ¬others c → t.get new c = t.get r' c) : t.Sets others data r new where
  supplied a ha := (hsame _ (hkeys a ha)).trans (h.supplied a ha)
  kept c hc hdata := (hsame c hc).trans (h.kept c hc hdata)

theorem Sets.mono (h : t.Sets (fun _ => False) data r r') : t.Sets others data r r' where
  supplied := h.supplied
  kept c _ hdata := h.kept c not_false hdata

/-- What is set is determined, column by column. -/
theorem Sets.get_eq {s : R} (h : t.Sets (fun _ => False) data r r')
    (h' : t.Sets (fun _ => False) data r s) : t.get r' = t.get s := by
  funext c
  by_cases hc : ∃ a ∈ data, t.key a = c
  · obtain ⟨a, ha, rfl⟩ := hc
    rw [h.supplied a ha, h'.supplied a ha]
  · have hkept : ∀ a ∈ data, t.key a ≠ c := fun a ha heq => hc ⟨a, ha, heq⟩
    rw [h.kept c not_false hkept, h'.kept c not_false hkept]

/-- A dictionary that names each column once sets what it supplies, and nothing else. -/
theorem sets_setAll (h : t.setAll data r = some r') (hnodup : (data.map t.key).Nodup) :
    t.Sets (fun _ => False) data r r' := by
  induction data generalizing r with
  | nil =>
      cases h
      exact ⟨fun _ ha => absurd ha (List.not_mem_nil), fun _ _ _ => rfl⟩
  | cons a as ih =>
      rw [List.map_cons, List.nodup_cons] at hnodup
      obtain ⟨m, hm, hrest⟩ := Option.bind_eq_some_iff.1 h
      have htail := ih hrest hnodup.2
      have hget := t.get_set hm
      -- the later pairs name other columns
      have hother : ∀ b ∈ as, t.key b ≠ t.key a := fun b hb heq =>
        hnodup.1 (heq ▸ List.mem_map_of_mem hb)
      refine ⟨fun b hb => ?_, fun c _ hc => ?_⟩
      · rcases List.mem_cons.1 hb with rfl | hb
        · rw [htail.kept _ not_false hother, hget, Function.update_self]
        · exact htail.supplied b hb
      · have hne : c ≠ t.key a := fun heq => hc a List.mem_cons_self heq.symm
        rw [htail.kept c not_false fun b hb => hc b (List.mem_cons_of_mem a hb), hget,
          Function.update_of_ne hne]

/-- The pairs that change nothing may be left out. -/
theorem sets_of_filter {p : A → Bool} (h : t.setAll (data.filter p) r = some r')
    (hnodup : (data.map t.key).Nodup)
    (hp : ∀ a ∈ data, p a = false → t.get r (t.key a) = t.value a) :
    t.Sets (fun _ => False) data r r' := by
  have hset := sets_setAll h ((List.filter_sublist.map t.key).nodup hnodup)
  refine ⟨fun a ha => ?_, fun c _ hc => ?_⟩
  · by_cases hpa : p a = true
    · exact hset.supplied a (List.mem_filter.2 ⟨ha, hpa⟩)
    · -- no other pair names the column of a pair that is left out
      have hnone : ∀ b ∈ data.filter p, t.key b ≠ t.key a := by
        intro b hb heq
        obtain ⟨hbdata, hpb⟩ := List.mem_filter.1 hb
        exact hpa (List.inj_on_of_nodup_map hnodup hbdata ha heq ▸ hpb)
      rw [hset.kept _ not_false hnone, hp a ha (Bool.eq_false_iff.2 hpa)]
  · exact hset.kept c not_false fun a ha => hc a (List.mem_filter.1 ha).1

/-- Pairs that can be set in every row can be set one after the other. -/
theorem exists_setAll (h : ∀ a ∈ data, ∀ r, ∃ r', t.set a r = some r') (r : R) :
    ∃ r', t.setAll data r = some r' := by
  induction data generalizing r with
  | nil => exact ⟨r, rfl⟩
  | cons a as ih =>
      obtain ⟨m, hm⟩ := h a List.mem_cons_self r
      obtain ⟨r', hr'⟩ := ih (fun b hb => h b (List.mem_cons_of_mem a hb)) m
      exact ⟨r', Option.bind_eq_some_iff.2 ⟨m, hm, hr'⟩⟩

/-- Pairs that can be set are set but for those that change nothing; when these are all, the row
stays. -/
theorem exists_setAll_filter {p : A → Bool} (h : ∀ a ∈ data, ∀ r, ∃ r', t.set a r = some r')
    (hnodup : (data.map t.key).Nodup)
    (hp : ∀ a ∈ data, p a = false → t.get r (t.key a) = t.value a) :
    ∃ r', t.setAll (data.filter p) r = some r' ∧ t.Sets (fun _ => False) data r r' ∧
      (data.filter p = [] → r' = r) := by
  obtain ⟨r', hr'⟩ := exists_setAll (fun a ha => h a (List.mem_filter.1 ha).1) r
  refine ⟨r', hr', sets_of_filter hr' hnodup hp, fun hempty => ?_⟩
  rw [hempty] at hr'
  cases hr'
  rfl

/-- A pair that no row admits is enough for there to be no row. -/
theorem setAll_eq_none {a : A} (ha : a ∈ data) (h : ∀ r, t.set a r = none) (r : R) :
    t.setAll data r = none := by
  induction data generalizing r with
  | nil => exact absurd ha List.not_mem_nil
  | cons b as ih =>
      rcases List.mem_cons.1 ha with rfl | ha
      · exact Option.bind_eq_none_iff.2 fun m hm => by
          rw [h r] at hm
          cases hm
      · exact Option.bind_eq_none_iff.2 fun m _ => ih ha m

end Columns

end Vivac.Lib
