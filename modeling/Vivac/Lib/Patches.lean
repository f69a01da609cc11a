import Mathlib.Data.List.Basic

/-!
# Patches

A patch supplies new values for some columns of a row; a row gives every column a value. Patches
in a sequence give a column the value of the last of them that supplies it
(`Patch.seq_eq_some_iff`), and a patch applied again changes nothing (`Patch.apply_apply_self`).
-/

set_option autoImplicit false

namespace Vivac.Lib

variable {C V : Type}

/-- New values for some columns. -/
abbrev Patch (C V : Type) := C → Option V

namespace Patch

/-- The row with the values that are supplied; its other columns stay. -/
def apply (p : Patch C V) (row : C → V) : C → V := fun c => (p c).getD (row c)

/-- First `p`, then `q`. -/
def andThen (p q : Patch C V) : Patch C V := fun c => (q c).or (p c)

/-- One patch after another. -/
def seq : List (Patch C V) → Patch C V
  | [] => fun _ => none
  | p :: ps => p.andThen (seq ps)

/-- A value for one column. -/
def single [DecidableEq C] (c : C) (v : V) : Patch C V := fun c' => if c' = c then some v else none

theorem apply_of_none {p : Patch C V} {row : C → V} {c : C} (h : p c = none) :
    p.apply row c = row c := by
  rw [apply, h, Option.getD_none]

theorem apply_of_some {p : Patch C V} {row : C → V} {c : C} {v : V} (h : p c = some v) :
    p.apply row c = v := by
  rw [apply, h, Option.getD_some]

theorem apply_andThen (p q : Patch C V) (row : C → V) :
    (p.andThen q).apply row = q.apply (p.apply row) := by
  funext c
  simp only [apply, andThen]
  cases q c <;> rfl

@[simp] theorem apply_apply_self (p : Patch C V) (row : C → V) :
    p.apply (p.apply row) = p.apply row := by
  funext c
  simp only [apply]
  cases p c <;> rfl

@[simp] theorem apply_seq_nil (row : C → V) : (seq ([] : List (Patch C V))).apply row = row := rfl

theorem apply_seq_cons (p : Patch C V) (ps : List (Patch C V)) (row : C → V) :
    (seq (p :: ps)).apply row = (seq ps).apply (p.apply row) := apply_andThen p (seq ps) row

theorem seq_singleton (p : Patch C V) : seq [p] = p := by
  funext c
  simp [seq, andThen]

/-- A patch of one column is an update of it. -/
theorem apply_single [DecidableEq C] (c : C) (v : V) (row : C → V) :
    (single c v).apply row = Function.update row c v := by
  funext c'
  by_cases h : c' = c
  · subst h
    simp [apply, single]
  · simp [apply, single, h]

theorem seq_eq_none_iff {ps : List (Patch C V)} {c : C} :
    seq ps c = none ↔ ∀ p ∈ ps, p c = none := by
  induction ps with
  | nil => simp [seq]
  | cons p ps ih => simp [seq, andThen, ih, and_comm]

/-- The last patch that supplies a value for the column decides. -/
theorem seq_eq_some_iff {ps : List (Patch C V)} {c : C} {v : V} :
    seq ps c = some v ↔ ∃ before p after, ps = before ++ p :: after ∧ p c = some v ∧
      ∀ q ∈ after, q c = none := by
  induction ps with
  | nil => simp [seq]
  | cons p ps ih =>
      simp only [seq, andThen]
      cases hlater : seq ps c with
      | some w =>
          rw [hlater] at ih
          rw [Option.some_or, ih]
          constructor
          · rintro ⟨before, q, after, rfl, hq, hafter⟩
            exact ⟨p :: before, q, after, rfl, hq, hafter⟩
          · rintro ⟨before, q, after, heq, hq, hafter⟩
            cases before with
            | nil =>
                -- the first patch would be the last to supply the column
                cases heq
                have hnone := seq_eq_none_iff.2 hafter
                rw [hlater] at hnone
                cases hnone
            | cons p' before =>
                cases heq
                exact ⟨before, q, after, rfl, hq, hafter⟩
      | none =>
          rw [Option.none_or]
          have hnone := seq_eq_none_iff.1 hlater
          constructor
          · intro hp
            exact ⟨[], p, ps, rfl, hp, hnone⟩
          · rintro ⟨before, q, after, heq, hq, hafter⟩
            cases before with
            | nil =>
                cases heq
                exact hq
            | cons p' before =>
                cases heq
                have hq' := hnone q (by simp)
                rw [hq] at hq'
                cases hq'

/-- The last of the values that are supplied. -/
theorem seq_eq_getLast? (ps : List (Patch C V)) (c : C) :
    seq ps c = (ps.filterMap fun p => p c).getLast? := by
  induction ps with
  | nil => rfl
  | cons p ps ih =>
      simp only [seq, andThen, ih]
      cases hp : p c with
      | none => simp [hp]
      | some v =>
          simp only [List.filterMap_cons, hp, List.getLast?_cons]
          cases (ps.filterMap fun p => p c).getLast? <;> rfl

end Patch

end Vivac.Lib
