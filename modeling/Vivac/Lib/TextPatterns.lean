import Mathlib.Computability.RegularExpressions

/-!
# Patterns of texts

Regular expressions over characters as patterns are written: a literal text, a class of characters,
a choice of patterns. What each matches is said by membership of the whole text; `rmatch` decides
it.
-/

set_option autoImplicit false

namespace Vivac.Lib.Pattern

open RegularExpression

variable {α : Type}

/-- The text `xs` and nothing else. -/
def literal : List α → RegularExpression α
  | [] => 1
  | x :: xs => char x * literal xs

/-- A choice of patterns. -/
def choice : List (RegularExpression α) → RegularExpression α
  | [] => 0
  | r :: rs => r + choice rs

/-- One character of the class. -/
def oneOf (cs : List α) : RegularExpression α := choice (cs.map char)

theorem mem_literal {xs ys : List α} : ys ∈ (literal xs).matches' ↔ ys = xs := by
  induction xs generalizing ys with
  | nil => exact Language.mem_one ys
  | cons x xs ih =>
      rw [literal, matches'_mul, matches'_char]
      constructor
      · intro h
        obtain ⟨as, has, bs, hbs, rfl⟩ := Language.mem_mul.1 h
        rw [Set.mem_singleton_iff.1 has, ih.1 hbs]
        rfl
      · rintro rfl
        exact Language.mem_mul.2 ⟨[x], rfl, xs, ih.2 rfl, rfl⟩

theorem mem_choice {rs : List (RegularExpression α)} {ys : List α} :
    ys ∈ (choice rs).matches' ↔ ∃ r ∈ rs, ys ∈ r.matches' := by
  induction rs with
  | nil => simp [choice, Language.notMem_zero]
  | cons r rs ih =>
      rw [choice, matches'_add, Language.mem_add, ih]
      simp

theorem mem_oneOf {cs ys : List α} : ys ∈ (oneOf cs).matches' ↔ ∃ c ∈ cs, ys = [c] := by
  rw [oneOf, mem_choice]
  constructor
  · rintro ⟨r, hr, hys⟩
    obtain ⟨c, hc, rfl⟩ := List.mem_map.1 hr
    exact ⟨c, hc, Set.mem_singleton_iff.1 hys⟩
  · rintro ⟨c, hc, rfl⟩
    exact ⟨char c, List.mem_map_of_mem hc, rfl⟩

/-- `[cs]{n}`: `n` characters of the class. -/
theorem mem_oneOf_pow {cs : List α} {n : ℕ} {ys : List α} :
    ys ∈ (oneOf cs ^ n).matches' ↔ ys.length = n ∧ ∀ c ∈ ys, c ∈ cs := by
  rw [matches'_pow]
  induction n generalizing ys with
  | zero =>
      rw [pow_zero, Language.mem_one]
      constructor
      · rintro rfl
        simp
      · exact fun h => List.eq_nil_of_length_eq_zero h.1
  | succ n ih =>
      rw [pow_succ', Language.mem_mul]
      constructor
      · rintro ⟨as, has, bs, hbs, rfl⟩
        obtain ⟨c, hc, rfl⟩ := mem_oneOf.1 has
        obtain ⟨hlen, hall⟩ := ih.1 hbs
        simp [hlen, hc]
        exact hall
      · rintro ⟨hlen, hall⟩
        cases ys with
        | nil => cases hlen
        | cons c ys =>
            simp only [List.length_cons, Nat.add_right_cancel_iff] at hlen
            have hrest : ∀ c' ∈ ys, c' ∈ cs := fun c' hc' => hall c' (List.mem_cons_of_mem _ hc')
            exact ⟨[c], mem_oneOf.2 ⟨c, hall c (List.mem_cons_self ..), rfl⟩, ys,
              ih.2 ⟨hlen, hrest⟩, rfl⟩

end Vivac.Lib.Pattern
