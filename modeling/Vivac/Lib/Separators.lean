import Mathlib.Data.List.Basic
import Mathlib.Data.List.Infix

/-!
# Texts with separators

A family of separators, none of which overlaps another. A text that is read at a separator in two
ways is read the same way, or one reading has its separator inside the first part of the other
(`Separable.cases`).
-/

set_option autoImplicit false

namespace Vivac.Lib

variable {σ α : Type}

/-- The texts of the separators are not empty, none begins another, and no end of one begins
another. -/
structure Separable (text : σ → List α) : Prop where
  nonempty : ∀ s, text s ≠ []
  inj : ∀ {s s' u u'}, text s ++ u = text s' ++ u' → s = s'
  apart : ∀ {s s' b u u'}, b <:+ text s → b ≠ text s → b ≠ [] → b ++ u ≠ text s' ++ u'

/-- Two readings of one text: first a part, then a separator, then the rest. -/
theorem Separable.cases {text : σ → List α} (h : Separable text) {s s' : σ} {x x' u u' : List α}
    (heq : x ++ (text s ++ u) = x' ++ (text s' ++ u')) :
    (x = x' ∧ s = s' ∧ u = u') ∨
      (∃ y, x' = x ++ (text s ++ y) ∧ u = y ++ (text s' ++ u')) ∨
      ∃ y, x = x' ++ (text s' ++ y) ∧ u' = y ++ (text s ++ u) := by
  -- the longer first part goes on with something that starts like the other's separator
  have hlonger : ∀ {s s' : σ} {x x' u u' a : List α}, x' = x ++ a →
      text s ++ u = a ++ (text s' ++ u') → (x = x' ∧ s = s' ∧ u = u') ∨
        ∃ y, x' = x ++ (text s ++ y) ∧ u = y ++ (text s' ++ u') := by
    intro s s' x x' u u' a hx hrest
    rcases List.append_eq_append_iff.1 hrest with ⟨b, rfl, hu⟩ | ⟨b, hb, hb'⟩
    · exact .inr ⟨b, hx, hu⟩
    · by_cases hempty : b = []
      · subst hempty
        rw [List.append_nil] at hb
        rw [List.nil_append] at hb'
        refine .inr ⟨[], ?_, ?_⟩
        · rw [List.append_nil, hb, hx]
        · rw [List.nil_append, hb']
      · by_cases hall : b = text s
        · have ha : a = [] := by
            have hlength := congrArg List.length hb
            rw [List.length_append, hall] at hlength
            exact List.length_eq_zero_iff.1 (by omega)
          rw [ha, List.append_nil] at hx
          rw [ha, List.nil_append] at hrest
          obtain rfl := h.inj hrest
          exact .inl ⟨hx.symm, rfl, List.append_cancel_left hrest⟩
        · exact absurd hb'.symm (h.apart ⟨a, hb.symm⟩ hall hempty)
  rcases List.append_eq_append_iff.1 heq with ⟨a, hx, hrest⟩ | ⟨a, hx, hrest⟩
  · rcases hlonger hx hrest with hsame | hinside
    · exact .inl hsame
    · exact .inr (.inl hinside)
  · rcases hlonger hx hrest with ⟨rfl, rfl, rfl⟩ | hinside
    · exact .inl ⟨rfl, rfl, rfl⟩
    · exact .inr (.inr hinside)

end Vivac.Lib
