import Vivac.Jobs.RowsInOrder

/-!
# The same rows once more, and in another order

Two facts about rows that are executed in order. When one execution follows another step for step,
all rows of the one go through if all rows of the other do (`RowStep.failures_eq_nil_of_follows`).
When a row is taken or not whatever the other rows do, so are all of them
(`RowStep.failures_eq_nil_iff`).
-/

set_option autoImplicit false

namespace Vivac

namespace RowStep

variable {ρ β : Type} {step step' : RowStep ρ β}

/-- Where a row goes through in the second execution it goes through in the first. -/
theorem failures_eq_nil_of_follows {R : ℕ → Db → Db → Prop} {n : ℕ} {rows : List ρ}
    (hstep : ∀ index < n, ∀ row ∈ rows, ∀ d₁ d₂ b d₂', R index d₁ d₂ →
      step' index row d₂ = .ok (b, d₂') →
        ∃ b' d₁', step index row d₁ = .ok (b', d₁') ∧ R (index + 1) d₁' d₂')
    {index : ℕ} {d₁ d₂ : Db} (hlength : index + rows.length ≤ n) (hstart : R index d₁ d₂)
    (h : step'.failures index rows d₂ = []) :
    step.failures index rows d₁ = [] := by
  induction rows generalizing index d₁ d₂ with
  | nil => rfl
  | cons row rows ih =>
      rw [List.length_cons] at hlength
      cases hrow : step' index row d₂ with
      | error e => simp [failures, hrow] at h
      | ok out =>
          obtain ⟨b, d₂'⟩ := out
          simp only [failures, hrow] at h
          obtain ⟨b', d₁', hfirst, hnext⟩ :=
            hstep index (by omega) row (List.mem_cons_self ..) d₁ d₂ b d₂' hstart hrow
          simp only [failures, hfirst]
          exact ih (fun index hindex row' hrow' =>
            hstep index hindex row' (List.mem_cons_of_mem _ hrow'))
            (by omega) hnext h

/-- Rows that do not meet each other all go through exactly when each is taken at the start. `I` is
what the rows keep. -/
theorem failures_eq_nil_iff (I : ℕ → Db → Prop) (taken : ρ → Db → Prop) (apart : ρ → ρ → Prop)
    {n : ℕ} {rows : List ρ} (htaken : ∀ {index row d}, index < n → row ∈ rows → I index d →
      ((∃ out, step index row d = .ok out) ↔ taken row d))
    (hkeeps : ∀ {index row d b d'}, index < n → row ∈ rows → I index d →
      step index row d = .ok (b, d') → I (index + 1) d')
    (hothers : ∀ {index row row' d b d'}, row ∈ rows → I index d → apart row row' →
      step index row d = .ok (b, d') → (taken row' d' ↔ taken row' d))
    {index : ℕ} {d : Db} (hlength : index + rows.length ≤ n) (hrows : rows.Pairwise apart)
    (hI : I index d) :
    step.failures index rows d = [] ↔ ∀ row ∈ rows, taken row d := by
  induction rows generalizing index d with
  | nil => simp [failures]
  | cons row rows ih =>
      obtain ⟨hfirst, hrest⟩ := List.pairwise_cons.1 hrows
      rw [List.length_cons] at hlength
      have hindex : index < n := by omega
      cases hrow : step index row d with
      | error e =>
          have hnot : ¬taken row d := by
            intro htake
            obtain ⟨out, hout⟩ := (htaken hindex (List.mem_cons_self ..) hI).2 htake
            rw [hrow] at hout
            cases hout
          simp [failures, hrow, hnot]
      | ok out =>
          obtain ⟨b, d'⟩ := out
          have htake : taken row d := (htaken hindex (List.mem_cons_self ..) hI).1 ⟨_, hrow⟩
          have hsame : (∀ row' ∈ rows, taken row' d') ↔ ∀ row' ∈ rows, taken row' d :=
            forall₂_congr fun row' hrow' =>
              hothers (List.mem_cons_self ..) hI (hfirst row' hrow') hrow
          simp only [failures, hrow]
          rw [ih (fun hindex hr => htaken hindex (List.mem_cons_of_mem _ hr))
            (fun hindex hr => hkeeps hindex (List.mem_cons_of_mem _ hr))
            (fun hr => hothers (List.mem_cons_of_mem _ hr)) (by omega) hrest
            (hkeeps hindex (List.mem_cons_self ..) hI hrow), hsame, List.forall_mem_cons,
              and_iff_right htake]

end RowStep

/-- Lists related one by one have related first elements, when related elements match alike. -/
theorem forall₂_find? {α β : Type} {R : α → β → Prop} {p : α → Bool} {q : β → Bool}
    (hpq : ∀ x y, R x y → p x = q y) {xs : List α} {ys : List β} (h : List.Forall₂ R xs ys) :
    Option.Rel R (xs.find? p) (ys.find? q) := by
  induction h with
  | nil => exact .none
  | @cons x y xs ys hxy _ ih =>
      by_cases hmatch : p x = true
      · have hmatch' : q y = true := hpq x y hxy ▸ hmatch
        rw [List.find?_cons_of_pos hmatch, List.find?_cons_of_pos hmatch']
        exact .some hxy
      · have hmatch' : ¬q y = true := hpq x y hxy ▸ hmatch
        rw [List.find?_cons_of_neg hmatch, List.find?_cons_of_neg hmatch']
        exact ih

end Vivac
