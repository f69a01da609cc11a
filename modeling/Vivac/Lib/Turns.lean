import Vivac.Lib.LoneRuns

/-!
# Calls one after another

`Turns step xs s s'`: the calls of the list, each run to its end before the next begins, lead from
`s` to `s'`. What every call keeps holds at the end (`Turns.invariant`, `Turns.induct`). `Begins`
names the calls of a run with the states they begin in, so that an invariant may speak of what has
happened (`Turns.begins`).
-/

set_option autoImplicit false

namespace Vivac.Lib

variable {X : Type*} {S : Type} {step : X → S → S → Prop}

/-- The calls of the list, in order. -/
inductive Turns (step : X → S → S → Prop) : List X → S → S → Prop
  | nil (s : S) : Turns step [] s s
  | cons {x : X} {xs : List X} {s s₁ s₂ : S} (h : step x s s₁) (hs : Turns step xs s₁ s₂) :
      Turns step (x :: xs) s s₂

namespace Turns

theorem single {x : X} {s s' : S} (h : step x s s') : Turns step [x] s s' := .cons h (.nil s')

/-- What every call keeps. -/
theorem invariant {I : S → Prop} {xs : List X} {s s' : S} (h : Turns step xs s s')
    (hstep : ∀ x ∈ xs, ∀ a b, step x a b → I a → I b) (hs : I s) : I s' := by
  induction h with
  | nil s => exact hs
  | @cons x xs a b c hx _ ih =>
      apply ih fun y hy => hstep y (List.mem_cons_of_mem _ hy)
      exact hstep x (List.mem_cons_self ..) a b hx hs

/-- A two-state property of every call, reflexive and transitive, where the states meet `I`. -/
theorem induct {I : S → Prop} {T : S → S → Prop} {xs : List X} {s s' : S}
    (h : Turns step xs s s') (hrefl : ∀ a, T a a) (htrans : ∀ {a b c}, T a b → T b c → T a c)
    (hstep : ∀ x ∈ xs, ∀ a b, step x a b → I a → I b ∧ T a b) (hs : I s) : I s' ∧ T s s' := by
  induction h with
  | nil s => exact ⟨hs, hrefl s⟩
  | @cons x xs a b c hx _ ih =>
      obtain ⟨hb, hab⟩ := hstep x (List.mem_cons_self ..) a b hx hs
      obtain ⟨hc, hbc⟩ := ih (fun y hy => hstep y (List.mem_cons_of_mem _ hy)) hb
      exact ⟨hc, htrans hab hbc⟩

theorem append {xs ys : List X} {a b c : S} (h : Turns step xs a b) (h' : Turns step ys b c) :
    Turns step (xs ++ ys) a c := by
  induction h with
  | nil s => exact h'
  | cons hx _ ih => exact .cons hx (ih h')

/-- Call `x` is one of the calls `xs` from `s`, and begins in state `t`. -/
def Begins (step : X → S → S → Prop) (xs : List X) (s : S) (x : X) (t : S) : Prop :=
  ∃ ys zs, xs = ys ++ x :: zs ∧ Turns step ys s t

theorem Begins.append {xs ys : List X} {s t : S} {x : X} (h : Begins step xs s x t) :
    Begins step (xs ++ ys) s x t := by
  obtain ⟨before, after, rfl, hbefore⟩ := h
  exact ⟨before, after ++ ys, by simp, hbefore⟩

end Turns

end Vivac.Lib
