import Mathlib.Data.Nat.Notation
import Vivac.Lib.Program

/-!
# Commands that are not answered

Some commands of a program are marked, as those of one server. `Prog.failing` is the program with
outages: its marked command number `n` raises what `fails n` says, and is not issued. What fails is
fixed beforehand, and may be anything; so whatever fails in a run is one of these choices.
-/

set_option autoImplicit false

namespace Vivac.Lib

namespace Prog

variable {ε : Type} {C : Type → Type 1} {α β : Type} (marked : ∀ {γ : Type}, C γ → Bool)

/-- The program, where its marked commands fail as `fails` says. -/
def failing : Prog ε C α → (ℕ → Option ε) → Prog ε C α
  | .ret a, _ => .ret a
  | .raise e, _ => .raise e
  | .call c k, fails =>
    if marked c then
      match fails 0 with
      | some e => (k (.error e)).failing fun n => fails (n + 1)
      | none => .call c fun r => (k r).failing fun n => fails (n + 1)
    else .call c fun r => (k r).failing fails

/-- Only the first command is marked. -/
def StartsMarked : Prog ε C α → Prop
  | .call c k => marked c = true ∧ ∀ r, (k r).Uses fun c => marked c = false
  | _ => False

/-- The rest of a program whose first command raises `e`. -/
def afterError : Prog ε C α → ε → Prog ε C α
  | .call _ k, e => k (.error e)
  | p, _ => p

variable {marked} {fails : ℕ → Option ε}

/-- A program whose commands are all answered. -/
theorem failing_of_none {p : Prog ε C α} (h : ∀ n, fails n = none) :
    p.failing marked fails = p := by
  induction p generalizing fails with
  | ret a => rfl
  | raise e => rfl
  | call c k ih =>
      unfold failing
      rw [h 0]
      split
      · exact congrArg (call c) (funext fun r => ih r fun n => h (n + 1))
      · exact congrArg (call c) (funext fun r => ih r h)

/-- With outages a program issues no other commands than without. -/
theorem Uses.failing {ok : ∀ {γ : Type}, C γ → Prop} {p : Prog ε C α} (hp : p.Uses ok) :
    (p.failing marked fails).Uses ok := by
  induction p generalizing fails with
  | ret a => trivial
  | raise e => trivial
  | call c k ih =>
      unfold Prog.failing
      split
      · split
        · exact ih _ (hp.2 _)
        · exact ⟨hp.1, fun r => ih r (hp.2 r)⟩
      · exact ⟨hp.1, fun r => ih r (hp.2 r)⟩

theorem startsMarked_perform {c : C α} (h : marked c = true) :
    (perform c : Prog ε C α).StartsMarked marked := ⟨h, uses_ofExcept⟩

theorem StartsMarked.bind {p : Prog ε C α} {f : α → Prog ε C β} (hp : p.StartsMarked marked)
    (hf : ∀ a, (f a).Uses fun c => marked c = false) : (p.bind f).StartsMarked marked := by
  cases p with
  | ret a => exact hp.elim
  | raise e => exact hp.elim
  | call c k => exact ⟨hp.1, fun r => (hp.2 r).bind hf⟩

theorem StartsMarked.tryCatch {p : Prog ε C α} {h : ε → Prog ε C α} (hp : p.StartsMarked marked)
    (hh : ∀ e, (h e).Uses fun c => marked c = false) : (p.tryCatch h).StartsMarked marked := by
  cases p with
  | ret a => exact hp.elim
  | raise e => exact hp.elim
  | call c k => exact ⟨hp.1, fun r => (hp.2 r).tryCatch hh⟩

/-- A part without marked commands is as it was. -/
theorem failing_bind_of_unmarked {p : Prog ε C α} {f : α → Prog ε C β}
    (hp : p.Uses fun c => marked c = false) :
    (p.bind f).failing marked fails = p.bind fun a => (f a).failing marked fails := by
  induction p with
  | ret a => rfl
  | raise e => rfl
  | call c k ih =>
      simp only [bind_call, failing, hp.1, Bool.false_eq_true, if_false]
      exact congrArg (call c) (funext fun r => ih r (hp.2 r))

/-- A part that starts with its marked command, when this fails. -/
theorem failing_bind_of_some {p : Prog ε C α} {f : α → Prog ε C β} {e : ε}
    (hp : p.StartsMarked marked) (h : fails 0 = some e) :
    (p.bind f).failing marked fails =
      (p.afterError e).bind fun a => (f a).failing marked fun n => fails (n + 1) := by
  cases p with
  | ret a => exact hp.elim
  | raise e => exact hp.elim
  | call c k =>
      simp only [bind_call, failing, hp.1, if_true, h]
      exact failing_bind_of_unmarked (hp.2 _)

/-- A part that starts with its marked command, when this is answered. -/
theorem failing_bind_of_answered {p : Prog ε C α} {f : α → Prog ε C β}
    (hp : p.StartsMarked marked) (h : fails 0 = none) :
    (p.bind f).failing marked fails =
      p.bind fun a => (f a).failing marked fun n => fails (n + 1) := by
  cases p with
  | ret a => exact hp.elim
  | raise e => exact hp.elim
  | call c k =>
      simp only [bind_call, failing, hp.1, if_true, h]
      exact congrArg (call c) (funext fun r => failing_bind_of_unmarked (hp.2 r))

end Prog

end Vivac.Lib
