import Mathlib.Logic.Relation

/-!
# Programs over atomic commands

A program is a finite-depth interaction tree: it returns a value, raises an
exception, or issues one command and continues with the command's answer, which
is a value or an exception. Everything between two commands is pure, so the
commands are exactly the points at which other programs can interleave.

`Prog` is a monad whose `bind` stops at a raised exception. `attempt` turns the
outcome of a program into a value; `tryCatch` is defined from it.
-/

set_option autoImplicit false

namespace Vivac.Lib

universe u

/-- A program over the commands `C` with exceptions `ε` and result `α`. -/
inductive Prog (ε : Type) (C : Type → Type 1) (α : Type) : Type 1 where
  | ret (a : α) : Prog ε C α
  | raise (e : ε) : Prog ε C α
  | call {β : Type} (c : C β) (k : Except ε β → Prog ε C α) : Prog ε C α

namespace Prog

variable {ε : Type} {C : Type → Type 1} {α β γ : Type}

/-- Sequencing: the continuation runs on the returned value, exceptions pass through. -/
def bind : Prog ε C α → (α → Prog ε C β) → Prog ε C β
  | .ret a, f => f a
  | .raise e, _ => .raise e
  | .call c k, f => .call c fun r => (k r).bind f

instance : Monad (Prog ε C) where
  pure := .ret
  bind := Prog.bind

/-- The program of a finished outcome. -/
def ofExcept : Except ε α → Prog ε C α
  | .ok a => .ret a
  | .error e => .raise e

/-- How a program that has ended has ended. -/
def outcome : Prog ε C α → Option (Except ε α)
  | .ret a => some (.ok a)
  | .raise e => some (.error e)
  | .call _ _ => none

/-- Issue one command and return its answer. -/
def perform (c : C β) : Prog ε C β := .call c ofExcept

/-- Run a program and return its outcome as a value. -/
def attempt : Prog ε C α → Prog ε C (Except ε α)
  | .ret a => .ret (.ok a)
  | .raise e => .ret (.error e)
  | .call c k => .call c fun r => (k r).attempt

/-- Run a program and return its outcome, and whether a command that is marked has been issued, by
it or before it. -/
def attemptNoting (marked : ∀ {β : Type}, C β → Bool) :
    Bool → Prog ε C α → Prog ε C (Except ε α × Bool)
  | noted, .ret a => .ret (.ok a, noted)
  | noted, .raise e => .ret (.error e, noted)
  | noted, .call c k => .call c fun r => (k r).attemptNoting marked (noted || marked c)

/-- `try: p  except e: h e`. The handler re-raises what it does not handle. -/
def tryCatch (p : Prog ε C α) (h : ε → Prog ε C α) : Prog ε C α :=
  p.attempt.bind fun
    | .ok a => .ret a
    | .error e => h e

/-- Every command the program may issue, whatever the answers, meets `ok`. -/
def Uses (ok : ∀ {β : Type}, C β → Prop) : Prog ε C α → Prop
  | .ret _ => True
  | .raise _ => True
  | .call c k => ok c ∧ ∀ r, (k r).Uses ok

/-- An exception of a command that is not `ordinary` ends the program as it is, and the program
raises only ordinary ones itself. -/
def Propagates (ordinary : ε → Prop) : Prog ε C α → Prop
  | .ret _ => True
  | .raise e => ordinary e
  | .call _ k => ∀ r, (∀ e, r = .error e → ¬ordinary e → k r = .raise e) ∧
      ((∀ e, r = .error e → ordinary e) → (k r).Propagates ordinary)

/-- With some answers to its commands the program returns the value. -/
def MayReturn : Prog ε C α → α → Prop
  | .ret a, b => a = b
  | .raise _, _ => False
  | .call _ k, b => ∃ r, (k r).MayReturn b

/-- `q` is what is left of `p` after its next command. -/
def Next (q p : Prog ε C α) : Prop := ∃ (β : Type) (c : C β) (k : Except ε β → Prog ε C α) (r : _),
  p = .call c k ∧ q = k r

@[simp] theorem bind_ret (a : α) (f : α → Prog ε C β) : (ret a).bind f = f a := rfl

@[simp] theorem bind_raise (e : ε) (f : α → Prog ε C β) : (raise e).bind f = raise e := rfl

@[simp] theorem bind_call (c : C γ) (k : Except ε γ → Prog ε C α) (f : α → Prog ε C β) :
    (call c k).bind f = call c fun r => (k r).bind f := rfl

@[simp] theorem pure_eq_ret (a : α) : (pure a : Prog ε C α) = ret a := rfl

@[simp] theorem bind_eq_bind (p : Prog ε C α) (f : α → Prog ε C β) : (p >>= f) = p.bind f := rfl

theorem bind_assoc (p : Prog ε C α) (f : α → Prog ε C β) (g : β → Prog ε C γ) :
    (p.bind f).bind g = p.bind fun a => (f a).bind g := by
  induction p with
  | ret a => rfl
  | raise e => rfl
  | call c k ih =>
    simp only [bind_call]
    exact congrArg (call c) (funext ih)

theorem bind_congr {p : Prog ε C α} {f g : α → Prog ε C β} (h : ∀ a, f a = g a) :
    p.bind f = p.bind g := congrArg p.bind (funext h)

theorem bind_ret_right (p : Prog ε C α) : p.bind ret = p := by
  induction p with
  | ret a => rfl
  | raise e => rfl
  | call c k ih =>
    simp only [bind_call]
    exact congrArg (call c) (funext ih)

theorem outcome_eq_some {p : Prog ε C α} {r : Except ε α} :
    p.outcome = some r ↔ p = ofExcept r := by
  constructor
  · intro h
    cases p with
    | ret a =>
      cases h
      rfl
    | raise e =>
      cases h
      rfl
    | call c k => cases h
  · rintro rfl
    cases r <;> rfl

/-- A command whose exceptions end the program is a command in sequence with the rest. -/
theorem call_eq_bind {c : C β} {k : Except ε β → Prog ε C α}
    (hk : ∀ e, k (.error e) = raise e) : call c k = (perform c).bind fun b => k (.ok b) := by
  refine congrArg (call c) (funext fun r => ?_)
  cases r with
  | ok b => rfl
  | error e => exact hk e

/-- A sequence under `attempt` starts with its first part. -/
theorem attempt_bind (p : Prog ε C α) (f : α → Prog ε C β) :
    (p.bind f).attempt = p.attempt.bind fun r => ((ofExcept r).bind f).attempt := by
  induction p with
  | ret a => rfl
  | raise e => rfl
  | call c k ih =>
    simp only [bind_call, attempt]
    exact congrArg (call c) (funext ih)

theorem attempt_bind_ofExcept (p : Prog ε C α) : p.attempt.bind ofExcept = p := by
  induction p with
  | ret a => rfl
  | raise e => rfl
  | call c k ih =>
    simp only [attempt, bind_call]
    exact congrArg (call c) (funext ih)

section Uses

variable {ok : ∀ {β : Type}, C β → Prop}

theorem Uses.mono {ok' : ∀ {β : Type}, C β → Prop} {p : Prog ε C α} (hp : p.Uses ok)
    (h : ∀ {β : Type} (c : C β), ok c → ok' c) : p.Uses ok' := by
  induction p with
  | ret a => trivial
  | raise e => trivial
  | call c k ih => exact ⟨h c hp.1, fun r => ih r (hp.2 r)⟩

theorem Uses.bind {p : Prog ε C α} {f : α → Prog ε C β} (hp : p.Uses ok)
    (hf : ∀ a, (f a).Uses ok) : (p.bind f).Uses ok := by
  induction p with
  | ret a => exact hf a
  | raise e => trivial
  | call c k ih => exact ⟨hp.1, fun r => ih r (hp.2 r)⟩

theorem Uses.attempt {p : Prog ε C α} (hp : p.Uses ok) : p.attempt.Uses ok := by
  induction p with
  | ret a => trivial
  | raise e => trivial
  | call c k ih => exact ⟨hp.1, fun r => ih r (hp.2 r)⟩

/-- Nothing is noted of a program that issues no marked command. -/
theorem attemptNoting_eq {marked : ∀ {β : Type}, C β → Bool} {noted : Bool} {p : Prog ε C α}
    (hp : p.Uses fun c => marked c = false) :
    p.attemptNoting marked noted = p.attempt.bind fun r => .ret (r, noted) := by
  induction p with
  | ret a => rfl
  | raise e => rfl
  | call c k ih =>
    have hnoted : (noted || marked c) = noted := by rw [hp.1, Bool.or_false]
    simp only [attemptNoting, attempt, bind_call, hnoted]
    exact congrArg (call c) (funext fun r => ih r (hp.2 r))

theorem uses_ofExcept (r : Except ε α) : (ofExcept r : Prog ε C α).Uses ok := by
  cases r <;> trivial

theorem uses_perform {c : C β} (h : ok c) : (perform c : Prog ε C β).Uses ok :=
  ⟨h, uses_ofExcept⟩

theorem Uses.tryCatch {p : Prog ε C α} {h : ε → Prog ε C α} (hp : p.Uses ok)
    (hh : ∀ e, (h e).Uses ok) : (p.tryCatch h).Uses ok := by
  apply hp.attempt.bind
  intro r
  cases r with
  | ok a => trivial
  | error e => exact hh e

end Uses

section Propagates

variable {ordinary : ε → Prop}

theorem Propagates.bind {p : Prog ε C α} {f : α → Prog ε C β} (hp : p.Propagates ordinary)
    (hf : ∀ a, (f a).Propagates ordinary) : (p.bind f).Propagates ordinary := by
  induction p with
  | ret a => exact hf a
  | raise e => exact hp
  | call c k ih =>
    intro r
    refine ⟨fun e he hnot => ?_, fun hr => ih r ((hp r).2 hr)⟩
    dsimp only
    rw [(hp r).1 e he hnot]
    rfl

/-- A construct that looks at the outcome of its part and hands on what is not ordinary. -/
theorem Propagates.attempt_bind {p : Prog ε C α} {f : Except ε α → Prog ε C β}
    (hp : p.Propagates ordinary)
    (hf : ∀ r, (∀ e, r = .error e → ordinary e) → (f r).Propagates ordinary)
    (hraise : ∀ e, ¬ordinary e → f (.error e) = .raise e) :
    (p.attempt.bind f).Propagates ordinary := by
  induction p with
  | ret a =>
    apply hf
    intro e he
    cases he
  | raise e =>
    apply hf
    intro e' he
    cases he
    exact hp
  | call c k ih =>
    intro r
    refine ⟨fun e he hnot => ?_, fun hr => ih r ((hp r).2 hr)⟩
    dsimp only
    rw [(hp r).1 e he hnot]
    exact hraise e hnot

theorem propagates_ofExcept {r : Except ε α} (h : ∀ e, r = .error e → ordinary e) :
    (ofExcept r : Prog ε C α).Propagates ordinary := by
  cases r with
  | ok a => trivial
  | error e => exact h e rfl

theorem propagates_perform (c : C β) : (perform c : Prog ε C β).Propagates ordinary := by
  intro r
  refine ⟨fun e he _ => ?_, propagates_ofExcept⟩
  rw [he]
  rfl

end Propagates

theorem mayReturn_bind {p : Prog ε C α} {f : α → Prog ε C β} {b : β} :
    (p.bind f).MayReturn b ↔ ∃ a, p.MayReturn a ∧ (f a).MayReturn b := by
  induction p with
  | ret a =>
    constructor
    · exact fun h => ⟨a, rfl, h⟩
    · rintro ⟨_, rfl, h⟩
      exact h
  | raise e =>
    constructor
    · exact fun h => h.elim
    · exact fun ⟨_, h, _⟩ => h.elim
  | call c k ih =>
    constructor
    · rintro ⟨r, h⟩
      obtain ⟨a, ha, hb⟩ := (ih r).1 h
      exact ⟨a, ⟨r, ha⟩, hb⟩
    · rintro ⟨a, ⟨r, ha⟩, hb⟩
      exact ⟨r, (ih r).2 ⟨a, ha, hb⟩⟩

/-- A program is never again what it was. -/
theorem wellFounded_next : WellFounded (Next : Prog ε C α → Prog ε C α → Prop) := by
  refine ⟨fun p => ?_⟩
  induction p with
  | ret a =>
    refine ⟨_, fun q h => ?_⟩
    obtain ⟨β, c, k, r, hp, -⟩ := h
    cases hp
  | raise e =>
    refine ⟨_, fun q h => ?_⟩
    obtain ⟨β, c, k, r, hp, -⟩ := h
    cases hp
  | call c k ih =>
    refine ⟨_, fun q h => ?_⟩
    obtain ⟨β, c', k', r, hp, rfl⟩ := h
    cases hp
    exact ih r

end Prog

end Vivac.Lib
