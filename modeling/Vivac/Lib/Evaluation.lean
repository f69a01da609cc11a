import Vivac.Lib.Platform

/-!
# Evaluating a program of statements on tables

`Evaluates p d out`: on a database that nobody else uses, the statements of `p` turn `d`
into `out`, an answer with the tables after it, or the exception that ends the program. It
says what a program means, apart from sessions; what a session makes of it, alone or under
faults, follows from it.
-/

set_option autoImplicit false

namespace Vivac.Lib

variable {D K Ch V ε R α β : Type}

/-- A statement on tables nobody else uses. -/
def Stmt.apply (st : Stmt D K Ch ε R) (d : D) : Except ε (R × D) :=
  (st (fun _ => false) d).map fun eff => (eff.result, eff.write d)

/-- A statement fails on its own as it does in a session. -/
theorem Stmt.error_of_apply {st : Stmt D K Ch ε R} {d : D} {e : ε} (h : st.apply d = .error e) :
    st (fun _ => false) d = .error e := by
  unfold Stmt.apply at h
  cases hst : st (fun _ => false) d with
  | ok eff =>
    rw [hst] at h
    cases h
  | error e' =>
    rw [hst] at h
    cases h
    rfl

/-- What a statement that goes through on its own does. -/
theorem Stmt.ok_of_apply {st : Stmt D K Ch ε R} {d d' : D} {a : R} (h : st.apply d = .ok (a, d')) :
    ∃ eff, st (fun _ => false) d = .ok eff ∧ eff.result = a ∧ eff.write d = d' := by
  unfold Stmt.apply at h
  cases hst : st (fun _ => false) d with
  | ok eff =>
    rw [hst] at h
    cases h
    exact ⟨eff, rfl, rfl, rfl⟩
  | error e =>
    rw [hst] at h
    cases h

/-- The meaning of a program of statements, which ends with the first that fails. -/
inductive Evaluates {α : Type} :
    Prog ε (Cmd D K Ch V ε) α → D → Except ε (α × D) → Prop
  | ret (a : α) (d : D) : Evaluates (.ret a) d (.ok (a, d))
  | raise (e : ε) (d : D) : Evaluates (.raise e) d (.error e)
  | sql {R : Type} {st : Stmt D K Ch ε R} {k : Except ε R → Prog ε (Cmd D K Ch V ε) α} {d d' : D}
      {a : R} {out : Except ε (α × D)} (hk : ∀ e, k (.error e) = .raise e)
      (hst : st.apply d = .ok (a, d')) (h : Evaluates (k (.ok a)) d' out) :
      Evaluates (.call (.sql st) k) d out
  | sql_error {R : Type} {st : Stmt D K Ch ε R} {k : Except ε R → Prog ε (Cmd D K Ch V ε) α} {d : D}
      {e : ε} (hk : ∀ e, k (.error e) = .raise e) (hst : st.apply d = .error e) :
      Evaluates (.call (.sql st) k) d (.error e)

namespace Evaluates

theorem bind {p : Prog ε (Cmd D K Ch V ε) β} {f : β → Prog ε (Cmd D K Ch V ε) α} {d : D}
    {out : Except ε (β × D)} {g : β × D → Except ε (α × D)} (hp : Evaluates p d out)
    (hf : ∀ b d', out = .ok (b, d') → Evaluates (f b) d' (g (b, d'))) :
    Evaluates (p.bind f) d (out.bind g) := by
  induction hp with
  | ret a d => exact hf a d rfl
  | raise e d => exact .raise e d
  | sql hk hst _ ih => exact .sql (fun e => by rw [hk]; rfl) hst (ih hf)
  | sql_error hk hst => exact .sql_error (fun e => by rw [hk]; rfl) hst

/-- A program that has answered, and the rest. -/
theorem bind_ok {p : Prog ε (Cmd D K Ch V ε) β} {f : β → Prog ε (Cmd D K Ch V ε) α} {d d' : D}
    {b : β} {out : Except ε (α × D)} (hp : Evaluates p d (.ok (b, d')))
    (hf : Evaluates (f b) d' out) :
    Evaluates (p.bind f) d out :=
  hp.bind (g := fun _ => out) fun _ _ h => by
    cases h
    exact hf

/-- A program that is refused ends there. -/
theorem bind_error {p : Prog ε (Cmd D K Ch V ε) β} {f : β → Prog ε (Cmd D K Ch V ε) α} {d : D}
    {e : ε} (hp : Evaluates p d (.error e)) : Evaluates (p.bind f) d (.error e) :=
  hp.bind (g := fun _ => .error e) fun _ _ h => by cases h

/-- What is computed without a command, and may be refused. -/
theorem ofExcept {r : Except ε β} {f : β → Prog ε (Cmd D K Ch V ε) α} {d : D}
    {g : β → Except ε (α × D)} (hf : ∀ b, r = .ok b → Evaluates (f b) d (g b)) :
    Evaluates ((Prog.ofExcept r).bind f) d (r.bind g) := by
  cases r with
  | ok b => exact hf b rfl
  | error e => exact .raise e d

theorem statement (st : Stmt D K Ch ε R) (d : D) :
    Evaluates (Prog.perform (.sql st) : Prog ε (Cmd D K Ch V ε) R) d (st.apply d) := by
  cases hst : st.apply d with
  | ok out => exact .sql (fun _ => rfl) hst (.ret _ _)
  | error e => exact .sql_error (fun _ => rfl) hst

/-- A `SELECT` and what follows on its answer. -/
theorem select {f : D → R} {k : R → Prog ε (Cmd D K Ch V ε) α} {d : D} {out : Except ε (α × D)}
    (h : Evaluates (k (f d)) d out) :
    Evaluates ((Prog.perform (.sql (Stmt.read f : Stmt D K Ch ε R))).bind k) d out :=
  (statement (Stmt.read f) d).bind (g := fun _ => out) fun _ _ he => by cases he; exact h

/-- A program means one thing. -/
theorem unique {p : Prog ε (Cmd D K Ch V ε) α} {d : D} {out out' : Except ε (α × D)}
    (h : Evaluates p d out) (h' : Evaluates p d out') : out = out' := by
  induction h with
  | ret a d =>
      cases h'
      rfl
  | raise e d =>
      cases h'
      rfl
  | sql hk hst _ ih =>
      cases h' with
      | sql hk' hst' hrest =>
          rw [hst] at hst'
          cases hst'
          exact ih hrest
      | sql_error hk' hst' =>
          rw [hst] at hst'
          cases hst'
  | sql_error hk hst =>
      cases h' with
      | sql hk' hst' hrest =>
          rw [hst] at hst'
          cases hst'
      | sql_error hk' hst' =>
          rw [hst] at hst'
          cases hst'
          rfl

end Evaluates

end Vivac.Lib
