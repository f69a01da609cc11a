import Vivac.Lib.SessionRules

/-!
# Contracts of sessions

`sessionContract Inv T`: every command keeps `Inv`, is a `T`-step of the world, and
leaves the other sessions alone. What a session may rely on is then `Undisturbed` and
`T`. Only the part about `Inv` and `T` is left to prove for a command
(`Triple.command`); the frame is the platform's.
-/

set_option autoImplicit false

namespace Vivac.Lib

variable {ι D K Ch V ε α β : Type} [DecidableEq ι] [DecidableEq K] [Faults ε]

/-- Every session keeps `Inv`, moves the world by `T` and leaves the others alone. -/
def sessionContract (Inv : World ι D K Ch V → Prop)
    (T : World ι D K Ch V → World ι D K Ch V → Prop) : Contract ι (World ι D K Ch V) where
  Inv := Inv
  R j s s' := Undisturbed j s s' ∧ T s s'
  G i s s' := T s s' ∧ ∀ j, j ≠ i → Undisturbed j s s'

/-- `T` is a preorder, and the environment keeps `Inv` and moves by `T`. -/
structure SharedStep (Inv : World ι D K Ch V → Prop)
    (T : World ι D K Ch V → World ι D K Ch V → Prop) : Prop where
  refl : ∀ s, T s s
  trans : ∀ {a b c}, T a b → T b c → T a c
  env : ∀ {s s'}, Env s s' → Inv s → Inv s' ∧ T s s'

variable {Inv : World ι D K Ch V → Prop} {T : World ι D K Ch V → World ι D K Ch V → Prop}
  {ok : ι → World ι D K Ch V → World ι D K Ch V → Prop}

/-- The sessions of the platform, restricted to the steps that meet `ok`. -/
abbrev sessions (ok : ι → World ι D K Ch V → World ι D K Ch V → Prop) :
    System ι ε (Cmd D K Ch V ε) (World ι D K Ch V) := platform.guarded ok

theorem sessionContract_fits (h : SharedStep Inv T) :
    (sessionContract Inv T).Fits
    (sessions ok : System ι ε (Cmd D K Ch V ε) (World ι D K Ch V)) where
  rely_refl i s := ⟨.refl i s, h.refl s⟩
  rely_trans _ _ _ _ hab hbc := ⟨hab.1.trans hbc.1, h.trans hab.2 hbc.2⟩
  guar_rely hij _ _ _ hg := ⟨hg.2 _ (Ne.symm hij), hg.1⟩
  env_inv henv hi := (h.env henv hi).1
  env_rely j _ _ henv hi := ⟨Env.undisturbed henv j, (h.env henv hi).2⟩

/-- One command: what is left to prove is that it keeps `Inv`, moves by `T`, and
establishes its postcondition. -/
theorem Triple.command {i : ι} {c : Cmd D K Ch V ε β} {P : World ι D K Ch V → Prop}
    {M : Except ε β → World ι D K Ch V → Prop} (hP : Stable (sessionContract Inv T) i P)
    (hM : ∀ r, Stable (sessionContract Inv T) i (M r))
    (hstep : ∀ s r s', Inv s → P s → exec i c s = some (r, s') → ok i s s' →
      Inv s' ∧ T s s' ∧ M r s') :
    Triple (sessions ok) (sessionContract Inv T) i P (Prog.perform c) M := by
  refine Triple.perform hP hM fun s r s' hi hp hs => ?_
  obtain ⟨hexec, hok⟩ := hs
  obtain ⟨hinv, hT, hm⟩ := hstep s r s' hi hp hexec hok
  exact ⟨hinv, ⟨hT, fun j hj => exec_undisturbed hj hexec⟩, hm⟩

/-- An assertion that every statement keeps is kept by a program of statements. -/
theorem Triple.sqlOnly {i : ι} {P : World ι D K Ch V → Prop} {p : Prog ε (Cmd D K Ch V ε) α}
    (h : SqlOnly p) (hP : Stable (sessionContract Inv T) i P)
    (hsql : ∀ {R : Type} (st : Stmt D K Ch ε R) s r s', Inv s → P s →
      exec i (.sql st) s = some (r, s') → ok i s s' → Inv s' ∧ T s s' ∧ P s') :
    Triple (sessions ok) (sessionContract Inv T) i P p fun _ => P := by
  induction h with
  | ret a => exact fun s _ hp s' hi hr => hP s s' hi hr hp
  | raise e => exact fun s _ hp s' hi hr => hP s s' hi hr hp
  | sql st k _ ih =>
    refine Triple.call (fun _ => P) hP (fun s r s' hi hp hs => ?_) ih
    obtain ⟨hexec, hok⟩ := hs
    obtain ⟨hinv, hT, hp'⟩ := hsql st s r s' hi hp hexec hok
    exact ⟨hinv, ⟨hT, fun j hj => exec_undisturbed hj hexec⟩, hp'⟩

/-- An assertion that every `SELECT` keeps is kept by a program of `SELECT`s. -/
theorem Triple.readOnly {i : ι} {P : World ι D K Ch V → Prop} {p : Prog ε (Cmd D K Ch V ε) α}
    (h : ReadOnly p) (hP : Stable (sessionContract Inv T) i P)
    (hread : ∀ {R : Type} (f : D → R) s (r : Except ε R) s', Inv s → P s →
      exec i (.sql (Stmt.read f)) s = some (r, s') → ok i s s' → Inv s' ∧ T s s' ∧ P s') :
    Triple (sessions ok) (sessionContract Inv T) i P p fun _ => P := by
  induction h with
  | ret a => exact fun s _ hp s' hi hr => hP s s' hi hr hp
  | raise e => exact fun s _ hp s' hi hr => hP s s' hi hr hp
  | read f k _ ih =>
    refine Triple.call (fun _ => P) hP (fun s r s' hi hp hs => ?_) ih
    obtain ⟨hexec, hok⟩ := hs
    obtain ⟨hinv, hT, hp'⟩ := hread f s r s' hi hp hexec hok
    exact ⟨hinv, ⟨hT, fun j hj => exec_undisturbed hj hexec⟩, hp'⟩

/-- A contract that is met is met under a stronger invariant too, when every step that is
allowed keeps it. -/
theorem Meets.strengthen {i : ι} {Inv' : World ι D K Ch V → Prop} (hinv : ∀ s, Inv' s → Inv s)
    (hkeeps : ∀ {β : Type} (c : Cmd D K Ch V ε β) s r s', Inv' s → exec i c s = some (r, s') →
      ok i s s' → Inv s' → T s s' → Inv' s')
    {Q : Except ε α → World ι D K Ch V → Prop} :
    ∀ {p : Prog ε (Cmd D K Ch V ε) α} {s : World ι D K Ch V},
      Meets (sessions ok) (sessionContract Inv T) i Q p s →
      Meets (sessions ok) (sessionContract Inv' T) i Q p s
  | .ret _, _, h => fun s' hi hr => h s' (hinv s' hi) hr
  | .raise _, _, h => fun s' hi hr => h s' (hinv s' hi) hr
  | .call c _, _, h => fun s' hi hr r s'' hstep =>
    let ⟨hi', hg, hk⟩ := h s' (hinv s' hi) hr r s'' hstep
    ⟨hkeeps c s' r s'' hi hstep.1 hstep.2 hi' hg.1, hg, hk.strengthen hinv hkeeps⟩

/-- At a thread's last rollback its postcondition is at hand. -/
theorem Meets.of_rollback {i : ι} {M : α → World ι D K Ch V → Prop} {a : α}
    {s : World ι D K Ch V} (h : SharedStep Inv T) (hok : ok i s (endTx i (s.log i .rollback)))
    (hi : Inv s) {k : Except ε Unit → Prog ε (Cmd D K Ch V ε) α} (hk : k (.ok ()) = .ret a)
    (hm : Meets (sessions ok) (sessionContract Inv T) i (Returns M) (.call .rollback k) s) :
    M a (endTx i (s.log i .rollback)) := by
  have hexec : exec i .rollback s = some ((.ok () : Except ε Unit), endTx i (s.log i .rollback)) :=
    rfl
  obtain ⟨hinv, -, hdone⟩ := hm s hi ⟨.refl i s, h.refl s⟩ _ _ ⟨hexec, hok⟩
  rw [hk] at hdone
  exact hdone _ hinv ⟨.refl i _, h.refl _⟩

end Vivac.Lib
