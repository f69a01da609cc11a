import Vivac.Lib.RelyGuarantee

/-!
# Processes that go through phases

A process runs the program of its phase, which returns the next phase; a raised exception ends
the process. `Moves` are the runs of any number of processes, interleaved command by command,
with the phases entered so far as a history. A process that crashes is one that moves no
further, and one that starts anew is another process.

`Moves.allMeet` carries the contracts of the programs through any number of phases: what holds
when a process enters a phase may depend on the phases it went through before.
-/

set_option autoImplicit false

namespace Vivac.Lib

variable {ι Φ ε : Type} {C : Type → Type 1} {S : Type}

/-- The processes, and the phases they have entered, in order. -/
structure Pool (ι Φ ε : Type) (C : Type → Type 1) (S : Type) where
  config : Config ι ε C S Φ
  turns : List (ι × Φ)

/-- The phases that process `i` has entered. -/
def ownTurns [DecidableEq ι] (i : ι) (turns : List (ι × Φ)) : List Φ :=
  turns.filterMap fun turn => if turn.1 = i then some turn.2 else none

variable [DecidableEq ι]

/-- A command of a process, a step of the environment, or a process entering its next phase. The
program of a phase may depend on the process and on how many turns there were. -/
inductive Move (sys : System ι ε C S) (program : ι → ℕ → Φ → Prog ε C Φ) :
    Pool ι Φ ε C S → Pool ι Φ ε C S → Prop
  | step {p : Pool ι Φ ε C S} {c : Config ι ε C S Φ} (h : Step sys p.config c) :
      Move sys program p ⟨c, p.turns⟩
  | turn {p : Pool ι Φ ε C S} (i : ι) (φ : Φ) (h : p.config.thread i = .ret φ) :
      Move sys program p
        ⟨⟨p.config.state, Function.update p.config.thread i (program i p.turns.length φ)⟩,
          p.turns ++ [(i, φ)]⟩

/-- The runs of the processes. -/
abbrev Moves (sys : System ι ε C S) (program : ι → ℕ → Φ → Prog ε C Φ) :
    Pool ι Φ ε C S → Pool ι Φ ε C S → Prop := Relation.ReflTransGen (Move sys program)

/-- A move of a restricted system is one of the system. -/
theorem Move.of_guarded {sys : System ι ε C S} {ok : ι → S → S → Prop}
    {program : ι → ℕ → Φ → Prog ε C Φ} {p p' : Pool ι Φ ε C S}
    (h : Move (sys.guarded ok) program p p') : Move sys program p p' := by
  cases h with
  | step hstep => exact .step hstep.of_guarded
  | turn i φ hφ => exact .turn i φ hφ

theorem ownTurns_append_self (i : ι) (φ : Φ) (turns : List (ι × Φ)) :
    ownTurns i (turns ++ [(i, φ)]) = ownTurns i turns ++ [φ] := by
  simp [ownTurns]

theorem ownTurns_append_of_ne {i j : ι} (h : j ≠ i) (φ : Φ) (turns : List (ι × Φ)) :
    ownTurns j (turns ++ [(i, φ)]) = ownTurns j turns := by
  simp [ownTurns, Ne.symm h]

theorem mem_ownTurns {i : ι} {φ : Φ} {turns : List (ι × Φ)} :
    φ ∈ ownTurns i turns ↔ (i, φ) ∈ turns := by
  unfold ownTurns
  rw [List.mem_filterMap]
  constructor
  · rintro ⟨⟨j, ψ⟩, hmem, h⟩
    split at h
    · rename_i hj
      cases h
      cases hj
      exact hmem
    · cases h
  · intro hmem
    exact ⟨(i, φ), hmem, if_pos rfl⟩

section Contracts

variable {sys : System ι ε C S} {con : Contract ι S} {program : ι → ℕ → Φ → Prog ε C Φ}
  {P : ι → List Φ → Φ → S → Prop} {p p' : Pool ι Φ ε C S}

/-- Every process meets the contract of its phase: it returns a phase it may enter. -/
def PhasesMeet (sys : System ι ε C S) (con : Contract ι S) (P : ι → List Φ → Φ → S → Prop)
    (p : Pool ι Φ ε C S) : Prop :=
  AllMeet sys con (fun i => Returns (P i (ownTurns i p.turns))) p.config

/-- A process that has finished its phase may enter the next one. -/
theorem PhasesMeet.ready (hfit : con.Fits sys) (h : PhasesMeet sys con P p) {i : ι} {φ : Φ}
    (hφ : p.config.thread i = .ret φ) : P i (ownTurns i p.turns) φ p.config.state := by
  have hi := h.meets i
  rw [hφ] at hi
  exact hi.post_ok hfit h.inv

/-- One move keeps the contracts. -/
theorem PhasesMeet.move (hfit : con.Fits sys)
    (hprogram : ∀ i n before φ, Triple sys con i (P i before φ) (program i n φ)
      (Returns (P i (before ++ [φ]))))
    (h : PhasesMeet sys con P p) (hmove : Move sys program p p') : PhasesMeet sys con P p' := by
  cases hmove with
  | step hstep => exact AllMeet.step hfit hstep h
  | turn i φ hφ =>
    refine ⟨h.inv, fun j => ?_⟩
    by_cases hj : j = i
    · subst hj
      have hmeets := hprogram j p.turns.length _ φ _ h.inv (h.ready hfit hφ)
      simpa [ownTurns_append_self] using hmeets
    · simp only [Function.update_of_ne hj, ownTurns_append_of_ne hj]
      exact h.meets j

end Contracts

/-! ## Computed runs -/

section Schedule

variable (exec : ι → ∀ {β : Type}, C β → S → Option (Except ε β × S))
  (program : ι → ℕ → Φ → Prog ε C Φ)

/-- The next command of process `i`, or its next phase. -/
def Pool.advance (i : ι) (p : Pool ι Φ ε C S) : Option (Pool ι Φ ε C S) :=
  match p.config.thread i with
  | .ret φ =>
      some ⟨⟨p.config.state, Function.update p.config.thread i (program i p.turns.length φ)⟩,
      p.turns ++ [(i, φ)]⟩
  | _ => (Lib.advance exec i p.config).map fun c => ⟨c, p.turns⟩

/-- The run of a schedule: the processes of the list move once each, in order. -/
def Pool.follow : List ι → Pool ι Φ ε C S → Option (Pool ι Φ ε C S)
  | [], p => some p
  | i :: is, p => (p.advance exec program i).bind fun p' => p'.follow is

variable {exec program} {sys : System ι ε C S}

theorem Pool.move_of_advance (hsys : ∀ (i : ι) {β : Type} (c : C β) s r s',
      exec i c s = some (r, s') → sys.step i c s r s') {i : ι} {p p' : Pool ι Φ ε C S}
    (h : p.advance exec program i = some p') : Move sys program p p' := by
  unfold Pool.advance at h
  split at h
  · rename_i φ hφ
    cases h
    exact .turn i φ hφ
  · obtain ⟨c, hc, rfl⟩ := Option.map_eq_some_iff.1 h
    unfold Lib.advance at hc
    split at hc
    · rename_i cmd k hcall
      split at hc
      · rename_i r s' hexec
        cases hc
        exact .step (.thread i cmd k r hcall (hsys _ _ _ _ _ hexec))
      · cases hc
    · cases hc

/-- A computed run is a run. -/
theorem Pool.moves_of_follow (hsys : ∀ (i : ι) {β : Type} (c : C β) s r s',
      exec i c s = some (r, s') → sys.step i c s r s') {is : List ι} {p p' : Pool ι Φ ε C S}
    (h : p.follow exec program is = some p') : Moves sys program p p' := by
  induction is generalizing p with
  | nil =>
    cases h
    exact .refl
  | cons i is ih =>
    obtain ⟨p₁, hadv, hrest⟩ := Option.bind_eq_some_iff.1 h
    exact (ih hrest).head (Pool.move_of_advance hsys hadv)

end Schedule

end Vivac.Lib
