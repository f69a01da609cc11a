import Vivac.Lib.Faults
import Vivac.Lib.Processes
import Vivac.Lib.RowLocks

/-!
# Pools whose commands go wrong

A fault of one session leaves the others alone, keeps the locks, and publishes nothing but
the session's own work.
-/

set_option autoImplicit false

namespace Vivac.Lib

variable {ι D K Ch V ε ρ β : Type} [DecidableEq ι] [DecidableEq K] [Faults ε]
  {ordinary atStore : ε → Prop} {i j : ι} {s s' : World ι D K Ch V}

omit [Faults ε] in
/-- A lost connection is a step the environment could have taken. -/
theorem env_disconnect (i : ι) : Env s (s.disconnect i) := .lose i

omit [DecidableEq K] in
theorem setStatus_undisturbed (hj : j ≠ i) (status : TxStatus) :
    Undisturbed j s (s.setStatus i status) :=
  ⟨⟨[], by simp [World.setStatus, World.setTx], by simp⟩, rfl, rfl,
    .inl ⟨Function.update_of_ne hj _ _, fun _ h => h⟩⟩

theorem Fault.undisturbed {c : Cmd D K Ch V ε β} {r : Except ε β}
    (h : Fault ordinary atStore i c s r s') (hj : j ≠ i) : Undisturbed j s s' := by
  cases h with
  | client _ => exact .refl j s
  | server _ _ _ => exact setStatus_undisturbed hj .failed
  | connection _ => exact (env_disconnect i).undisturbed j
  | committed hactive =>
    have hcommit : exec i (.commit : Cmd D K Ch V ε Unit) s =
        some (.ok (), execCommit i s (s.tx i)) := by
      simp only [exec, hactive]
    exact (exec_undisturbed hj hcommit).trans ((env_disconnect i).undisturbed j)
  | store _ _ => exact .refl j s
  | stored _ _ hexec => exact exec_undisturbed hj hexec

theorem framed_faulty :
    Framed (faulty ordinary atStore : System ι ε (Cmd D K Ch V ε) (World ι D K Ch V)) where
  others h hj := h.elim (exec_undisturbed hj) fun hfault => hfault.undisturbed hj
  env h := h

/-- A command, well or not, publishes nothing, or the pending work of its session. -/
theorem faulty_db_cases {c : Cmd D K Ch V ε β} {r : Except ε β}
    (h : (faulty ordinary atStore).step i c s r s') :
    (s'.db = s.db ∧ s'.commits i = s.commits i) ∨
    ((s.tx i).status = .active ∧ s'.db = (s.tx i).work.write s.db ∧
      s'.commits i = s.commits i ++ [(s.tx i).work.changes] ∧
      (s'.tx i = {} ∨ s'.tx i = { status := .lost })) := by
  have hexec : ∀ {β : Type} {c : Cmd D K Ch V ε β} {r : Except ε β},
      exec i c s = some (r, s') → (s'.db = s.db ∧ s'.commits i = s.commits i) ∨
      ((s.tx i).status = .active ∧ s'.db = (s.tx i).work.write s.db ∧
        s'.commits i = s.commits i ++ [(s.tx i).work.changes] ∧
        (s'.tx i = {} ∨ s'.tx i = { status := .lost })) := by
    intro β c r h
    rcases exec_db_cases h with hquiet | ⟨hactive, rfl⟩
    · exact .inl hquiet
    · exact .inr ⟨hactive, rfl, commits_execCommit, .inl (Function.update_self ..)⟩
  rcases h with hran | hfault
  · exact hexec hran
  · cases hfault with
    | client _ => exact .inl ⟨rfl, rfl⟩
    | server _ _ _ => exact .inl ⟨rfl, rfl⟩
    | connection _ => exact .inl ⟨rfl, rfl⟩
    | committed hactive =>
      exact .inr ⟨hactive, rfl, commits_execCommit, .inr (Function.update_self ..)⟩
    | store _ _ => exact .inl ⟨rfl, rfl⟩
    | stored _ _ hran => exact hexec hran

variable {row : K → D → ρ}

omit [DecidableEq K] in
theorem LocksHold.setStatus (h : LocksHold row s) (status : TxStatus) :
    LocksHold row (s.setStatus i status) :=
  h.setTx (by exact h.held i) (by exact h.nested i) (by exact h.confined i)

theorem locking_faulty :
    Locking row (faulty ordinary atStore : System ι ε (Cmd D K Ch V ε) (World ι D K Ch V)) where
  toFramed := framed_faulty
  locks {i β c s r s'} h hc hl := by
    have hrows : ∀ j, j ≠ i → KeepsRows row j s s' := by
      intro j hj
      refine .inr fun k hk => ?_
      rcases faulty_db_cases h with ⟨hdb, -⟩ | ⟨-, hdb, -⟩
      · rw [hdb]
      · rw [hdb]
        apply hl.confined i _ (List.mem_cons_self ..)
        intro hmem
        have hi := hl.held i k hmem
        rw [hk] at hi
        exact hj (Option.some.inj hi)
    refine ⟨?_, hrows⟩
    rcases h with hran | hfault
    · exact hl.of_exec hc hran
    · cases hfault with
      | client _ => exact hl
      | server _ _ _ => exact hl.setStatus .failed
      | connection _ => exact hl.of_env (env_disconnect i)
      | committed hactive =>
        have hcommit : exec i (.commit : Cmd D K Ch V ε Unit) s =
            some (.ok (), execCommit i s (s.tx i)) := by
          simp only [exec, hactive]
        exact (hl.of_exec hc hcommit).of_env (env_disconnect i)
      | store _ _ => exact hl
      | stored _ _ hran => exact hl.of_exec hc hran

/-- The run of a schedule of processes in which nothing goes wrong. -/
theorem moves_of_schedule {Φ : Type} {program : ι → ℕ → Φ → Prog ε (Cmd D K Ch V ε) Φ}
    {is : List ι} {p p' : Pool ι Φ ε (Cmd D K Ch V ε) (World ι D K Ch V)}
    (h : p.follow (fun i => exec i) program is = some p') :
    Moves (faulty ordinary atStore) program p p' :=
  Pool.moves_of_follow (fun _ _ _ _ _ _ hran => Or.inl hran) h

/-- The run of a schedule all of whose commands meet a condition. -/
theorem guarded_moves_of_schedule {Φ : Type} {program : ι → ℕ → Φ → Prog ε (Cmd D K Ch V ε) Φ}
    {ok : ι → World ι D K Ch V → World ι D K Ch V → Prop} [∀ i s s', Decidable (ok i s s')]
    {is : List ι} {p p' : Pool ι Φ ε (Cmd D K Ch V ε) (World ι D K Ch V)}
    (h : p.follow (guardExec (fun i => exec i) ok) program is = some p') :
    Moves ((faulty ordinary atStore).guarded ok) program p p' := by
  apply Pool.moves_of_follow _ h
  intro i β c s r s' hran
  obtain ⟨hexec, hok⟩ := guardExec_eq_some hran
  exact ⟨.inl hexec, hok⟩

end Vivac.Lib
