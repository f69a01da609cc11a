import Vivac.Lib.Turns
import Vivac.Pipeline.SpotCalls

/-!
# Calls one after another

A call at a time, in the one session there is: each call runs to its end before the next begins.
Between two calls no transaction is open (`TimedCall.Serves.between`).
-/

set_option autoImplicit false

namespace Vivac

open Lib App

/-- A call and its time. -/
structure TimedCall where
  now : Timestamp
  call : SpotCall

namespace TimedCall

/-- The call runs to its end, with the outcome `r`. -/
def Serves (cfg : Settings) (be : Backend) (x : TimedCall) (r : Except Exc Unit)
    (s s' : State Unit) : Prop :=
  runAlone (fun i => exec i) () (x.call.program cfg be x.now) s = some (r, s')

/-- The call runs to its end. -/
def Served (cfg : Settings) (be : Backend) (x : TimedCall) (s s' : State Unit) : Prop :=
  ∃ r, x.Serves cfg be r s s'

/-- Calls at times that do not decrease. -/
def InTime (xs : List TimedCall) : Prop := xs.Pairwise fun x y => x.now ≤ y.now

end TimedCall

namespace TimedCall

variable {cfg : Settings} {be : Backend} {x : TimedCall} {r : Except Exc Unit} {s s' : State Unit}

/-- A call closes its sessions. -/
theorem Serves.between (h : x.Serves cfg be r s s') : Between s' := by
  obtain ⟨now, call⟩ := x
  cases call with
  | workerCycle newUid =>
      simp only [Serves, SpotCall.program, SpotCall.body] at h
      -- the cycle opens one session to claim a job, and one to process it
      have hcycle : ∀ out s₁, runAlone (fun i => exec i) () (runWorkerCycle cfg be now newUid) s =
          some (out, s₁) → Between s₁ := by
        intro out s₁ hrun
        unfold runWorkerCycle at hrun
        change runAlone _ () (Prog.bind _ _) s = _ at hrun
        rw [runAlone_bind] at hrun
        obtain ⟨⟨claimed, s₂⟩, hclaim, hrest⟩ := Option.bind_eq_some_iff.1 hrun
        have hbetween := between_of_withSession hclaim
        cases claimed with
        | error e =>
            cases hrest
            exact hbetween
        | ok job =>
            cases job with
            | none =>
                cases hrest
                exact hbetween
            | some job =>
                change runAlone _ () (Prog.bind _ _) s₂ = _ at hrest
                rw [runAlone_bind] at hrest
                obtain ⟨⟨processed, s₃⟩, hprocess, hend⟩ := Option.bind_eq_some_iff.1 hrest
                have hlast := between_of_withSession hprocess
                cases processed <;> cases hend <;> exact hlast
      change runAlone _ () (Prog.bind _ _) s = _ at h
      rw [runAlone_bind] at h
      obtain ⟨⟨out, s₁⟩, hrun, hend⟩ := Option.bind_eq_some_iff.1 h
      have hlast := hcycle out s₁ hrun
      cases out <;> cases hend <;> exact hlast
  | _ => exact between_of_withSession h

end TimedCall

end Vivac
