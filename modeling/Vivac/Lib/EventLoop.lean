import Vivac.Lib.Program
import Mathlib.Logic.Function.Basic

/-!
# Tasks on one event loop

A task runs by itself, without interruption, from one await to the next: a `sync` command is a piece
of code that reads and changes the shared state, and an `await` hands the loop back until the
awaited operation is answered. `runToAwait` runs a program to its next await, and a `Tick` either
begins a call as a new task or answers the await that a task stands at, whichever task and whatever
the answer. Between two ticks is every point at which another task can look at the state.

The loop keeps a log of its ticks. `Loop.attempts` lists the operations that a task has awaited,
the one it stands at included.
-/

set_option autoImplicit false

namespace Vivac.Lib

variable {ι Call σ A R ε α β : Type}

/-- What a task does: change the state at once, or await an operation. -/
inductive TaskCommand (ε σ A R : Type) : Type → Type 1 where
  | sync {β : Type} (f : σ → Except ε β × σ) : TaskCommand ε σ A R β
  | await (a : A) : TaskCommand ε σ A R R

/-- The code of a task. -/
abbrev TaskProg (ε σ A R α : Type) : Type 1 := Prog ε (TaskCommand ε σ A R) α

/-- Run to the next await, or to the end. -/
def runToAwait : TaskProg ε σ A R α → σ → σ × TaskProg ε σ A R α
  | .ret a, s => (s, .ret a)
  | .raise e, s => (s, .raise e)
  | .call (.sync f) k, s => runToAwait (k (f s).1) (f s).2
  | .call (.await a) k, s => (s, .call (.await a) k)

section RunToAwait

variable (s : σ)

@[simp] theorem runToAwait_ret (a : α) :
    runToAwait (.ret a : TaskProg ε σ A R α) s = (s, .ret a) := rfl

@[simp] theorem runToAwait_raise (e : ε) :
    runToAwait (.raise e : TaskProg ε σ A R α) s = (s, .raise e) := rfl

@[simp] theorem runToAwait_sync (f : σ → Except ε β × σ) (k : Except ε β → TaskProg ε σ A R α) :
    runToAwait (.call (.sync f) k) s = runToAwait (k (f s).1) (f s).2 := rfl

@[simp] theorem runToAwait_await (a : A) (k : Except ε R → TaskProg ε σ A R α) :
    runToAwait (.call (.await a) k) s = (s, .call (.await a) k) := rfl

end RunToAwait

/-- A call, and what is left of it to run. -/
structure LoopTask (Call ε σ A R α : Type) where
  call : Call
  rest : TaskProg ε σ A R α

/-- The operation that the task stands at. -/
def LoopTask.pending (t : LoopTask Call ε σ A R α) : Option A :=
  match t.rest with
  | .call (.await a) _ => some a
  | _ => none

/-- A tick of the loop. -/
inductive LoopEvent (ι Call A R ε : Type) where
  | began (i : ι) (call : Call)
  | resumed (i : ι) (call : Call) (a : A) (r : Except ε R)

/-- The task that the tick was about. -/
def LoopEvent.id : LoopEvent ι Call A R ε → ι
  | .began i _ => i
  | .resumed i _ _ _ => i

/-- The operation of task `i` that was answered. -/
def LoopEvent.answered [DecidableEq ι] (i : ι) : LoopEvent ι Call A R ε → Option A
  | .began _ _ => none
  | .resumed j _ a _ => if j = i then some a else none

/-- The shared state, the tasks, and the ticks so far, in order. -/
structure Loop (ι Call ε σ A R α : Type) where
  state : σ
  task : ι → Option (LoopTask Call ε σ A R α)
  log : List (LoopEvent ι Call A R ε)

namespace Loop

variable [DecidableEq ι]

/-- Nothing has been called yet. -/
def initial (s : σ) : Loop ι Call ε σ A R α := ⟨s, fun _ => none, []⟩

/-- Task `i` runs `p` to its next await. -/
def run (l : Loop ι Call ε σ A R α) (i : ι) (call : Call) (p : TaskProg ε σ A R α)
    (e : LoopEvent ι Call A R ε) : Loop ι Call ε σ A R α :=
  ⟨(runToAwait p l.state).1, Function.update l.task i (some ⟨call, (runToAwait p l.state).2⟩),
    l.log ++ [e]⟩

/-- `call` begins as task `i`. -/
def start (program : Call → TaskProg ε σ A R α) (l : Loop ι Call ε σ A R α) (i : ι)
    (call : Call) : Loop ι Call ε σ A R α :=
  l.run i call (program call) (.began i call)

/-- Task `i` gets the answer `r`; one that awaits nothing takes none. -/
def answer (l : Loop ι Call ε σ A R α) (i : ι) (r : Except ε R) : Loop ι Call ε σ A R α :=
  match l.task i with
  | some ⟨call, .call (.await a) k⟩ => l.run i call (k r) (.resumed i call a r)
  | _ => l

/-- The operations that task `i` has awaited so far. -/
def attempts (l : Loop ι Call ε σ A R α) (i : ι) : List A :=
  l.log.filterMap (LoopEvent.answered i) ++ ((l.task i).bind LoopTask.pending).toList

end Loop

variable [DecidableEq ι]

/-- A call begins as a new task, or the await that a task stands at is answered. -/
inductive Tick (program : Call → TaskProg ε σ A R α) :
    Loop ι Call ε σ A R α → Loop ι Call ε σ A R α → Prop
  | begin {l : Loop ι Call ε σ A R α} (i : ι) (call : Call) (h : l.task i = none) :
      Tick program l (l.run i call (program call) (.began i call))
  | resume {l : Loop ι Call ε σ A R α} (i : ι) (call : Call) (a : A)
      (k : Except ε R → TaskProg ε σ A R α) (r : Except ε R)
      (h : l.task i = some ⟨call, .call (.await a) k⟩) :
      Tick program l (l.run i call (k r) (.resumed i call a r))

/-- The loops that the calls reach, from state `s`, in whatever order their awaits are answered. -/
def LoopRuns (program : Call → TaskProg ε σ A R α) (s : σ) (l : Loop ι Call ε σ A R α) : Prop :=
  Relation.ReflTransGen (Tick program) (Loop.initial s) l

variable {program : Call → TaskProg ε σ A R α} {s : σ} {l : Loop ι Call ε σ A R α}

theorem LoopRuns.initial : LoopRuns program s (Loop.initial s : Loop ι Call ε σ A R α) :=
  Relation.ReflTransGen.refl

theorem LoopRuns.tick {l' : Loop ι Call ε σ A R α} (h : LoopRuns program s l)
    (ht : Tick program l l') : LoopRuns program s l' :=
  Relation.ReflTransGen.tail h ht

theorem LoopRuns.start (h : LoopRuns program s l) (i : ι) (call : Call) (hi : l.task i = none) :
    LoopRuns program s (l.start program i call) :=
  h.tick (.begin i call hi)

theorem LoopRuns.answer (h : LoopRuns program s l) (i : ι) (r : Except ε R) :
    LoopRuns program s (l.answer i r) := by
  unfold Loop.answer
  split
  next call a k hi => exact h.tick (.resume i call a k r hi)
  · exact h

/-- What holds at the start and is kept by every tick holds of every loop reached. -/
theorem LoopRuns.invariant {Inv : Loop ι Call ε σ A R α → Prop} (h : LoopRuns program s l)
    (hstart : Inv (Loop.initial s)) (hkeep : ∀ l l', Tick program l l' → Inv l → Inv l') :
    Inv l := by
  induction h with
  | refl => exact hstart
  | tail _ ht ih => exact hkeep _ _ ht ih

namespace Loop

variable (l) (i : ι) (call : Call) (p : TaskProg ε σ A R α) (e : LoopEvent ι Call A R ε)

@[simp] theorem run_state : (l.run i call p e).state = (runToAwait p l.state).1 := rfl

@[simp] theorem run_log : (l.run i call p e).log = l.log ++ [e] := rfl

@[simp] theorem run_task_self :
    (l.run i call p e).task i = some ⟨call, (runToAwait p l.state).2⟩ := by
  simp [run]

theorem run_task_of_ne {j : ι} (h : j ≠ i) : (l.run i call p e).task j = l.task j := by
  simp [run, h]

end Loop

theorem filterMap_answered_append_of_ne {i : ι} {e : LoopEvent ι Call A R ε} (h : e.id ≠ i)
    (log : List (LoopEvent ι Call A R ε)) :
    (log ++ [e]).filterMap (LoopEvent.answered i) = log.filterMap (LoopEvent.answered i) := by
  have hnone : e.answered i = none := by
    cases e with
    | began j call => rfl
    | resumed j call a r => exact if_neg h
  simp [hnone]

/-- No tick was about a task that has not begun. -/
def Loop.FreshTasks (l : Loop ι Call ε σ A R α) : Prop :=
  ∀ i, l.task i = none → ∀ e ∈ l.log, e.id ≠ i

theorem Loop.FreshTasks.run (h : l.FreshTasks) {e : LoopEvent ι Call A R ε} (call : Call)
    (p : TaskProg ε σ A R α) : (l.run e.id call p e).FreshTasks := by
  intro j hj e' he'
  have hne : j ≠ e.id := by
    rintro rfl
    simp at hj
  rw [run_task_of_ne _ _ _ _ _ hne] at hj
  rw [run_log, List.mem_append, List.mem_singleton] at he'
  rcases he' with he' | rfl
  · exact h j hj e' he'
  · exact hne.symm

end Vivac.Lib
