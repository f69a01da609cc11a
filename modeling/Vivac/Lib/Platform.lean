import Vivac.Lib.Interleave
import Mathlib.Data.Nat.Notation

/-!
# Sessions on a READ COMMITTED database, and a key-value cache

Sessions issue SQL statements, commits, rollbacks and savepoints on one
database, and single commands on one key-value store.

* A statement runs atomically on what its session sees: the committed database
  with the session's own pending work applied. It answers a value, adds to the
  pending work, and takes row locks. A statement that needs a lock another
  session holds has to wait.
* A commit applies the pending work to the committed database of that moment and
  releases the locks. The locks are what makes the pending work still fit.
* A statement that fails leaves its transaction failed: PostgreSQL refuses every
  further statement until a rollback, or a rollback to a savepoint. The server
  can end a transaction at any moment (`Tx.status = .lost`).

The world carries three history variables that no program reads: the trace of
all commands, for each session the times of the database queries its knowledge
comes from (a cached body passes on the times of the queries that made it), and
for each session the committed databases its statements ran on, latest first.
-/

set_option autoImplicit false

namespace Vivac.Lib

variable {ι D K Ch V ε R : Type}

/-- What a statement does when it runs. -/
structure Effect (D K Ch R : Type) where
  result : R
  write : D → D
  locks : List K
  changes : List Ch

/-- A statement, given the rows other sessions hold and the database it sees. -/
abbrev Stmt (D K Ch ε R : Type) := (K → Bool) → D → Except ε (Effect D K Ch R)

/-- A statement that only reads. -/
def Stmt.read (f : D → R) : Stmt D K Ch ε R := fun _ d => .ok ⟨f d, id, [], []⟩

/-- The commands of a session. -/
inductive Cmd (D K Ch V ε : Type) : Type → Type 1 where
  | sql {R : Type} (st : Stmt D K Ch ε R) : Cmd D K Ch V ε R
  | commit : Cmd D K Ch V ε Unit
  | rollback : Cmd D K Ch V ε Unit
  | savepoint : Cmd D K Ch V ε Unit
  | release : Cmd D K Ch V ε Unit
  | rollbackTo : Cmd D K Ch V ε Unit
  | get (key : String) : Cmd D K Ch V ε (Option (ℕ ⊕ V))
  | set (key : String) (value : V) : Cmd D K Ch V ε Unit
  | incr (key : String) : Cmd D K Ch V ε Unit

/-- Uncommitted work: its effect, its row locks, and the changes it made. -/
structure Work (D K Ch : Type) where
  write : D → D := id
  locks : List K := []
  changes : List Ch := []

/-- A transaction is usable, failed until a rollback, or ended by the server. -/
inductive TxStatus where
  | active
  | failed
  | lost
  deriving DecidableEq

/-- The transaction of a session, with its open savepoints, innermost first. -/
structure Tx (D K Ch : Type) where
  work : Work D K Ch := {}
  saved : List (Work D K Ch) := []
  status : TxStatus := .active

/-- A cached value: a counter, or a body with the times of the queries that made it. -/
inductive Stored (V : Type) where
  | counter (n : ℕ)
  | body (value : V) (prov : List ℕ)

/-- What one command did. -/
inductive Action (Ch : Type) where
  | query
  | commit (changes : List Ch)
  | rollback
  | get (key : String)
  | set (key : String)
  | incr (key : String) (n : ℕ)
  deriving DecidableEq

/-- An action and its session. -/
structure Event (ι Ch : Type) where
  session : ι
  action : Action Ch
  deriving DecidableEq

/-- The shared state, with its history. -/
structure World (ι D K Ch V : Type) where
  db : D
  holder : K → Option ι
  tx : ι → Tx D K Ch
  redis : String → Option (Stored V)
  trace : List (Event ι Ch)
  prov : ι → List ℕ
  seen : ι → List D

/-- The errors of statements on a failed and on a lost transaction, and of a
counter command on a body. -/
class Faults (ε : Type) where
  failedTx : ε
  lostConnection : ε
  wrongType : ε

namespace World

/-- The time of the next event. -/
def clock (s : World ι D K Ch V) : ℕ := s.trace.length

/-- Event `e` happened at time `t`. -/
def At (s : World ι D K Ch V) (t : ℕ) (e : Event ι Ch) : Prop := s.trace[t]? = some e

/-- The counter under a key; a missing key counts zero. -/
def counter (s : World ι D K Ch V) (key : String) : ℕ :=
  match s.redis key with
  | some (.counter n) => n
  | _ => 0

/-- The database session `i` sees. -/
def view (s : World ι D K Ch V) (i : ι) : D := (s.tx i).work.write s.db

variable [DecidableEq ι] [DecidableEq K]

/-- Another session than `i` holds row `k`. -/
def heldByOther (s : World ι D K Ch V) (i : ι) (k : K) : Bool :=
  match s.holder k with
  | some j => j != i
  | none => false

/-- Record an action of session `i`. -/
def log (s : World ι D K Ch V) (i : ι) (a : Action Ch) : World ι D K Ch V :=
  { s with trace := s.trace ++ [⟨i, a⟩] }

/-- Session `i` gives up every lock that is not in `keep`. -/
def unlock (s : World ι D K Ch V) (i : ι) (keep : List K) : World ι D K Ch V :=
  { s with holder := fun k => if s.holder k = some i ∧ k ∉ keep then none else s.holder k }

/-- Session `i` takes locks. -/
def lock (s : World ι D K Ch V) (i : ι) (ks : List K) : World ι D K Ch V :=
  { s with holder := fun k => if k ∈ ks then some i else s.holder k }

/-- Replace the transaction of session `i`. -/
def setTx (s : World ι D K Ch V) (i : ι) (t : Tx D K Ch) : World ι D K Ch V :=
  { s with tx := Function.update s.tx i t }

/-- Session `i` queries the database: the query enters the session's knowledge. -/
def query (s : World ι D K Ch V) (i : ι) : World ι D K Ch V :=
  { s.log i .query with
    prov := Function.update s.prov i (s.clock :: s.prov i)
    seen := Function.update s.seen i (s.db :: s.seen i) }

/-- Store a value under a key. -/
def store (s : World ι D K Ch V) (key : String) (v : Stored V) : World ι D K Ch V :=
  { s with redis := Function.update s.redis key (some v) }

end World

section Exec

variable [DecidableEq ι] [DecidableEq K] [Faults ε]

/-- Run `f` on a usable transaction; a failed or lost one refuses. -/
def onActive {β : Type} (i : ι) (s : World ι D K Ch V)
    (f : Tx D K Ch → Option (Except ε β × World ι D K Ch V)) :
    Option (Except ε β × World ι D K Ch V) :=
  match (s.tx i).status with
  | .active => f (s.tx i)
  | .failed => some (.error Faults.failedTx, s)
  | .lost => some (.error Faults.lostConnection, s)

/-- A statement, on a usable transaction. -/
def execSql (i : ι) (st : Stmt D K Ch ε R) (s : World ι D K Ch V) (t : Tx D K Ch) :
    Option (Except ε R × World ι D K Ch V) :=
  match st (s.heldByOther i) (s.view i) with
  | .error e => some (.error e, (s.query i).setTx i { t with status := .failed })
  | .ok eff =>
    if eff.locks.any (s.heldByOther i) then none
    else some (.ok eff.result, ((s.query i).lock i eff.locks).setTx i
      { t with work :=
          ⟨eff.write ∘ t.work.write, t.work.locks ++ eff.locks, t.work.changes ++ eff.changes⟩ })

/-- End the transaction of session `i`; the next one starts empty. -/
def endTx (i : ι) (s : World ι D K Ch V) : World ι D K Ch V := (s.unlock i []).setTx i {}

/-- Commit a usable transaction. -/
def execCommit (i : ι) (s : World ι D K Ch V) (t : Tx D K Ch) : World ι D K Ch V :=
  endTx i ({ s with db := t.work.write s.db }.log i (.commit t.work.changes))

/-- Roll back to the innermost savepoint, and leave it. -/
def execRollbackTo (i : ι) (s : World ι D K Ch V) (t : Tx D K Ch) : World ι D K Ch V :=
  match t.saved with
  | [] => s
  | w :: ws => (s.unlock i w.locks).setTx i ⟨w, ws, .active⟩

/-- The meaning of a command of session `i`; `none` is a statement that has to wait. -/
def exec (i : ι) {β : Type} (c : Cmd D K Ch V ε β) (s : World ι D K Ch V) :
    Option (Except ε β × World ι D K Ch V) :=
  match c with
  | .sql st => onActive i s (execSql i st s)
  | .commit =>
    match (s.tx i).status with
    | .active => some (.ok (), execCommit i s (s.tx i))
    | .failed => some (.ok (), endTx i (s.log i .rollback))  -- COMMIT of a failed transaction
    | .lost => some (.error Faults.lostConnection, s)
  | .rollback => some (.ok (), endTx i (s.log i .rollback))
  | .savepoint => onActive i s fun t =>
      some (.ok (), s.setTx i { t with saved := t.work :: t.saved })
  | .release => onActive i s fun t => some (.ok (), s.setTx i { t with saved := t.saved.tail })
  | .rollbackTo =>
    match (s.tx i).status with
    | .lost => some (.error Faults.lostConnection, s)
    | _ => some (.ok (), execRollbackTo i s (s.tx i))
  | .get key =>
    match s.redis key with
    | none => some (.ok none, s.log i (.get key))
    | some (.counter n) => some (.ok (some (.inl n)), s.log i (.get key))
    | some (.body v p) =>
      some (.ok (some (.inr v)),
        { s.log i (.get key) with prov := Function.update s.prov i (p ++ s.prov i) })
  | .set key v => some (.ok (), (s.log i (.set key)).store key (.body v (s.prov i)))
  | .incr key =>
    match s.redis key with
    | some (.body _ _) => some (.error Faults.wrongType, s)
    | _ => some (.ok (), (s.log i (.incr key (s.counter key + 1))).store key
        (.counter (s.counter key + 1)))

/-- The environment expires a cached body, or ends a session's transaction. -/
inductive Env : World ι D K Ch V → World ι D K Ch V → Prop
  | expire {s : World ι D K Ch V} (key : String) {v : V} {p : List ℕ}
      (h : s.redis key = some (.body v p)) :
      Env s { s with redis := Function.update s.redis key none }
  | lose {s : World ι D K Ch V} (i : ι) : Env s ((s.unlock i []).setTx i { status := .lost })

/-- The system of sessions. -/
def platform : System ι ε (Cmd D K Ch V ε) (World ι D K Ch V) := .ofExec (fun i => exec i) Env

end Exec

end Vivac.Lib
