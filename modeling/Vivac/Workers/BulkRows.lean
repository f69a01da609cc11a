import Vivac.Core.Session

/-!
# Bulk rows

The part the bulk handlers share: every row in a savepoint of its own, all rows in an
outer savepoint, which is rolled back when a row failed or the request is a dry run.
The job's own writes lie outside of it.
-/

set_option autoImplicit false

namespace Vivac

open Lib App

/-- What a handler has noted so far: the failed rows, how many succeeded, and their values. -/
structure BulkProgress (β : Type) where
  errors : List RowError := []
  succeeded : ℕ := 0
  upserted : List β := []

namespace BulkProgress

variable {β : Type}

/-- Row `index` failed. -/
def fail (p : BulkProgress β) (index : ℕ) (e : Exc) : BulkProgress β :=
  { p with errors := p.errors ++ [⟨index, sanitizeExcMessage e⟩] }

/-- A row went through. -/
def succeed (p : BulkProgress β) (b : β) : BulkProgress β :=
  { p with succeeded := p.succeeded + 1, upserted := p.upserted ++ [b] }

/-- The answer; nothing has succeeded when a row failed. -/
def result (p : BulkProgress β) (dryRun : Bool) : BulkResult where
  succeeded := if p.errors.isEmpty then p.succeeded else 0
  failed := p.errors.length
  dryRun := dryRun
  errors := p.errors

end BulkProgress

section

variable {ρ β : Type} (upsertRow : ℕ → ρ → App β)

/-- The rows in order, from `index` on. -/
def bulkRows : ℕ → List ρ → BulkProgress β → App (BulkProgress β)
  | _, [], p => .ret p
  | index, row :: rows, p => do
    beginNested
    match ← (upsertRow index row).attempt with
    | .ok b => do
      releaseNested
      bulkRows (index + 1) rows (p.succeed b)
    | .error e =>
      if e.isException then do
        rollbackNested
        bulkRows (index + 1) rows (p.fail index e)
      else .raise e  -- neither `except Exception` nor `else`

/-- Leave the outer savepoint; `applied` follows when its rows stay. -/
def leaveOuter (rolledBack : Bool) (applied : App Unit) : App Unit :=
  if rolledBack then rollbackNested
  else do
    releaseNested
    applied

/-- All rows, or none of them. -/
def bulkUpsert (dryRun : Bool) (rows : List ρ) (applied : List β → App Unit) : App BulkResult := do
  beginNested
  let p ← bulkRows upsertRow 0 rows {}
  leaveOuter (!p.errors.isEmpty || dryRun) (applied p.upserted)
  return p.result dryRun

end

end Vivac
