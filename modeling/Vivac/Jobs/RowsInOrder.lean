import Vivac.Lib.LoneSession
import Vivac.Workers.BulkRows

/-!
# Rows executed in order

What a list of rows does to the tables, given what one row does: each row runs on the
tables left by the rows before it that succeeded. The bulk loop computes exactly this,
with a savepoint around each row (`lone_bulkRows`), and the handlers keep all of it or
nothing (`lone_bulkUpsert`).
-/

set_option autoImplicit false

namespace Vivac

open Lib App

/-- What row `index` does to the tables: a value and the tables after it, or a refusal. -/
abbrev RowStep (ρ β : Type) := ℕ → ρ → Db → Except Exc (β × Db)

namespace RowStep

variable {ρ β : Type} (step : RowStep ρ β)

/-- The tables after the rows, in order; a row that fails leaves them as they are. -/
def tablesAfter : ℕ → List ρ → Db → Db
  | _, [], d => d
  | index, row :: rows, d =>
    match step index row d with
    | .ok (_, d') => tablesAfter (index + 1) rows d'
    | .error _ => tablesAfter (index + 1) rows d

/-- The rows that fail. -/
def failures : ℕ → List ρ → Db → List (ℕ × Exc)
  | _, [], _ => []
  | index, row :: rows, d =>
    match step index row d with
    | .ok (_, d') => failures (index + 1) rows d'
    | .error e => (index, e) :: failures (index + 1) rows d

/-- The values of the rows that succeed. -/
def values : ℕ → List ρ → Db → List β
  | _, [], _ => []
  | index, row :: rows, d =>
    match step index row d with
    | .ok (b, d') => b :: values (index + 1) rows d'
    | .error _ => values (index + 1) rows d

/-- Row `index` fails with `e`, on the tables left by the rows before it. -/
def Fails (rows : List ρ) (d : Db) (index : ℕ) (e : Exc) : Prop :=
  ∃ row, rows[index]? = some row ∧
    step index row (step.tablesAfter 0 (rows.take index) d) = .error e

variable {step}

theorem le_of_mem_failures {index : ℕ} {rows : List ρ} {d : Db} {k : ℕ} {e : Exc}
    (h : (k, e) ∈ step.failures index rows d) : index ≤ k := by
  induction rows generalizing index d with
  | nil => cases h
  | cons row rows ih =>
    unfold failures at h
    split at h
    · exact Nat.le_of_succ_le (ih h)
    · rcases List.mem_cons.1 h with heq | htail
      · cases heq
        exact le_rfl
      · exact Nat.le_of_succ_le (ih htail)

/-- The failures come in row order. -/
theorem pairwise_failures (index : ℕ) (rows : List ρ) (d : Db) :
    (step.failures index rows d).Pairwise fun a b => a.1 < b.1 := by
  induction rows generalizing index d with
  | nil => exact List.Pairwise.nil
  | cons row rows ih =>
    unfold failures
    split
    · exact ih _ _
    · refine List.Pairwise.cons ?_ (ih _ _)
      rintro ⟨k, e⟩ hk
      exact le_of_mem_failures hk

/-- The failures from `index` on, by the position of the row. -/
theorem mem_failures_iff {index : ℕ} {rows : List ρ} {d : Db} {k : ℕ} {e : Exc} :
    (k, e) ∈ step.failures index rows d ↔ ∃ n row, k = index + n ∧ rows[n]? = some row ∧
      step k row (step.tablesAfter index (rows.take n) d) = .error e := by
  induction rows generalizing index d with
  | nil => simp [failures]
  | cons row rows ih =>
    -- position 0 is this row; position n + 1 is position n of the rest
    have hsplit : (∃ n row', k = index + n ∧ (row :: rows)[n]? = some row' ∧
          step k row' (step.tablesAfter index ((row :: rows).take n) d) = .error e) ↔
        (k = index ∧ step index row d = .error e) ∨
        ∃ n row', k = index + 1 + n ∧ rows[n]? = some row' ∧
          step k row' (step.tablesAfter index (row :: rows.take n) d) = .error e := by
      constructor
      · rintro ⟨n, row', hk, hrow, hstep⟩
        cases n with
        | zero =>
          cases hrow
          subst hk
          exact .inl ⟨rfl, hstep⟩
        | succ n => exact .inr ⟨n, row', by omega, by simpa using hrow, by simpa using hstep⟩
      · rintro (⟨rfl, hstep⟩ | ⟨n, row', hk, hrow, hstep⟩)
        · exact ⟨0, row, rfl, rfl, hstep⟩
        · exact ⟨n + 1, row', by omega, by simpa using hrow, by simpa using hstep⟩
    rw [hsplit]
    cases hstep : step index row d with
    | ok out =>
      obtain ⟨b, d'⟩ := out
      simp only [failures, tablesAfter, hstep, ih, reduceCtorEq, and_false, false_or]
    | error e' =>
      simp only [failures, tablesAfter, hstep, List.mem_cons, ih, Prod.mk.injEq, Except.error.injEq,
        eq_comm]

theorem mem_failures {rows : List ρ} {d : Db} {k : ℕ} {e : Exc} :
    (k, e) ∈ step.failures 0 rows d ↔ step.Fails rows d k e := by
  rw [mem_failures_iff]
  constructor
  · rintro ⟨n, row, hk, hrow, hstep⟩
    obtain rfl : k = n := by omega
    exact ⟨row, hrow, hstep⟩
  · rintro ⟨row, hrow, hstep⟩
    exact ⟨k, row, (Nat.zero_add k).symm, hrow, hstep⟩

theorem length_values (index : ℕ) (rows : List ρ) (d : Db) :
    (step.values index rows d).length + (step.failures index rows d).length = rows.length := by
  induction rows generalizing index d with
  | nil => rfl
  | cons row rows ih =>
    cases hstep : step index row d with
    | ok out =>
      have hrest := ih (index + 1) out.2
      simp only [values, failures, hstep, List.length_cons]
      omega
    | error e =>
      have hrest := ih (index + 1) d
      simp only [values, failures, hstep, List.length_cons]
      omega

end RowStep

/-! ## The loop -/

section Loop

variable {ι ρ β : Type} [DecidableEq ι] {i : ι} {step : RowStep ρ β}
  {upsertRow : ℕ → ρ → App β} {K : Db → Prop} {rows : List ρ}

/-- On tables with `K` the program of each row does what `step` says, fails only with an
`Exception`, and keeps `K`. -/
structure RowLaw (K : Db → Prop) (step : RowStep ρ β) (upsertRow : ℕ → ρ → App β)
    (rows : List ρ) : Prop where
  evaluates : ∀ {index row d}, row ∈ rows → K d →
    Evaluates (upsertRow index row) d (step index row d)
  isException : ∀ {index row d e}, step index row d = .error e → e.isException = true
  keeps : ∀ {index row d b d'}, step index row d = .ok (b, d') → K d → K d'

/-- The law of the rows after the first. -/
theorem RowLaw.tail {row : ρ} (law : RowLaw K step upsertRow (row :: rows)) :
    RowLaw K step upsertRow rows where
  evaluates hrow := law.evaluates (List.mem_cons_of_mem _ hrow)
  isException := law.isException
  keeps := law.keeps

/-- What the loop has noted after the rows from `index` on. -/
def BulkProgress.after (step : RowStep ρ β) (index : ℕ) (rows : List ρ) (d : Db)
    (p : BulkProgress β) : BulkProgress β where
  errors := p.errors ++ (step.failures index rows d).map fun f => ⟨f.1, sanitizeExcMessage f.2⟩
  succeeded := p.succeeded + (step.values index rows d).length
  upserted := p.upserted ++ step.values index rows d

/-- The loop leaves the tables of the rows in order, and notes their failures. -/
theorem lone_bulkRows (law : RowLaw K step upsertRow rows) (db : Db) (ds : List Db) :
    ∀ (index : ℕ) (d : Db) (p : BulkProgress β), K d →
      Lone i (Sees i db ds d) (bulkRows upsertRow index rows p) fun r s =>
        r = .ok (p.after step index rows d) ∧ Sees i db ds (step.tablesAfter index rows d) s := by
  induction rows with
  | nil =>
    intro index d p _
    refine Lone.ret p fun s hs => ⟨?_, hs⟩
    simp [BulkProgress.after, RowStep.failures, RowStep.values]
  | cons row rows ih =>
    intro index d p hK
    refine Lone.bind_ok Lone.savepoint ?_
    have hrow : Lone i (Sees i db (d :: ds) d) (upsertRow index row) _ :=
      Lone.of_evaluates (law.evaluates (List.mem_cons_self ..) hK) db (d :: ds)
    cases hstep : step index row d with
    | ok out =>
      obtain ⟨b, d'⟩ := out
      rw [hstep] at hrow
      have hatt : Lone i (Sees i db (d :: ds) d) (upsertRow index row).attempt fun r s =>
          r = .ok (.ok b) ∧ Sees i db (d :: ds) d' s :=
        Lone.attempt hrow fun r s h => ⟨by rw [h.1], h.2⟩
      refine Lone.bind_ok hatt (Lone.bind_ok Lone.release ?_)
      refine (ih law.tail (index + 1) d' (p.succeed b) (law.keeps hstep hK)).conseq
        (fun _ h => h) fun r s h => ?_
      obtain ⟨rfl, hs⟩ := h
      refine ⟨?_, by simpa only [RowStep.tablesAfter, hstep] using hs⟩
      simp [BulkProgress.after, BulkProgress.succeed, RowStep.failures, RowStep.values, hstep]
      omega
    | error e =>
      rw [hstep] at hrow
      have hatt : Lone i (Sees i db (d :: ds) d) (upsertRow index row).attempt fun r s =>
          r = .ok (.error e) ∧ Holds i db (d :: ds) s :=
        Lone.attempt hrow fun r s h => ⟨by rw [h.1], h.2⟩
      refine Lone.bind_ok hatt ?_
      dsimp only
      rw [if_pos (law.isException hstep)]
      refine Lone.bind_ok Lone.rollbackTo ?_
      refine (ih law.tail (index + 1) d (p.fail index e) hK).conseq (fun _ h => h) fun r s h => ?_
      obtain ⟨rfl, hs⟩ := h
      refine ⟨?_, by simpa only [RowStep.tablesAfter, hstep] using hs⟩
      simp [BulkProgress.after, BulkProgress.fail, RowStep.failures, RowStep.values, hstep]

/-! ## All rows or none -/

/-- What a bulk request answers. -/
def bulkResult (step : RowStep ρ β) (dryRun : Bool) (rows : List ρ) (d : Db) : BulkResult where
  succeeded := if step.failures 0 rows d = [] then rows.length else 0
  failed := (step.failures 0 rows d).length
  dryRun := dryRun
  errors := (step.failures 0 rows d).map fun f => ⟨f.1, sanitizeExcMessage f.2⟩

/-- What a bulk request leaves. -/
def bulkTables (step : RowStep ρ β) (dryRun : Bool) (rows : List ρ) (d : Db) : Db :=
  if step.failures 0 rows d = [] ∧ dryRun = false then step.tablesAfter 0 rows d else d

theorem lone_bulkUpsert (law : RowLaw K step upsertRow rows) {applied : List β → App Unit}
    (happlied : ∀ bs db ds d, Lone i (Sees i db ds d) (applied bs) fun r s =>
      r = .ok () ∧ Sees i db ds d s)
    (db : Db) (ds : List Db) (dryRun : Bool) {d : Db} (hK : K d) :
    Lone i (Sees i db ds d) (bulkUpsert upsertRow dryRun rows applied) fun r s =>
      r = .ok (bulkResult step dryRun rows d) ∧ Sees i db ds (bulkTables step dryRun rows d) s := by
  refine Lone.bind_ok Lone.savepoint ?_
  refine Lone.bind_ok (lone_bulkRows law db (d :: ds) 0 d {} hK) ?_
  have hlen := step.length_values 0 rows d
  let p := BulkProgress.after step 0 rows d {}
  have herrors : p.errors = (bulkResult step dryRun rows d).errors := List.nil_append _
  have hempty : p.errors.isEmpty = true ↔ step.failures 0 rows d = [] := by
    rw [herrors, List.isEmpty_iff]
    exact List.map_eq_nil_iff
  -- the answer is the same whatever is kept
  have hresult : p.result dryRun = bulkResult step dryRun rows d := by
    unfold BulkProgress.result
    rw [herrors]
    by_cases hfail : step.failures 0 rows d = []
    · rw [hfail] at hlen
      simpa [bulkResult, hfail, p, BulkProgress.after] using hlen
    · simp [bulkResult, hfail]
  have hleave : Lone i (Sees i db (d :: ds) (step.tablesAfter 0 rows d))
      (leaveOuter (!p.errors.isEmpty || dryRun) (applied p.upserted)) fun r s =>
        r = .ok () ∧ Sees i db ds (bulkTables step dryRun rows d) s := by
    by_cases hkeep : step.failures 0 rows d = [] ∧ dryRun = false
    · have hcond : (!p.errors.isEmpty || dryRun) = false := by
        simp [hempty.2 hkeep.1, hkeep.2]
      rw [hcond, bulkTables, if_pos hkeep]
      exact Lone.bind_ok Lone.release (happlied p.upserted db ds _)
    · have hcond : (!p.errors.isEmpty || dryRun) = true := by
        by_cases hfail : p.errors.isEmpty = true
        · have hdry : dryRun ≠ false := fun h => hkeep ⟨hempty.1 hfail, h⟩
          simp [Bool.eq_true_of_not_eq_false hdry]
        · simp [hfail]
      rw [hcond, bulkTables, if_neg hkeep]
      exact Lone.rollbackTo.conseq (fun _ h => h.holds) fun _ _ h => h
  refine Lone.bind_ok hleave ?_
  exact Lone.ret _ fun s hs => ⟨congrArg Except.ok hresult, hs⟩

end Loop

end Vivac
