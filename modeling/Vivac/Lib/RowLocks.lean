import Vivac.Lib.StepContract

/-!
# Row locks

`row k` is the row of a database under the key `k`. A write is confined to the keys it locks
when it leaves every other row alone. When all statements are confined, the pending work of a
session is confined to locks the session holds (`LocksHold`), so the rows a session holds
change only when that session commits (`KeepsRows`).
-/

set_option autoImplicit false

namespace Vivac.Lib

variable {ι D K Ch V ε ρ β R : Type}

/-- A write leaves the rows outside `ks` alone. -/
def Confined (row : K → D → ρ) (ks : List K) (w : D → D) : Prop :=
  ∀ d k, k ∉ ks → row k (w d) = row k d

/-- The writes of a statement are confined to the locks it takes. -/
def Stmt.Confined (row : K → D → ρ) (st : Stmt D K Ch ε R) : Prop :=
  ∀ locked d eff, st locked d = .ok eff → Lib.Confined row eff.locks eff.write

/-- A command whose writes are confined to the locks it takes. -/
def Cmd.Confined (row : K → D → ρ) : {β : Type} → Cmd D K Ch V ε β → Prop
  | _, .sql st => st.Confined row
  | _, _ => True

section Confined

variable {row : K → D → ρ} {ks ks' : List K} {w w' : D → D}

theorem Confined.id (row : K → D → ρ) (ks : List K) : Confined row ks id :=
  fun _ _ _ => rfl

theorem Confined.comp (h : Confined row ks w) (h' : Confined row ks' w') :
    Confined row (ks ++ ks') (w' ∘ w) := by
  intro d k hk
  have hnot : k ∉ ks ∧ k ∉ ks' := by simpa using hk
  exact (h' (w d) k hnot.2).trans (h d k hnot.1)

theorem Stmt.confined_read (f : D → R) :
    (Stmt.read f : Stmt D K Ch ε R).Confined row := by
  intro locked d eff heff
  cases heff
  exact Confined.id row []

theorem Cmd.confined_sql {st : Stmt D K Ch ε R} (h : st.Confined row) :
    (Cmd.sql st : Cmd D K Ch V ε R).Confined row := h

end Confined

/-! ## The invariant -/

/-- The pending work of every session, now and at its savepoints, is confined to locks that
the session holds. -/
structure LocksHold (row : K → D → ρ) (s : World ι D K Ch V) : Prop where
  held : ∀ i, ∀ k ∈ (s.tx i).work.locks, s.holder k = some i
  nested : ∀ i, ((s.tx i).work :: (s.tx i).saved).Pairwise fun w w' => w'.locks ⊆ w.locks
  confined : ∀ i, ∀ w ∈ (s.tx i).work :: (s.tx i).saved, Confined row w.locks w.write

/-- The rows session `j` holds are as they were, or the server has ended its transaction. -/
def KeepsRows (row : K → D → ρ) (j : ι) (s s' : World ι D K Ch V) : Prop :=
  s'.tx j = { status := .lost } ∨ ∀ k, s.holder k = some j → row k s'.db = row k s.db

section

variable {row : K → D → ρ} {s s' : World ι D K Ch V} {i j : ι}

theorem KeepsRows.of_db (h : s'.db = s.db) : KeepsRows row j s s' :=
  .inr fun k _ => by rw [h]

theorem KeepsRows.trans {a b c : World ι D K Ch V} (hab : Undisturbed j a b)
    (hbc : Undisturbed j b c) (h₁ : KeepsRows row j a b) (h₂ : KeepsRows row j b c) :
    KeepsRows row j a c := by
  rcases h₂ with hlost | hrows₂
  · exact .inl hlost
  rcases hbc.tx with ⟨htx, -⟩ | hlost
  · rcases h₁ with hlost | hrows₁
    · exact .inl (htx.trans hlost)
    rcases hab.tx with ⟨-, hheld⟩ | hlost
    · exact .inr fun k hk => (hrows₂ k (hheld k hk)).trans (hrows₁ k hk)
    · exact .inl (htx.trans hlost)
  · exact .inl hlost

/-- An idle world has no pending work. -/
theorem locksHold_of_idle (h : ∀ i, s.tx i = {}) : LocksHold row s where
  held i k hk := by
    rw [h i] at hk
    cases hk
  nested i := by simp [h i]
  confined i w hw := by
    simp only [h i, List.mem_singleton] at hw
    rw [hw]
    exact Confined.id row []

/-- What the session sees of a row it has not locked is the committed row. -/
theorem LocksHold.row_view (h : LocksHold row s) {k : K} (hk : k ∉ (s.tx i).work.locks) :
    row k (s.view i) = row k s.db :=
  h.confined i _ (List.mem_cons_self ..) s.db k hk

variable [DecidableEq ι] [DecidableEq K]

omit [DecidableEq K] in
/-- Replacing the transaction of session `i` keeps the invariant when the new one has it. -/
theorem LocksHold.setTx (h : LocksHold row s) {t : Tx D K Ch}
    (hheld : ∀ k ∈ t.work.locks, s.holder k = some i)
    (hnested : (t.work :: t.saved).Pairwise fun w w' => w'.locks ⊆ w.locks)
    (hconfined : ∀ w ∈ t.work :: t.saved, Confined row w.locks w.write) :
    LocksHold row (s.setTx i t) := by
  have htx : ∀ j, (s.setTx i t).tx j = if j = i then t else s.tx j := fun j =>
    Function.update_apply ..
  constructor
  · intro j k hk
    rw [htx] at hk
    split at hk
    · rename_i hj
      rw [hj]
      exact hheld k hk
    · exact h.held j k hk
  · intro j
    rw [htx]
    split
    · exact hnested
    · exact h.nested j
  · intro j
    rw [htx]
    split
    · exact hconfined
    · exact h.confined j

omit [DecidableEq ι] [DecidableEq K] in
/-- The invariant does not depend on the database, the cache and the history. -/
theorem LocksHold.of_same (h : LocksHold row s) (hholder : s'.holder = s.holder)
    (htx : s'.tx = s.tx) : LocksHold row s' where
  held i := by
    rw [htx, hholder]
    exact h.held i
  nested i := by
    rw [htx]
    exact h.nested i
  confined i := by
    rw [htx]
    exact h.confined i

/-- The end of a transaction. -/
theorem LocksHold.unlock_setTx (h : LocksHold row s) {keep : List K} {t : Tx D K Ch}
    (hkeep : ∀ k ∈ t.work.locks, k ∈ keep ∧ s.holder k = some i)
    (hnested : (t.work :: t.saved).Pairwise fun w w' => w'.locks ⊆ w.locks)
    (hconfined : ∀ w ∈ t.work :: t.saved, Confined row w.locks w.write) :
    LocksHold row ((s.unlock i keep).setTx i t) := by
  have htx : ∀ j, ((s.unlock i keep).setTx i t).tx j = if j = i then t else s.tx j := fun j =>
    Function.update_apply ..
  constructor
  · intro j k hk
    rw [htx] at hk
    split at hk
    · rename_i hj
      subst hj
      obtain ⟨hmem, hholder⟩ := hkeep k hk
      have hstay : ¬(s.holder k = some j ∧ k ∉ keep) := fun hgo => hgo.2 hmem
      exact (if_neg hstay).trans hholder
    · rename_i hj
      exact World.holder_unlock_of_ne hj (h.held j k hk)
  · intro j
    rw [htx]
    split
    · exact hnested
    · exact h.nested j
  · intro j
    rw [htx]
    split
    · exact hconfined
    · exact h.confined j

theorem LocksHold.end_tx (h : LocksHold row s) {status : TxStatus} :
    LocksHold row ((s.unlock i []).setTx i { status := status }) := by
  apply h.unlock_setTx
  · intro k hk
    cases hk
  · simp
  · intro w hw
    rw [List.mem_singleton.1 hw]
    exact Confined.id row []

variable [Faults ε]

/-- A confined command keeps the invariant. -/
theorem LocksHold.of_exec (h : LocksHold row s) {c : Cmd D K Ch V ε β} {r : Except ε β}
    (hc : c.Confined row) (hexec : exec i c s = some (r, s')) : LocksHold row s' := by
  have hwork := h.nested i
  cases c with
  | sql st =>
    rcases exec_sql_cases hexec with ⟨-, -, rfl⟩ | ⟨-, e, -, -, rfl⟩ | ⟨-, eff, heff, hfree, -, rfl⟩
    · exact h
    · exact (h.of_same rfl rfl : LocksHold row (s.query i)).setTx (h.held i) hwork (h.confined i)
    · have hlocked : LocksHold row ((s.query i).lock i eff.locks) := by
        refine ⟨fun j k hk => ?_, h.nested, h.confined⟩
        have hholder : s.holder k = some j := h.held j k hk
        -- a row that is locked now was free or this session's own
        by_cases hmem : k ∈ eff.locks
        · have hown : j = i := by
            have hfr := hfree k hmem
            simpa [World.heldByOther, hholder] using hfr
          simp [World.lock, hmem, hown]
        · simpa [World.lock, World.query, World.log, hmem] using hholder
      apply hlocked.setTx
      · intro k hk
        rcases List.mem_append.1 hk with hold | hnew
        · exact hlocked.held i k hold
        · simp [World.lock, hnew]
      · rw [List.pairwise_cons] at hwork ⊢
        exact ⟨fun w hw k hk => List.mem_append_left _ (hwork.1 w hw hk), hwork.2⟩
      · intro w hw
        rcases List.mem_cons.1 hw with rfl | hw
        · exact (h.confined i _ (List.mem_cons_self ..)).comp (hc _ _ _ heff)
        · exact h.confined i w (List.mem_cons_of_mem _ hw)
  | commit =>
    rcases exec_commit_cases hexec with ⟨-, -, rfl⟩ | ⟨-, -, rfl⟩ | ⟨-, -, rfl⟩
    -- a transaction that ends lets go of its locks together with its work
    · exact (h.of_same rfl rfl : LocksHold row ({ s with db := _ }.log i _)).end_tx
    · exact (h.of_same rfl rfl : LocksHold row (s.log i _)).end_tx
    · exact h
  | rollback =>
    obtain ⟨-, rfl⟩ := exec_rollback_eq hexec
    exact (h.of_same rfl rfl : LocksHold row (s.log i _)).end_tx
  | savepoint =>
    simp only [exec, onActive] at hexec
    split at hexec <;> cases hexec
    · refine h.setTx (by exact h.held i) ?_ ?_
      · rw [List.pairwise_cons]
        refine ⟨fun w hw => ?_, hwork⟩
        rcases List.mem_cons.1 hw with rfl | hw
        · exact List.Subset.refl _
        · exact (List.pairwise_cons.1 hwork).1 w hw
      · intro w hw
        rcases List.mem_cons.1 hw with rfl | hw
        · exact h.confined i _ (List.mem_cons_self ..)
        · exact h.confined i w hw
    · exact h
    · exact h
  | release =>
    simp only [exec, onActive] at hexec
    split at hexec <;> cases hexec
    · refine h.setTx (by exact h.held i) ?_ ?_
      · exact hwork.sublist (List.Sublist.cons_cons _ (List.tail_sublist _))
      · intro w hw
        rcases List.mem_cons.1 hw with rfl | hw
        · exact h.confined i _ (List.mem_cons_self ..)
        · exact h.confined i w (List.mem_cons_of_mem _ (List.mem_of_mem_tail hw))
    · exact h
    · exact h
  | rollbackTo =>
    simp only [exec] at hexec
    split at hexec <;> cases hexec
    · exact h
    · unfold execRollbackTo
      split
      · exact h
      · rename_i w ws hsaved
        rw [hsaved] at hwork
        -- the work that comes back holds fewer locks, and they are still held
        have hsub : w.locks ⊆ (s.tx i).work.locks :=
          (List.pairwise_cons.1 hwork).1 w (List.mem_cons_self ..)
        apply h.unlock_setTx
        · exact fun k hk => ⟨hk, h.held i k (hsub hk)⟩
        · exact (List.pairwise_cons.1 hwork).2
        · intro v hv
          apply h.confined i v
          rw [hsaved]
          exact List.mem_cons_of_mem _ hv
  | get key =>
    rcases exec_get_cases hexec with ⟨-, -, rfl⟩ | ⟨n, -, -, rfl⟩ | ⟨v, p, -, -, rfl⟩
    · exact h.of_same rfl rfl
    · exact h.of_same rfl rfl
    · exact h.of_same rfl rfl
  | set key v =>
    obtain ⟨-, rfl⟩ := exec_set_eq hexec
    exact h.of_same rfl rfl
  | incr key =>
    rcases exec_incr_cases hexec with ⟨v, p, -, -, rfl⟩ | ⟨-, -, rfl⟩
    · exact h
    · exact h.of_same rfl rfl

omit [Faults ε] in
theorem LocksHold.of_env (h : LocksHold row s) (henv : Env s s') : LocksHold row s' := by
  cases henv with
  | expire key hk => exact h.of_same rfl rfl
  | lose i => exact h.end_tx

/-- A commit changes only rows the session holds. -/
theorem LocksHold.row_of_exec (h : LocksHold row s) {c : Cmd D K Ch V ε β} {r : Except ε β}
    (hexec : exec i c s = some (r, s')) {k : K} (hk : s.holder k ≠ some i) :
    row k s'.db = row k s.db := by
  rcases exec_db_cases hexec with ⟨hdb, -⟩ | ⟨-, rfl⟩
  · rw [hdb]
  · exact h.row_view fun hmem => hk (h.held i k hmem)

/-- A command leaves the rows of the other sessions alone. -/
theorem LocksHold.keepsRows (h : LocksHold row s) {c : Cmd D K Ch V ε β} {r : Except ε β}
    (hexec : exec i c s = some (r, s')) (hj : j ≠ i) : KeepsRows row j s s' := by
  refine .inr fun k hk => h.row_of_exec hexec fun hi => hj ?_
  rw [hk] at hi
  exact Option.some.inj hi

omit [Faults ε] in
theorem Env.keepsRows (henv : Env s s') : KeepsRows row j s s' := by
  cases henv with
  | expire key hk => exact .of_db rfl
  | lose i => exact .of_db rfl

end

/-! ## Contracts of locking sessions -/

section Terms

variable (row : K → D → ρ) (inv : World ι D K Ch V → Prop)
  (own : ι → World ι D K Ch V → World ι D K Ch V → Prop)

/-- Sessions that keep `inv`, take `own` steps, and lock the rows they change. -/
def lockTerms : Terms ι D K Ch V where
  inv s := LocksHold row s ∧ inv s
  rely := KeepsRows row
  own := own

variable {row inv own} [DecidableEq ι] [DecidableEq K]

theorem lockTerms_fair (henv : ∀ {s s'}, Env s s' → inv s → inv s') :
    (lockTerms row inv own).Fair where
  refl _ _ := .of_db rfl
  trans _ _ _ _ hab hbc h₁ h₂ := h₁.trans hab hbc h₂
  env h hi := ⟨⟨hi.1.of_env h, henv h hi.2⟩, fun _ => h.keepsRows⟩

/-- The commands of a session keep the locks, and leave the rows of the others alone. -/
structure Locking (row : K → D → ρ)
    (sys : System ι ε (Cmd D K Ch V ε) (World ι D K Ch V)) : Prop extends Framed sys where
  locks : ∀ {i : ι} {β : Type} {c : Cmd D K Ch V ε β} {s : World ι D K Ch V} {r : Except ε β}
    {s' : World ι D K Ch V}, sys.step i c s r s' → c.Confined row → LocksHold row s →
    LocksHold row s' ∧ ∀ j, j ≠ i → KeepsRows row j s s'

theorem locking_sessions [Faults ε] (row : K → D → ρ)
    (ok : ι → World ι D K Ch V → World ι D K Ch V → Prop) :
    Locking row (sessions ok : System ι ε (Cmd D K Ch V ε) (World ι D K Ch V)) where
  toFramed := framed_sessions ok
  locks h hc hl := ⟨hl.of_exec hc h.1, fun _ hj => hl.keepsRows h.1 hj⟩

variable {sys : System ι ε (Cmd D K Ch V ε) (World ι D K Ch V)} {i : ι}
  {P : World ι D K Ch V → Prop}

/-- One confined command. -/
theorem Triple.lockAct (hsys : Locking row sys) {c : Cmd D K Ch V ε β}
    {M : Except ε β → World ι D K Ch V → Prop}
    (hc : c.Confined row) (hP : Stable (lockTerms row inv own).contract i P)
    (hM : ∀ r, Stable (lockTerms row inv own).contract i (M r))
    (hstep : ∀ s r s', LocksHold row s → inv s → P s → sys.step i c s r s' →
      inv s' ∧ own i s s' ∧ M r s') :
    Triple sys (lockTerms row inv own).contract i P (Prog.perform c) M := by
  apply Triple.act hsys.toFramed hP hM
  intro s r s' hi hp hs
  obtain ⟨hlocks, hkeeps⟩ := hsys.locks hs hc hi.1
  obtain ⟨hinv, hown, hm⟩ := hstep s r s' hi.1 hi.2 hp hs
  exact ⟨⟨hlocks, hinv⟩, hown, hkeeps, hm⟩

end Terms

end Vivac.Lib
