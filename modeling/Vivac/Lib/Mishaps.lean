import Vivac.Lib.Faults
import Vivac.Lib.LoneSession

/-!
# A lone session that is struck at some command

A plan says which of a session's commands go wrong, and how: the database refuses the command, the
connection is lost before or after it was carried out, or the process dies. A program without
handlers ends at the first mishap, so the database it leaves is one of those along its lone run:
`committed_of_struck` says which.
-/

set_option autoImplicit false

namespace Vivac.Lib

variable {ι D K Ch V ε R α β : Type} [DecidableEq ι] [DecidableEq K] [Faults ε]

/-! ## Mishaps -/

/-- What goes wrong with a command. -/
inductive Mishap (ε : Type) where
  | refused (e : ε)
  | lost (e : ε)
  | lostAfter (e : ε)
  | death
  | deathAfter

namespace Mishap

/-- The command is carried out all the same. -/
def carriedOut : Mishap ε → Bool
  | .refused _ | .lost _ | .death => false
  | .lostAfter _ | .deathAfter => true

/-- The exception that the program gets, if it lives on. -/
def exception : Mishap ε → Option ε
  | .refused e | .lost e | .lostAfter e => some e
  | .death | .deathAfter => none

/-- The world after a command of session `i` has gone wrong. -/
def strike (m : Mishap ε) (i : ι) (c : Cmd D K Ch V ε β) (s : World ι D K Ch V) :
    World ι D K Ch V :=
  match m with
  | .refused _ => if (s.tx i).status = .lost then s else s.setStatus i .failed
  | .lost _ | .death => s.disconnect i
  | .lostAfter _ | .deathAfter => ((exec i c s).elim s Prod.snd).disconnect i

end Mishap

/-- Session `i` runs the program by itself from its `n`th command on, and what the plan says goes
wrong. The outcome is `none` for a process that has died. -/
def runStruck (i : ι) (plan : ℕ → Option (Mishap ε)) :
    ℕ → Prog ε (Cmd D K Ch V ε) α → World ι D K Ch V →
      Option (Option (Except ε α) × World ι D K Ch V)
  | _, .ret a, s => some (some (.ok a), s)
  | _, .raise e, s => some (some (.error e), s)
  | n, .call c k, s =>
    match plan n with
    | none => (exec i c s).bind fun out => runStruck i plan (n + 1) (k out.1) out.2
    | some m =>
      match m.exception with
      | none => some (none, m.strike i c s)
      | some e => runStruck i plan (n + 1) (k (.error e)) (m.strike i c s)

/-! ## The databases along a lone run -/

/-- The database before each command of a lone run, with its outcome and its last state. -/
def walk (i : ι) : Prog ε (Cmd D K Ch V ε) α → World ι D K Ch V →
    Option (List D × Except ε α × World ι D K Ch V)
  | .ret a, s => some ([], .ok a, s)
  | .raise e, s => some ([], .error e, s)
  | .call c k, s => (exec i c s).bind fun out =>
      (walk i (k out.1) out.2).map fun rest => (s.db :: rest.1, rest.2)

/-- From every state with `P`, the program passes the databases `dbs` to an end with `Q`. -/
def Walk (i : ι) (P : World ι D K Ch V → Prop) (p : Prog ε (Cmd D K Ch V ε) α) (dbs : List D)
    (Q : Except ε α → World ι D K Ch V → Prop) : Prop :=
  ∀ s, P s → ∃ r s', walk i p s = some (dbs, r, s') ∧ Q r s'

section Rules

variable {i : ι} {P : World ι D K Ch V → Prop} {Q : Except ε α → World ι D K Ch V → Prop}
  {dbs : List D}

theorem walk_bind (p : Prog ε (Cmd D K Ch V ε) β) (f : β → Prog ε (Cmd D K Ch V ε) α)
    (s : World ι D K Ch V) :
    walk i (p.bind f) s = (walk i p s).bind fun out =>
      match out with
      | (dbs, .ok b, s') => (walk i (f b) s').map fun rest => (dbs ++ rest.1, rest.2)
      | (dbs, .error e, s') => some (dbs, .error e, s') := by
  induction p generalizing s with
  | ret b =>
      simp only [Prog.bind_ret, walk, Option.bind_some, List.nil_append]
      exact Option.map_id'.symm
  | raise e => rfl
  | call c k ih =>
      simp only [Prog.bind_call, walk]
      cases exec i c s with
      | none => rfl
      | some out =>
          simp only [Option.bind_some, ih]
          cases walk i (k out.1) out.2 with
          | none => rfl
          | some rest =>
              obtain ⟨dbs, r, s'⟩ := rest
              cases r with
              | error e => rfl
              | ok b =>
                  simp only [Option.bind_some, Option.map_some, Option.map_map]
                  rfl

theorem Walk.conseq {P' : World ι D K Ch V → Prop} {Q' : Except ε α → World ι D K Ch V → Prop}
    {p : Prog ε (Cmd D K Ch V ε) α} (h : Walk i P p dbs Q) (hP : ∀ s, P' s → P s)
    (hQ : ∀ r s, Q r s → Q' r s) : Walk i P' p dbs Q' := by
  intro s hs
  obtain ⟨r, s', hwalk, hq⟩ := h s (hP s hs)
  exact ⟨r, s', hwalk, hQ r s' hq⟩

theorem Walk.ret (a : α) (h : ∀ s, P s → Q (.ok a) s) : Walk i P (.ret a) [] Q :=
  fun s hs => ⟨.ok a, s, rfl, h s hs⟩

theorem Walk.raise (e : ε) (h : ∀ s, P s → Q (.error e) s) : Walk i P (.raise e) [] Q :=
  fun s hs => ⟨.error e, s, rfl, h s hs⟩

/-- One command. -/
theorem Walk.perform {c : Cmd D K Ch V ε α} {db : D} (h : Lone i P (Prog.perform c) Q)
    (hdb : ∀ s, P s → s.db = db) : Walk i P (Prog.perform c) [db] Q := by
  intro s hs
  obtain ⟨r, s', hrun, hq⟩ := h s hs
  simp only [Prog.perform, runAlone] at hrun
  cases hexec : exec i c s with
  | none =>
      rw [hexec] at hrun
      cases hrun
  | some out =>
      obtain ⟨r₁, s₁⟩ := out
      rw [hexec] at hrun
      refine ⟨r, s', ?_, hq⟩
      simp only [Prog.perform, walk, hexec, Option.bind_some]
      cases r₁ with
      | ok a =>
          cases hrun
          simp only [Prog.ofExcept, walk, Option.map_some, hdb s hs]
      | error e =>
          cases hrun
          simp only [Prog.ofExcept, walk, Option.map_some, hdb s hs]

theorem Walk.bind_ok {p : Prog ε (Cmd D K Ch V ε) β} {b : β} {f : β → Prog ε (Cmd D K Ch V ε) α}
    {M : World ι D K Ch V → Prop} {dbs' : List D} (hp : Walk i P p dbs fun r s => r = .ok b ∧ M s)
    (hf : Walk i M (f b) dbs' Q) : Walk i P (p.bind f) (dbs ++ dbs') Q := by
  intro s hs
  obtain ⟨r, s₁, hwalk, rfl, hm⟩ := hp s hs
  obtain ⟨r, s₂, hwalk', hq⟩ := hf s₁ hm
  refine ⟨r, s₂, ?_, hq⟩
  rw [walk_bind, hwalk, Option.bind_some]
  simp only [hwalk', Option.map_some]

/-- A command, and the rest. -/
theorem Walk.step {c : Cmd D K Ch V ε β} {b : β} {f : β → Prog ε (Cmd D K Ch V ε) α} {db : D}
    {M : World ι D K Ch V → Prop} (hc : Walk i P (Prog.perform c) [db] fun r s => r = .ok b ∧ M s)
    (hf : Walk i M (f b) dbs Q) : Walk i P ((Prog.perform c).bind f) (db :: dbs) Q :=
  Walk.bind_ok hc hf

theorem Walk.bind_error {p : Prog ε (Cmd D K Ch V ε) β} {e : ε} {f : β → Prog ε (Cmd D K Ch V ε) α}
    {M : World ι D K Ch V → Prop} (hp : Walk i P p dbs fun r s => r = .error e ∧ M s)
    (hM : ∀ s, M s → Q (.error e) s) : Walk i P (p.bind f) dbs Q := by
  intro s hs
  obtain ⟨r, s₁, hwalk, rfl, hm⟩ := hp s hs
  refine ⟨.error e, s₁, ?_, hM s₁ hm⟩
  rw [walk_bind, hwalk, Option.bind_some]

theorem Walk.to_replicate {p : Prog ε (Cmd D K Ch V ε) α} {d : D} (dbs : List D)
    (hall : ∀ x ∈ dbs, x = d) (h : Walk i P p dbs Q) : ∃ n, Walk i P p (List.replicate n d) Q :=
  ⟨dbs.length, List.eq_replicate_of_mem hall ▸ h⟩

/-- A `SELECT` answers what the session sees. -/
theorem Walk.read {db d : D} {ds : List D} (f : D → R) :
    Walk i (Sees i db ds d)
      (Prog.perform (.sql (Stmt.read f : Stmt D K Ch ε R)) : Prog ε (Cmd D K Ch V ε) R) [db]
      fun r s => r = .ok (f d) ∧ Sees i db ds d s :=
  Walk.perform (Lone.read f) fun _ hs => hs.holds.db_eq

/-- A statement that is known to go through. -/
theorem Walk.statement {db d d' : D} {ds : List D} {st : Stmt D K Ch ε R} {b : R}
    (h : st.apply d = .ok (b, d')) :
    Walk i (Sees i db ds d) (Prog.perform (.sql st) : Prog ε (Cmd D K Ch V ε) R) [db]
      fun r s => r = .ok b ∧ Sees i db ds d' s := by
  have hlone : Lone i (Sees i db ds d) (Prog.perform (.sql st) : Prog ε (Cmd D K Ch V ε) R)
      (Ends i db ds (st.apply d)) := Lone.statement st
  rw [h] at hlone
  exact Walk.perform hlone fun _ hs => hs.holds.db_eq

/-- A statement that is known to be refused. -/
theorem Walk.refused {db d : D} {ds : List D} {st : Stmt D K Ch ε R} {e : ε}
    (h : st.apply d = .error e) :
    Walk i (Sees i db ds d) (Prog.perform (.sql st) : Prog ε (Cmd D K Ch V ε) R) [db]
      fun r s => r = .error e ∧ Holds i db ds s := by
  have hlone : Lone i (Sees i db ds d) (Prog.perform (.sql st) : Prog ε (Cmd D K Ch V ε) R)
      (Ends i db ds (st.apply d)) := Lone.statement st
  rw [h] at hlone
  exact Walk.perform hlone fun _ hs => hs.holds.db_eq

theorem Walk.commit {db d : D} {ds : List D} :
    Walk i (Sees i db ds d) (Prog.perform .commit : Prog ε (Cmd D K Ch V ε) Unit) [db]
      fun r s => r = .ok () ∧ Sees i d [] d s :=
  Walk.perform Lone.commit fun _ hs => hs.holds.db_eq

/-- A walk is a run of the session by itself. -/
theorem Walk.lone {p : Prog ε (Cmd D K Ch V ε) α} (h : Walk i P p dbs Q) : Lone i P p Q := by
  have hrun : ∀ (p : Prog ε (Cmd D K Ch V ε) α) (dbs : List D) (s s' : World ι D K Ch V)
      (r : Except ε α), walk i p s = some (dbs, r, s') →
        runAlone (fun i => exec i) i p s = some (r, s') := by
    intro p
    induction p with
    | ret a =>
        intro dbs s s' r hwalk
        cases hwalk
        rfl
    | raise e =>
        intro dbs s s' r hwalk
        cases hwalk
        rfl
    | call c k ih =>
        intro dbs s s' r hwalk
        rw [walk] at hwalk
        obtain ⟨out, hexec, hmap⟩ := Option.bind_eq_some_iff.1 hwalk
        obtain ⟨rest, hrest, heq⟩ := Option.map_eq_some_iff.1 hmap
        rw [runAlone, hexec]
        refine ih out.1 rest.1 out.2 s' r ?_
        rw [hrest, ← (Prod.mk.inj heq).2]
  intro s hs
  obtain ⟨r, s', hwalk, hq⟩ := h s hs
  exact ⟨r, s', hrun p dbs s s' r hwalk, hq⟩

end Rules

/-! ## What a mishap leaves -/

/-- The program has no handlers: an exception of a command ends it. -/
def Prog.EndsOnError {C : Type → Type 1} : Prog ε C α → Prop
  | .ret _ | .raise _ => True
  | .call _ k => (∀ e, k (.error e) = .raise e) ∧ ∀ b, (k (.ok b)).EndsOnError

omit [Faults ε] in
theorem Prog.EndsOnError.bind {C : Type → Type 1} {p : Prog ε C β} {f : β → Prog ε C α}
    (hp : p.EndsOnError) (hf : ∀ b, (f b).EndsOnError) : (p.bind f).EndsOnError := by
  induction p with
  | ret b => exact hf b
  | raise e => trivial
  | call c k ih =>
      constructor
      · intro e
        show (k (.error e)).bind f = _
        rw [hp.1 e]
        rfl
      · intro b
        exact ih (.ok b) (hp.2 b)

omit [Faults ε] in
theorem Prog.endsOnError_perform {C : Type → Type 1} (c : C β) :
    (Prog.perform c : Prog ε C β).EndsOnError :=
  ⟨fun _ => rfl, fun _ => trivial⟩

/-- What is left of the databases before the commands from the `n`th on, and of the last one. -/
def leftOf (plan : ℕ → Option (Mishap ε)) : ℕ → List D → D → D
  | _, [], last => last
  | n, db :: dbs, last =>
    match plan n with
    | none => leftOf plan (n + 1) dbs last
    | some m => if m.carriedOut then dbs.headD last else db

section Left

variable {i : ι} {plan : ℕ → Option (Mishap ε)}

theorem headD_of_walk {p : Prog ε (Cmd D K Ch V ε) α} {s s' : World ι D K Ch V} {dbs : List D}
    {r : Except ε α} (h : walk i p s = some (dbs, r, s')) : dbs.headD s'.db = s.db := by
  cases p with
  | ret a =>
      cases h
      rfl
  | raise e =>
      cases h
      rfl
  | call c k =>
      simp only [walk, Option.bind_eq_some_iff, Option.map_eq_some_iff] at h
      obtain ⟨out, -, ⟨dbs', r', s''⟩, -, heq⟩ := h
      cases heq
      rfl

/-- A mishap leaves the database as it was before its command, or as the command leaves it. -/
theorem Mishap.db_strike {m : Mishap ε} {c : Cmd D K Ch V ε β} {s s' : World ι D K Ch V}
    {r : Except ε β} (h : exec i c s = some (r, s')) :
    (m.strike i c s).db = if m.carriedOut then s'.db else s.db := by
  cases m with
  | refused e =>
      simp only [strike, carriedOut, Bool.false_eq_true, if_false]
      split <;> rfl
  | lost e => rfl
  | lostAfter e =>
      simp only [strike, carriedOut, h, Option.elim_some, if_true]
      rfl
  | death => rfl
  | deathAfter =>
      simp only [strike, carriedOut, h, Option.elim_some, if_true]
      rfl

variable (plan) in
/-- A program without handlers leaves one of the databases along its lone run. -/
theorem committed_of_struck {p : Prog ε (Cmd D K Ch V ε) α} (hp : p.EndsOnError) {n : ℕ}
    {s s' : World ι D K Ch V} {dbs : List D} {r : Except ε α} (h : walk i p s = some (dbs, r, s')) :
    ∃ out t, runStruck i plan n p s = some (out, t) ∧ t.db = leftOf plan n dbs s'.db := by
  induction p generalizing n s dbs with
  | ret a =>
      cases h
      exact ⟨_, _, rfl, rfl⟩
  | raise e =>
      cases h
      exact ⟨_, _, rfl, rfl⟩
  | call c k ih =>
      simp only [walk, Option.bind_eq_some_iff, Option.map_eq_some_iff] at h
      obtain ⟨out, hexec, ⟨dbs', r', s''⟩, hrest, heq⟩ := h
      cases heq
      simp only [runStruck, leftOf]
      cases hplan : plan n with
      | none =>
          simp only [hexec, Option.bind_some]
          -- the rest starts from the answer, which is an exception only if it ends the program
          have hnext : (k out.1).EndsOnError := by
            cases hout : out.1 with
            | ok b => exact hp.2 b
            | error e =>
                rw [hp.1 e]
                trivial
          exact ih out.1 hnext hrest
      | some m =>
          have hdb := Mishap.db_strike (m := m) (c := c) hexec
          rw [← headD_of_walk hrest] at hdb
          dsimp only
          cases hm : m.exception with
          | none => exact ⟨_, _, rfl, hdb⟩
          | some e =>
              dsimp only
              rw [hp.1 e]
              exact ⟨_, _, rfl, hdb⟩

/-- The `k`th command is carried out. -/
def Reaches (plan : ℕ → Option (Mishap ε)) (k : ℕ) : Prop :=
  (∀ j < k, plan j = none) ∧ ∀ m, plan k = some m → m.carriedOut = true

omit [Faults ε] in
theorem leftOf_of_clear {n a : ℕ} {x : D} {dbs : List D} {last : D}
    (h : ∀ j, n ≤ j → j < n + a → plan j = none) :
    leftOf plan n (List.replicate a x ++ dbs) last = leftOf plan (n + a) dbs last := by
  induction a generalizing n with
  | zero => rfl
  | succ a ih =>
      rw [List.replicate_succ, List.cons_append, leftOf, h n le_rfl (by omega)]
      dsimp only
      rw [ih fun j hj hja => h j (by omega) (by omega)]
      congr 1
      omega

omit [Faults ε] in
/-- Before a stretch of equal databases is over, that database is left. -/
theorem leftOf_of_not_reaches {n a : ℕ} {x : D} {dbs : List D} {last : D}
    (hclear : ∀ j < n, plan j = none) (h : ¬Reaches plan (n + a)) :
    leftOf plan n (List.replicate (a + 1) x ++ dbs) last = x := by
  induction a generalizing n with
  | zero =>
      have hstruck : ∃ m, plan n = some m ∧ m.carriedOut = false := by
        by_contra hno
        refine h ⟨hclear, fun m hm => ?_⟩
        by_contra hnot
        exact hno ⟨m, hm, by simpa using hnot⟩
      obtain ⟨m, hm, hnot⟩ := hstruck
      simp [leftOf, hm, hnot]
  | succ a ih =>
      rw [List.replicate_succ, List.cons_append, leftOf]
      cases hn : plan n with
      | none =>
          apply ih
          · intro j hj
            rcases Nat.lt_or_eq_of_le (Nat.lt_succ_iff.1 hj) with hlt | rfl
            · exact hclear j hlt
            · exact hn
          · rwa [Nat.add_right_comm]
      | some m =>
          -- the command before which it strikes leaves the stretch as it is
          rw [List.replicate_succ, List.cons_append, List.headD_cons]
          simp

omit [Faults ε] in
/-- When the last command of a stretch is carried out, what comes after the stretch decides. -/
theorem leftOf_of_reaches {n a : ℕ} {x : D} {dbs : List D} {last : D} (h : Reaches plan (n + a)) :
    leftOf plan n (List.replicate (a + 1) x ++ dbs) last =
      if plan (n + a) = none then leftOf plan (n + a + 1) dbs last else dbs.headD last := by
  have hsplit : List.replicate (a + 1) x ++ dbs = List.replicate a x ++ x :: dbs := by
    rw [List.replicate_succ', List.append_assoc]
    rfl
  rw [hsplit, leftOf_of_clear fun j _ hj => h.1 j hj, leftOf]
  cases hk : plan (n + a) with
  | none => simp
  | some m => simp [h.2 m hk]

omit [Faults ε] in
variable (plan) in
/-- One commit at most, as the last command. -/
theorem leftOf_replicate_or {n c : ℕ} {x z : D} :
    leftOf plan n (List.replicate c x) z = x ∨ leftOf plan n (List.replicate c x) z = z := by
  induction c generalizing n with
  | zero => exact .inr rfl
  | succ c ih =>
      rw [List.replicate_succ, leftOf]
      cases plan n with
      | none => exact ih
      | some m =>
          dsimp only
          split
          · cases c with
            | zero => exact .inr rfl
            | succ c => exact .inl rfl
          · exact .inl rfl

omit [Faults ε] in
theorem leftOf_replicate {n c : ℕ} {z : D} : leftOf plan n (List.replicate c z) z = z :=
  (leftOf_replicate_or plan).elim id id

omit [Faults ε] in
variable (plan) in
/-- Two commits: the database before the first, between them, and after the second. -/
theorem leftOf_two_commits {a b c : ℕ} {x y z : D} :
    (¬Reaches plan a →
        leftOf plan 0
          (List.replicate (a + 1) x ++ (List.replicate (b + 1) y ++ List.replicate c z)) z = x) ∧
      (Reaches plan a → ¬Reaches plan (a + 1 + b) →
        leftOf plan 0
          (List.replicate (a + 1) x ++ (List.replicate (b + 1) y ++ List.replicate c z)) z = y) ∧
      (Reaches plan (a + 1 + b) →
        leftOf plan 0 (List.replicate (a + 1) x ++
          (List.replicate (b + 1) y ++ List.replicate c z)) z = z) := by
  refine ⟨fun hnot => ?_, fun hfirst hnot => ?_, fun hsecond => ?_⟩
  · apply leftOf_of_not_reaches (fun j hj => absurd hj (Nat.not_lt_zero j))
    rwa [Nat.zero_add]
  · rw [leftOf_of_reaches (by rwa [Nat.zero_add])]
    split
    · rename_i hnone
      rw [Nat.zero_add] at hnone ⊢
      apply leftOf_of_not_reaches _ hnot
      intro j hj
      rcases Nat.lt_or_eq_of_le (Nat.lt_succ_iff.1 hj) with hlt | rfl
      · exact hfirst.1 j hlt
      · exact hnone
    · rfl
  · have hfirst : Reaches plan a :=
      ⟨fun j hj => hsecond.1 j (by omega),
        fun m hm => by rw [hsecond.1 a (by omega)] at hm; cases hm⟩
    rw [leftOf_of_reaches (by rwa [Nat.zero_add]), Nat.zero_add, if_pos (hsecond.1 a (by omega)),
      leftOf_of_reaches hsecond]
    split
    · exact leftOf_replicate
    · cases c <;> rfl

end Left

end Vivac.Lib
