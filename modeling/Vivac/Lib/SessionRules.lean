import Vivac.Lib.Platform
import Vivac.Lib.RelyGuarantee

/-!
# What one command of a session does

One case lemma for each command, and the frame: a command leaves the
transaction, the locks and the knowledge of every other session alone
(`Undisturbed`), and so does the environment, except that it may end a
transaction. Relies of sessions are built on `Undisturbed`.
-/

set_option autoImplicit false

namespace Vivac.Lib

variable {ι D K Ch V ε R β : Type} [DecidableEq ι] [DecidableEq K] [Faults ε]

/-! ## Cases of a command -/

section Cases

variable {i : ι} {s s' : World ι D K Ch V}

/-- A statement is refused, raises, or runs with its locks free. -/
theorem exec_sql_cases {st : Stmt D K Ch ε R} {r : Except ε R}
    (h : exec i (.sql st) s = some (r, s')) :
    ((s.tx i).status ≠ .active ∧ (∃ e, r = .error e) ∧ s' = s) ∨
    ((s.tx i).status = .active ∧ ∃ e, st (s.heldByOther i) (s.view i) = .error e ∧ r = .error e ∧
      s' = (s.query i).setTx i { s.tx i with status := .failed }) ∨
    ((s.tx i).status = .active ∧ ∃ eff, st (s.heldByOther i) (s.view i) = .ok eff ∧
      (∀ k ∈ eff.locks, s.heldByOther i k = false) ∧ r = .ok eff.result ∧
      s' = ((s.query i).lock i eff.locks).setTx i
        { s.tx i with work := ⟨eff.write ∘ (s.tx i).work.write,
            (s.tx i).work.locks ++ eff.locks, (s.tx i).work.changes ++ eff.changes⟩ }) := by
  simp only [exec, onActive] at h
  split at h
  · rename_i hst
    unfold execSql at h
    split at h
    · rename_i e he
      cases h
      exact .inr (.inl ⟨hst, e, he, rfl, rfl⟩)
    · rename_i eff heff
      split at h
      · cases h
      · rename_i hfree
        cases h
        refine .inr (.inr ⟨hst, eff, heff, ?_, rfl, rfl⟩)
        simpa using hfree
  · rename_i hst
    cases h
    exact .inl ⟨by rw [hst]; decide, ⟨_, rfl⟩, rfl⟩
  · rename_i hst
    cases h
    exact .inl ⟨by rw [hst]; decide, ⟨_, rfl⟩, rfl⟩

/-- A commit publishes the work, or ends a failed transaction, or finds it lost. -/
theorem exec_commit_cases {r : Except ε Unit} (h : exec i .commit s = some (r, s')) :
    ((s.tx i).status = .active ∧ r = .ok () ∧ s' = execCommit i s (s.tx i)) ∨
    ((s.tx i).status = .failed ∧ r = .ok () ∧ s' = endTx i (s.log i .rollback)) ∨
    ((s.tx i).status = .lost ∧ (∃ e, r = .error e) ∧ s' = s) := by
  simp only [exec] at h
  split at h
  · rename_i hst
    cases h
    exact .inl ⟨hst, rfl, rfl⟩
  · rename_i hst
    cases h
    exact .inr (.inl ⟨hst, rfl, rfl⟩)
  · rename_i hst
    cases h
    exact .inr (.inr ⟨hst, ⟨_, rfl⟩, rfl⟩)

theorem exec_rollback_eq {r : Except ε Unit} (h : exec i .rollback s = some (r, s')) :
    r = .ok () ∧ s' = endTx i (s.log i .rollback) := by
  simp only [exec] at h
  cases h
  exact ⟨rfl, rfl⟩

/-- A version read or a cache probe: a missing key, a counter, or a body, whose
provenance enters the session's knowledge. -/
theorem exec_get_cases {key : String} {r : Except ε (Option (ℕ ⊕ V))}
    (h : exec i (.get key) s = some (r, s')) :
    (s.redis key = none ∧ r = .ok none ∧ s' = s.log i (.get key)) ∨
    (∃ n, s.redis key = some (.counter n) ∧ r = .ok (some (.inl n)) ∧ s' = s.log i (.get key)) ∨
    (∃ v p, s.redis key = some (.body v p) ∧ r = .ok (some (.inr v)) ∧
      s' = { s.log i (.get key) with prov := Function.update s.prov i (p ++ s.prov i) }) := by
  simp only [exec] at h
  split at h
  · rename_i hk
    cases h
    exact .inl ⟨hk, rfl, rfl⟩
  · rename_i n hk
    cases h
    exact .inr (.inl ⟨n, hk, rfl, rfl⟩)
  · rename_i v p hk
    cases h
    exact .inr (.inr ⟨v, p, hk, rfl, rfl⟩)

theorem exec_set_eq {key : String} {v : V} {r : Except ε Unit}
    (h : exec i (.set key v) s = some (r, s')) :
    r = .ok () ∧ s' = (s.log i (.set key)).store key (.body v (s.prov i)) := by
  simp only [exec] at h
  cases h
  exact ⟨rfl, rfl⟩

theorem exec_incr_cases {key : String} {r : Except ε Unit}
    (h : exec i (.incr key) s = some (r, s')) :
    (∃ v p, s.redis key = some (.body v p) ∧ (∃ e, r = .error e) ∧ s' = s) ∨
    ((∀ v p, s.redis key ≠ some (.body v p)) ∧ r = .ok () ∧
      s' = (s.log i (.incr key (s.counter key + 1))).store key (.counter (s.counter key + 1))) := by
  simp only [exec] at h
  split at h
  · rename_i v p hk
    cases h
    exact .inl ⟨v, p, hk, ⟨_, rfl⟩, rfl⟩
  · rename_i hk
    cases h
    exact .inr ⟨fun v p hv => hk v p hv, rfl, rfl⟩

end Cases

/-! ## The trace -/

section Trace

variable {i : ι} {s s' : World ι D K Ch V}

/-- A command records one event of its session, or none. -/
theorem exec_trace {c : Cmd D K Ch V ε β} {r : Except ε β} (h : exec i c s = some (r, s')) :
    s'.trace = s.trace ∨ ∃ a, s'.trace = s.trace ++ [⟨i, a⟩] := by
  cases c with
  | sql st =>
    rcases exec_sql_cases h with ⟨-, -, rfl⟩ | ⟨-, e, -, -, rfl⟩ | ⟨-, eff, -, -, -, rfl⟩
    · exact .inl rfl
    · exact .inr ⟨.query, rfl⟩
    · exact .inr ⟨.query, rfl⟩
  | commit =>
    rcases exec_commit_cases h with ⟨-, -, rfl⟩ | ⟨-, -, rfl⟩ | ⟨-, -, rfl⟩
    · exact .inr ⟨.commit (s.tx i).work.changes, rfl⟩
    · exact .inr ⟨.rollback, rfl⟩
    · exact .inl rfl
  | rollback =>
    obtain ⟨-, rfl⟩ := exec_rollback_eq h
    exact .inr ⟨.rollback, rfl⟩
  | savepoint =>
    simp only [exec, onActive] at h
    split at h <;> cases h <;> exact .inl rfl
  | release =>
    simp only [exec, onActive] at h
    split at h <;> cases h <;> exact .inl rfl
  | rollbackTo =>
    simp only [exec] at h
    split at h <;> cases h
    · exact .inl rfl
    · unfold execRollbackTo
      split <;> exact .inl rfl
  | get key =>
    rcases exec_get_cases h with ⟨-, -, rfl⟩ | ⟨n, -, -, rfl⟩ | ⟨v, p, -, -, rfl⟩
    · exact .inr ⟨.get key, rfl⟩
    · exact .inr ⟨.get key, rfl⟩
    · exact .inr ⟨.get key, rfl⟩
  | set key v =>
    obtain ⟨-, rfl⟩ := exec_set_eq h
    exact .inr ⟨.set key, rfl⟩
  | incr key =>
    rcases exec_incr_cases h with ⟨v, p, -, -, rfl⟩ | ⟨-, -, rfl⟩
    · exact .inl rfl
    · exact .inr ⟨.incr key (s.counter key + 1), rfl⟩

/-- What has happened stays so. -/
theorem at_of_exec {c : Cmd D K Ch V ε β} {r : Except ε β} (h : exec i c s = some (r, s'))
    {t : ℕ} {e : Event ι Ch} (hat : s.At t e) : s'.At t e := by
  rcases exec_trace h with htr | ⟨a, htr⟩
  · simpa only [World.At, htr] using hat
  · have hlt : t < s.trace.length := (List.getElem?_eq_some_iff.1 hat).1
    simp only [World.At, htr]
    rw [List.getElem?_append_left hlt]
    exact hat

/-- A body in the store was there before, or a store of its session put it there. -/
theorem body_of_exec {c : Cmd D K Ch V ε β} {r : Except ε β} (h : exec i c s = some (r, s'))
    {key : String} {v : V} {p : List ℕ} (hbody : s'.redis key = some (.body v p)) :
    s.redis key = some (.body v p) ∨
      p = s.prov i ∧ s'.trace = s.trace ++ [⟨i, .set key⟩] ∧
        ∀ ok : ∀ {γ : Type}, Cmd D K Ch V ε γ → Prop, ok c → ok (.set key v) := by
  cases c with
  | sql st =>
    rcases exec_sql_cases h with ⟨-, -, rfl⟩ | ⟨-, e, -, -, rfl⟩ | ⟨-, eff, -, -, -, rfl⟩ <;>
      exact .inl hbody
  | commit =>
    rcases exec_commit_cases h with ⟨-, -, rfl⟩ | ⟨-, -, rfl⟩ | ⟨-, -, rfl⟩ <;> exact .inl hbody
  | rollback =>
    obtain ⟨-, rfl⟩ := exec_rollback_eq h
    exact .inl hbody
  | savepoint =>
    simp only [exec, onActive] at h
    split at h <;> cases h <;> exact .inl hbody
  | release =>
    simp only [exec, onActive] at h
    split at h <;> cases h <;> exact .inl hbody
  | rollbackTo =>
    simp only [exec] at h
    split at h <;> cases h
    · exact .inl hbody
    · unfold execRollbackTo at hbody
      split at hbody <;> exact .inl hbody
  | get key' =>
    rcases exec_get_cases h with ⟨-, -, rfl⟩ | ⟨n, -, -, rfl⟩ | ⟨w, q, -, -, rfl⟩ <;>
      exact .inl hbody
  | set key' w =>
    obtain ⟨-, rfl⟩ := exec_set_eq h
    by_cases heq : key = key'
    · subst heq
      have hself : ((s.log i (.set key)).store key (.body w (s.prov i))).redis key =
          some (.body w (s.prov i)) := Function.update_self _ _ _
      rw [hself] at hbody
      cases hbody
      exact .inr ⟨rfl, rfl, fun _ hc => hc⟩
    · have hother : ((s.log i (.set key')).store key' (.body w (s.prov i))).redis key =
          s.redis key := Function.update_of_ne heq _ _
      exact .inl (hother ▸ hbody)
  | incr key' =>
    rcases exec_incr_cases h with ⟨w, q, -, -, rfl⟩ | ⟨-, -, rfl⟩
    · exact .inl hbody
    · by_cases heq : key = key'
      · subst heq
        have hself : ((s.log i (.incr key (s.counter key + 1))).store key
            (.counter (s.counter key + 1))).redis key = some (.counter (s.counter key + 1)) :=
          Function.update_self _ _ _
        rw [hself] at hbody
        cases hbody
      · have hother : ((s.log i (.incr key' (s.counter key' + 1))).store key'
            (.counter (s.counter key' + 1))).redis key = s.redis key :=
          Function.update_of_ne heq _ _
        exact .inl (hother ▸ hbody)

/-- What a command adds to its session's knowledge: nothing, a query of this moment, or, as a `get`,
what is behind the body it finds. -/
theorem prov_of_exec {c : Cmd D K Ch V ε β} {r : Except ε β} (h : exec i c s = some (r, s')) :
    s'.prov i = s.prov i ∨
    (s'.prov i = s.clock :: s.prov i ∧ s'.trace = s.trace ++ [⟨i, .query⟩]) ∨
    ∃ key v p, (∀ ok : ∀ {γ : Type}, Cmd D K Ch V ε γ → Prop, ok c → ok (.get key)) ∧
      s.redis key = some (.body v p) ∧ s'.trace = s.trace ++ [⟨i, .get key⟩] ∧
      s'.prov i = p ++ s.prov i := by
  cases c with
  | sql st =>
    rcases exec_sql_cases h with ⟨-, -, rfl⟩ | ⟨-, e, -, -, rfl⟩ | ⟨-, eff, -, -, -, rfl⟩
    · exact .inl rfl
    · exact .inr (.inl ⟨Function.update_self _ _ _, rfl⟩)
    · exact .inr (.inl ⟨Function.update_self _ _ _, rfl⟩)
  | commit =>
    rcases exec_commit_cases h with ⟨-, -, rfl⟩ | ⟨-, -, rfl⟩ | ⟨-, -, rfl⟩ <;> exact .inl rfl
  | rollback =>
    obtain ⟨-, rfl⟩ := exec_rollback_eq h
    exact .inl rfl
  | savepoint =>
    simp only [exec, onActive] at h
    split at h <;> cases h <;> exact .inl rfl
  | release =>
    simp only [exec, onActive] at h
    split at h <;> cases h <;> exact .inl rfl
  | rollbackTo =>
    simp only [exec] at h
    split at h <;> cases h
    · exact .inl rfl
    · unfold execRollbackTo
      split <;> exact .inl rfl
  | get key =>
    rcases exec_get_cases h with ⟨-, -, rfl⟩ | ⟨n, -, -, rfl⟩ | ⟨v, p, hbody, -, rfl⟩
    · exact .inl rfl
    · exact .inl rfl
    · exact .inr (.inr ⟨key, v, p, fun _ h => h, hbody, rfl, Function.update_self _ _ _⟩)
  | set key v =>
    obtain ⟨-, rfl⟩ := exec_set_eq h
    exact .inl rfl
  | incr key =>
    rcases exec_incr_cases h with ⟨v, p, -, -, rfl⟩ | ⟨-, -, rfl⟩ <;> exact .inl rfl

end Trace

/-! ## The frame -/

/-- What happened since `s` left session `j` alone, or the server ended its transaction. -/
structure Undisturbed (j : ι) (s s' : World ι D K Ch V) : Prop where
  trace : ∃ evs, s'.trace = s.trace ++ evs ∧ ∀ e ∈ evs, e.session ≠ j
  prov : s'.prov j = s.prov j
  seen : s'.seen j = s.seen j
  tx : (s'.tx j = s.tx j ∧ ∀ k, s.holder k = some j → s'.holder k = some j) ∨
    s'.tx j = { status := .lost }

namespace Undisturbed

omit [DecidableEq ι] [DecidableEq K] in
theorem refl (j : ι) (s : World ι D K Ch V) : Undisturbed j s s :=
  ⟨⟨[], by simp, by simp⟩, rfl, rfl, .inl ⟨rfl, fun _ h => h⟩⟩

omit [DecidableEq ι] [DecidableEq K] in
theorem trans {j : ι} {a b c : World ι D K Ch V} (h₁ : Undisturbed j a b)
    (h₂ : Undisturbed j b c) : Undisturbed j a c := by
  obtain ⟨e₁, htr₁, hne₁⟩ := h₁.trace
  obtain ⟨e₂, htr₂, hne₂⟩ := h₂.trace
  refine ⟨⟨e₁ ++ e₂, by rw [htr₂, htr₁, List.append_assoc], fun e he => ?_⟩,
    h₂.prov.trans h₁.prov, h₂.seen.trans h₁.seen, ?_⟩
  · rcases List.mem_append.1 he with he | he
    · exact hne₁ e he
    · exact hne₂ e he
  rcases h₂.tx with ⟨htx₂, hl₂⟩ | hlost₂
  · rcases h₁.tx with ⟨htx₁, hl₁⟩ | hlost₁
    · exact .inl ⟨htx₂.trans htx₁, fun k hk => hl₂ k (hl₁ k hk)⟩
    · exact .inr (htx₂.trans hlost₁)
  · exact .inr hlost₂

variable {j : ι} {s s' : World ι D K Ch V}

omit [DecidableEq ι] [DecidableEq K] in
theorem at_of_at (h : Undisturbed j s s') {t : ℕ} {e : Event ι Ch} (ht : s.At t e) : s'.At t e := by
  obtain ⟨evs, htr, -⟩ := h.trace
  have hlt : t < s.trace.length := (List.getElem?_eq_some_iff.1 ht).1
  show s'.trace[t]? = some e
  rw [htr, List.getElem?_append_left hlt]
  exact ht

omit [DecidableEq ι] [DecidableEq K] in
/-- Session `j` did nothing meanwhile. -/
theorem at_of_own (h : Undisturbed j s s') {t : ℕ} {e : Event ι Ch} (ht : s'.At t e)
    (he : e.session = j) : s.At t e := by
  obtain ⟨evs, htr, hne⟩ := h.trace
  have hget : (s.trace ++ evs)[t]? = some e := htr ▸ ht
  by_cases hlt : t < s.trace.length
  · rwa [List.getElem?_append_left hlt] at hget
  · rw [List.getElem?_append_right (Nat.le_of_not_lt hlt)] at hget
    exact absurd he (hne e (List.mem_of_getElem? hget))

end Undisturbed

namespace World

variable {i j : ι} {s : World ι D K Ch V}

omit [DecidableEq ι] [DecidableEq K] in
theorem lt_clock_of_at {t : ℕ} {e : Event ι Ch} (h : s.At t e) : t < s.clock :=
  (List.getElem?_eq_some_iff.1 h).1

omit [DecidableEq ι] [DecidableEq K] in
/-- The events after one more action. -/
theorem at_log {a : Action Ch} {t : ℕ} {e : Event ι Ch} :
    (s.log i a).At t e ↔ s.At t e ∨ t = s.clock ∧ e = ⟨i, a⟩ := by
  simp only [At, log, clock]
  by_cases hlt : t < s.trace.length
  · rw [List.getElem?_append_left hlt]
    constructor
    · exact .inl
    · rintro (h | ⟨rfl, -⟩)
      · exact h
      · exact absurd hlt (Nat.lt_irrefl _)
  · rw [List.getElem?_append_right (Nat.le_of_not_lt hlt)]
    constructor
    · intro h
      have hlen := (List.getElem?_eq_some_iff.1 h).1
      rw [List.length_singleton] at hlen
      have ht : t = s.trace.length := by omega
      subst ht
      simp only [Nat.sub_self, List.getElem?_cons_zero, Option.some.injEq] at h
      exact .inr ⟨rfl, h.symm⟩
    · rintro (h | ⟨rfl, rfl⟩)
      · exact absurd (List.getElem?_eq_some_iff.1 h).1 hlt
      · simp

theorem holder_unlock_of_ne {keep : List K} {k : K} (hj : j ≠ i) (h : s.holder k = some j) :
    (s.unlock i keep).holder k = some j := by
  have hne : ¬(s.holder k = some i ∧ k ∉ keep) := fun hk => hj (Option.some.inj (h.symm.trans hk.1))
  exact (if_neg hne).trans h

theorem holder_lock_of_ne {ks : List K} {k : K} (hfree : ∀ k ∈ ks, s.heldByOther i k = false)
    (hj : j ≠ i) (h : s.holder k = some j) : (s.lock i ks).holder k = some j := by
  have hk : k ∉ ks := by
    intro hmem
    have hfr := hfree k hmem
    simp [heldByOther, h, hj] at hfr
  simp only [lock, hk, if_false, h]

end World

/-- A command leaves the other sessions alone. -/
theorem exec_undisturbed {i j : ι} (hj : j ≠ i) {c : Cmd D K Ch V ε β} {r : Except ε β}
    {s s' : World ι D K Ch V} (h : exec i c s = some (r, s')) : Undisturbed j s s' := by
  -- no command records more than one event, and that one is of session `i`
  have hnil : ∀ t : World ι D K Ch V, ∃ evs, t.trace = t.trace ++ evs ∧ ∀ e ∈ evs, e.session ≠ j :=
    fun t => ⟨[], by simp, by simp⟩
  have hone : ∀ a, ∃ evs, (s.log i a).trace = s.trace ++ evs ∧ ∀ e ∈ evs, e.session ≠ j :=
    fun a => ⟨[⟨i, a⟩], rfl, by simpa using Ne.symm hj⟩
  have hend : ∀ t : World ι D K Ch V, Undisturbed j t (endTx i t) := fun t =>
    ⟨hnil t, rfl, rfl,
      .inl ⟨Function.update_of_ne hj _ _, fun k hk => World.holder_unlock_of_ne hj hk⟩⟩
  have hlog : ∀ a, Undisturbed j s (s.log i a) := fun a =>
    ⟨hone a, rfl, rfl, .inl ⟨rfl, fun _ hk => hk⟩⟩
  have hset : ∀ t : Tx D K Ch, Undisturbed j s (s.setTx i t) := fun t =>
    ⟨hnil s, rfl, rfl, .inl ⟨Function.update_of_ne hj _ _, fun _ hk => hk⟩⟩
  cases c with
  | sql st =>
    rcases exec_sql_cases h with ⟨-, -, rfl⟩ | ⟨-, e, -, -, rfl⟩ | ⟨-, eff, -, hfree, -, rfl⟩
    · exact .refl j _
    · exact ⟨hone .query, Function.update_of_ne hj _ _, Function.update_of_ne hj _ _,
        .inl ⟨Function.update_of_ne hj _ _, fun _ hk => hk⟩⟩
    · refine ⟨hone .query, Function.update_of_ne hj _ _, Function.update_of_ne hj _ _,
        .inl ⟨Function.update_of_ne hj _ _, fun k hk => ?_⟩⟩
      exact World.holder_lock_of_ne (s := s.query i) hfree hj hk
  | commit =>
    rcases exec_commit_cases h with ⟨-, -, rfl⟩ | ⟨-, -, rfl⟩ | ⟨-, -, rfl⟩
    · refine Undisturbed.trans ?_ (hend _)
      exact ⟨hone _, rfl, rfl, .inl ⟨rfl, fun _ hk => hk⟩⟩
    · exact (hlog _).trans (hend _)
    · exact .refl j _
  | rollback =>
    obtain ⟨-, rfl⟩ := exec_rollback_eq h
    exact (hlog _).trans (hend _)
  | savepoint =>
    simp only [exec, onActive] at h
    split at h <;> cases h
    · exact hset _
    · exact .refl j _
    · exact .refl j _
  | release =>
    simp only [exec, onActive] at h
    split at h <;> cases h
    · exact hset _
    · exact .refl j _
    · exact .refl j _
  | rollbackTo =>
    simp only [exec] at h
    split at h
    · cases h
      exact .refl j _
    · cases h
      unfold execRollbackTo
      split
      · exact .refl j _
      · exact ⟨hnil s, rfl, rfl,
          .inl ⟨Function.update_of_ne hj _ _, fun k hk => World.holder_unlock_of_ne hj hk⟩⟩
  | get key =>
    rcases exec_get_cases h with ⟨-, -, rfl⟩ | ⟨n, -, -, rfl⟩ | ⟨v, p, -, -, rfl⟩
    · exact hlog _
    · exact hlog _
    · exact ⟨hone (.get key), Function.update_of_ne hj _ _, rfl, .inl ⟨rfl, fun _ hk => hk⟩⟩
  | set key v =>
    obtain ⟨-, rfl⟩ := exec_set_eq h
    exact ⟨hone (.set key), rfl, rfl, .inl ⟨rfl, fun _ hk => hk⟩⟩
  | incr key =>
    rcases exec_incr_cases h with ⟨v, p, -, -, rfl⟩ | ⟨-, -, rfl⟩
    · exact .refl j _
    · exact ⟨hone _, rfl, rfl, .inl ⟨rfl, fun _ hk => hk⟩⟩

omit [Faults ε] in
theorem Env.db_eq {s s' : World ι D K Ch V} (h : Env s s') : s'.db = s.db := by
  cases h <;> rfl

/-- The environment leaves a session alone, or ends its transaction. -/
theorem Env.undisturbed {s s' : World ι D K Ch V} (h : Env s s') (j : ι) : Undisturbed j s s' := by
  cases h with
  | expire key hk => exact ⟨⟨[], by simp, by simp⟩, rfl, rfl, .inl ⟨rfl, fun _ hk => hk⟩⟩
  | lose i =>
    refine ⟨⟨[], by simp [World.setTx, World.unlock], by simp⟩, rfl, rfl, ?_⟩
    by_cases hj : j = i
    · subst hj
      exact .inr (Function.update_self _ _ _)
    · exact .inl ⟨Function.update_of_ne hj _ _, fun k hk => World.holder_unlock_of_ne hj hk⟩

/-! ## Programs that only read -/

/-- Every command is a `SELECT`. -/
inductive ReadOnly {α : Type} : Prog ε (Cmd D K Ch V ε) α → Prop
  | ret (a : α) : ReadOnly (.ret a)
  | raise (e : ε) : ReadOnly (.raise e)
  | read {R : Type} (f : D → R) (k : Except ε R → Prog ε (Cmd D K Ch V ε) α)
      (h : ∀ r, ReadOnly (k r)) : ReadOnly (.call (.sql (Stmt.read f)) k)

namespace ReadOnly

variable {α : Type}

omit [DecidableEq K] [Faults ε] in
theorem bind {p : Prog ε (Cmd D K Ch V ε) α} {f : α → Prog ε (Cmd D K Ch V ε) β}
    (hp : ReadOnly p) (hf : ∀ a, ReadOnly (f a)) : ReadOnly (p.bind f) := by
  induction hp with
  | ret a => exact hf a
  | raise e => exact .raise e
  | read g k _ ih => exact .read g _ ih

omit [DecidableEq K] [Faults ε] in
theorem ofExcept (r : Except ε α) : ReadOnly (.ofExcept r : Prog ε (Cmd D K Ch V ε) α) := by
  cases r with
  | ok a => exact .ret a
  | error e => exact .raise e

omit [DecidableEq K] [Faults ε] in
theorem select (f : D → R) :
    ReadOnly (.perform (.sql (Stmt.read f)) : Prog ε (Cmd D K Ch V ε) R) :=
  .read f _ ofExcept

end ReadOnly

/-- Every command is a statement. -/
inductive SqlOnly {α : Type} : Prog ε (Cmd D K Ch V ε) α → Prop
  | ret (a : α) : SqlOnly (.ret a)
  | raise (e : ε) : SqlOnly (.raise e)
  | sql {R : Type} (st : Stmt D K Ch ε R) (k : Except ε R → Prog ε (Cmd D K Ch V ε) α)
      (h : ∀ r, SqlOnly (k r)) : SqlOnly (.call (.sql st) k)

namespace SqlOnly

variable {α : Type}

omit [DecidableEq K] [Faults ε] in
theorem bind {p : Prog ε (Cmd D K Ch V ε) α} {f : α → Prog ε (Cmd D K Ch V ε) β}
    (hp : SqlOnly p) (hf : ∀ a, SqlOnly (f a)) : SqlOnly (p.bind f) := by
  induction hp with
  | ret a => exact hf a
  | raise e => exact .raise e
  | sql st k _ ih => exact .sql st _ ih

omit [DecidableEq K] [Faults ε] in
theorem execute (st : Stmt D K Ch ε R) :
    SqlOnly (.perform (.sql st) : Prog ε (Cmd D K Ch V ε) R) := by
  refine .sql st _ fun r => ?_
  cases r with
  | ok a => exact .ret a
  | error e => exact .raise e

end SqlOnly

omit [DecidableEq K] [Faults ε] in
theorem ReadOnly.sqlOnly {α : Type} {p : Prog ε (Cmd D K Ch V ε) α} (h : ReadOnly p) :
    SqlOnly p := by
  induction h with
  | ret a => exact .ret a
  | raise e => exact .raise e
  | read f k _ ih => exact .sql _ k ih

omit [DecidableEq K] [Faults ε] in
theorem SqlOnly.uses {α : Type} {ok : ∀ {γ : Type}, Cmd D K Ch V ε γ → Prop}
    {p : Prog ε (Cmd D K Ch V ε) α} (h : SqlOnly p)
    (hok : ∀ {R : Type} (st : Stmt D K Ch ε R), ok (.sql st : Cmd D K Ch V ε R)) : p.Uses ok := by
  induction h with
  | ret a => trivial
  | raise e => trivial
  | sql st k _ ih => exact ⟨hok st, ih⟩

omit [DecidableEq K] [Faults ε] in
theorem ReadOnly.uses {α : Type} {ok : ∀ {γ : Type}, Cmd D K Ch V ε γ → Prop}
    {p : Prog ε (Cmd D K Ch V ε) α} (h : ReadOnly p)
    (hok : ∀ {R : Type} (f : D → R), ok (.sql (Stmt.read f) : Cmd D K Ch V ε R)) : p.Uses ok := by
  induction h with
  | ret a => trivial
  | raise e => trivial
  | read f k _ ih => exact ⟨hok f, ih⟩

/-! ## Reading a fixed database -/

section Answers

variable {α : Type}

/-- A world with nothing going on. -/
def World.fresh (d : D) : World ι D K Ch V where
  db := d
  holder := fun _ => none
  tx := fun _ => {}
  redis := fun _ => none
  trace := []
  prov := fun _ => []
  seen := fun _ => []

/-- Run by itself on a session that sees `d`, the program answers `r` and leaves the
database as it is. -/
def Answers (i : ι) (d : D) (p : Prog ε (Cmd D K Ch V ε) α) (r : Except ε α) : Prop :=
  ∀ s : World ι D K Ch V, (s.tx i).status = .active → s.view i = d →
    ∃ s', runAlone (fun i => exec i) i p s = some (r, s') ∧
      (s'.tx i).status = .active ∧ s'.view i = d

variable {i : ι} {d : D}

theorem Answers.ret (a : α) : Answers i d (.ret a : Prog ε (Cmd D K Ch V ε) α) (.ok a) :=
  fun s hst hv => ⟨s, rfl, hst, hv⟩

theorem Answers.raise (e : ε) :
    Answers i d (.raise e : Prog ε (Cmd D K Ch V ε) α) (.error e) :=
  fun s hst hv => ⟨s, rfl, hst, hv⟩

theorem Answers.bind {p : Prog ε (Cmd D K Ch V ε) β} {f : β → Prog ε (Cmd D K Ch V ε) α} {b : β}
    {r : Except ε α} (hp : Answers i d p (.ok b)) (hf : Answers i d (f b) r) :
    Answers i d (p.bind f) r := by
  intro s hst hv
  obtain ⟨s₁, hrun, hst₁, hv₁⟩ := hp s hst hv
  obtain ⟨s₂, hrun₂, h₂⟩ := hf s₁ hst₁ hv₁
  exact ⟨s₂, by rw [runAlone_bind, hrun]; exact hrun₂, h₂⟩

/-- A `SELECT` answers what it reads. -/
theorem Answers.call_read {f : D → R} {k : Except ε R → Prog ε (Cmd D K Ch V ε) α}
    {r : Except ε α} (h : Answers i d (k (.ok (f d))) r) :
    Answers i d (.call (.sql (Stmt.read f)) k) r := by
  intro s hst hv
  have hexec : exec i (.sql (Stmt.read f : Stmt D K Ch ε R)) s = some (.ok (f d),
      ((s.query i).lock i []).setTx i { s.tx i with work :=
        ⟨id ∘ (s.tx i).work.write, (s.tx i).work.locks ++ [], (s.tx i).work.changes ++ []⟩ }) := by
    simp only [exec, onActive, hst, execSql, Stmt.read, List.any_nil, hv]
    rfl
  rw [runAlone, hexec]
  refine h _ ?_ ?_
  · simp only [World.setTx, Function.update_self]
    exact hst
  · simp only [World.view, World.setTx, Function.update_self]
    exact hv

theorem Answers.read (f : D → R) :
    Answers i d (.perform (.sql (Stmt.read f : Stmt D K Ch ε R)) : Prog ε (Cmd D K Ch V ε) R)
      (.ok (f d)) :=
  Answers.call_read (Answers.ret (f d))

theorem Answers.bind_error {p : Prog ε (Cmd D K Ch V ε) β} {f : β → Prog ε (Cmd D K Ch V ε) α}
    {e : ε} (hp : Answers i d p (.error e)) : Answers i d (p.bind f) (.error e) := by
  intro s hst hv
  obtain ⟨s₁, hrun, h₁⟩ := hp s hst hv
  exact ⟨s₁, by rw [runAlone_bind, hrun]; rfl, h₁⟩

/-- A program that only reads answers something. -/
theorem ReadOnly.exists_answers {p : Prog ε (Cmd D K Ch V ε) α} (h : ReadOnly p) (i : ι) (d : D) :
    ∃ r, Answers i d p r := by
  induction h with
  | ret a => exact ⟨.ok a, Answers.ret a⟩
  | raise e => exact ⟨.error e, Answers.raise e⟩
  | read f k _ ih =>
      obtain ⟨r, hr⟩ := ih (.ok (f d))
      exact ⟨r, Answers.call_read hr⟩

/-- What the program answers on a database, run by itself. -/
def answer (d : D) (p : Prog ε (Cmd D K Ch V ε) α) : Except ε α :=
  match runAlone (fun i : Unit => exec i) () p (World.fresh d) with
  | some (r, _) => r
  | none => .error Faults.lostConnection

theorem Answers.answer_eq {p : Prog ε (Cmd D K Ch V ε) α} {r : Except ε α}
    (h : Answers () d p r) : answer d p = r := by
  obtain ⟨s', hrun, -, -⟩ := h (World.fresh d) rfl rfl
  simp only [answer, hrun]

theorem ReadOnly.answers {p : Prog ε (Cmd D K Ch V ε) α} (h : ReadOnly p) (d : D) :
    Answers () d p (answer d p) := by
  obtain ⟨r, hr⟩ := h.exists_answers () d
  rwa [hr.answer_eq]

/-- What a program that only reads has answered, the rest goes on from. -/
theorem answer_bind {p : Prog ε (Cmd D K Ch V ε) β} {f : β → Prog ε (Cmd D K Ch V ε) α}
    (hp : ReadOnly p) (hf : ∀ b, ReadOnly (f b)) (d : D) :
    answer d (p.bind f) = (answer d p).bind fun b => answer d (f b) := by
  have hfirst := hp.answers d
  cases hr : answer d p with
  | error e =>
      rw [hr] at hfirst
      exact hfirst.bind_error.answer_eq
  | ok b =>
      rw [hr] at hfirst
      exact (hfirst.bind ((hf b).answers d)).answer_eq

end Answers

/-! ## Schedules -/

/-- The run of a schedule, computed, that ends as `p` says. -/
theorem exists_run_of_schedule {α : Type} (is : List ι)
    {c : Config ι ε (Cmd D K Ch V ε) (World ι D K Ch V) α}
    {p : Config ι ε (Cmd D K Ch V ε) (World ι D K Ch V) α → Bool}
    (h : (follow (fun i => exec i) is c).any p = true) : ∃ c', Run platform c c' ∧ p c' = true :=
  exists_run_of_follow is h

end Vivac.Lib
