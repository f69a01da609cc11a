import Vivac.Core.CacheKeys
import Vivac.Lib.SessionContract

/-!
# The invariant of the versioned cache

Versions only rise, and every body under a version was made by queries that ran after
each raise up to that version (`AsOf`). A slow reader cannot break this: it stores
under the version it read before its queries. `VersionStep` says what one command
does to the versions; every command but a store keeps the invariant by itself, and a
store keeps it when the session's knowledge is as of the version it stores under
(`keeps_cacheInvariant`).
-/

set_option autoImplicit false

namespace Vivac

open Lib

variable {ι : Type}

/-- The version key `vk` was raised to `n` at time `t`. -/
def RaisedAt (vk : String) (n t : ℕ) (s : State ι) : Prop := ∃ i, s.At t ⟨i, .incr vk n⟩

/-- Version `n` has been reached, and the queries at `times` ran after every raise up to it. -/
def AsOf (vk : String) (n : ℕ) (times : List ℕ) (s : State ι) : Prop :=
  n ≤ s.counter vk ∧ ∀ t ∈ times, ∀ m tb, RaisedAt vk m tb s → m ≤ n → tb < t

/-- Version keys hold versions, no raise exceeds the version, and every body is as of
the version it lies under. -/
structure CacheInvariant (s : State ι) : Prop where
  no_body : ∀ vk, Cache.IsVersionKey vk → ∀ v p, s.redis vk ≠ some (.body v p)
  raised_le : ∀ vk n t, Cache.IsVersionKey vk → RaisedAt vk n t s → n ≤ s.counter vk
  bodies : ∀ vk n key v p, Cache.BodyUnder vk n key → s.redis key = some (.body v p) →
    AsOf vk n p s

/-- Versions do not fall, and a raise is an old one or exceeds the old version. -/
structure VersionStep (s s' : State ι) : Prop where
  counter_le : ∀ vk, Cache.IsVersionKey vk → s.counter vk ≤ s'.counter vk
  raised : ∀ vk n t, Cache.IsVersionKey vk → RaisedAt vk n t s' →
    RaisedAt vk n t s ∨ s.counter vk < n
  kept : ∀ vk n t, RaisedAt vk n t s → RaisedAt vk n t s'

namespace VersionStep

theorem refl (s : State ι) : VersionStep s s :=
  ⟨fun _ _ => le_rfl, fun _ _ _ _ h => .inl h, fun _ _ _ h => h⟩

theorem trans {a b c : State ι} (hab : VersionStep a b) (hbc : VersionStep b c) :
    VersionStep a c := by
  refine ⟨fun vk hvk => (hab.counter_le vk hvk).trans (hbc.counter_le vk hvk), ?_,
    fun vk n t h => hbc.kept vk n t (hab.kept vk n t h)⟩
  intro vk n t hvk h
  rcases hbc.raised vk n t hvk h with h | h
  · exact hab.raised vk n t hvk h
  · exact .inr (lt_of_le_of_lt (hab.counter_le vk hvk) h)

/-- A command that leaves the keys and the raises alone. -/
theorem of_same {s s' : State ι} (hredis : s'.redis = s.redis)
    (hraised : ∀ vk n t, RaisedAt vk n t s' ↔ RaisedAt vk n t s) : VersionStep s s' := by
  have hcounter : ∀ vk, s'.counter vk = s.counter vk := by
    intro vk
    simp only [World.counter, hredis]
  exact ⟨fun vk _ => (hcounter vk).ge, fun vk n t _ h => .inl ((hraised vk n t).1 h),
    fun vk n t h => (hraised vk n t).2 h⟩

end VersionStep

/-- Knowledge as of a version stays so: a later raise is above the version. -/
theorem AsOf.mono {vk : String} {n : ℕ} {times : List ℕ} {s s' : State ι}
    (hvk : Cache.IsVersionKey vk) (hT : VersionStep s s') (h : AsOf vk n times s) :
    AsOf vk n times s' := by
  obtain ⟨hn, ht⟩ := h
  refine ⟨hn.trans (hT.counter_le vk hvk), ?_⟩
  intro t hmem m tb hraised hm
  rcases hT.raised vk m tb hvk hraised with hold | hnew
  · exact ht t hmem m tb hold hm
  · exact absurd (lt_of_lt_of_le hnew hm) (not_lt.2 hn)

theorem AsOf.append {vk : String} {n : ℕ} {p q : List ℕ} {s : State ι} (hp : AsOf vk n p s)
    (hq : AsOf vk n q s) : AsOf vk n (p ++ q) s := by
  refine ⟨hp.1, ?_⟩
  intro t hmem
  rcases List.mem_append.1 hmem with h | h
  · exact hp.2 t h
  · exact hq.2 t h

theorem AsOf.nil {vk : String} {n : ℕ} {s : State ι} (hn : n ≤ s.counter vk) : AsOf vk n [] s :=
  ⟨hn, by simp⟩

/-- A query of this moment comes after every raise. -/
theorem AsOf.now {vk : String} {n : ℕ} {s : State ι} (hn : n ≤ s.counter vk) :
    AsOf vk n [s.clock] s := by
  refine ⟨hn, ?_⟩
  intro t hmem m tb hraised _
  obtain ⟨i, hat⟩ := hraised
  rw [List.mem_singleton.1 hmem]
  exact World.lt_clock_of_at hat

/-- The invariant after a command that leaves the keys and the raises alone. -/
theorem CacheInvariant.of_same {s s' : State ι} (hi : CacheInvariant s)
    (hredis : s'.redis = s.redis)
    (hraised : ∀ vk n t, RaisedAt vk n t s' ↔ RaisedAt vk n t s) : CacheInvariant s' := by
  have hT : VersionStep s s' := .of_same hredis hraised
  refine ⟨?_, ?_, ?_⟩
  · intro vk hvk v p h
    exact hi.no_body vk hvk v p (hredis ▸ h)
  · intro vk n t hvk h
    exact (hi.raised_le vk n t hvk ((hraised vk n t).1 h)).trans (hT.counter_le vk hvk)
  · intro vk n key v p hkey h
    exact (hi.bodies vk n key v p hkey (hredis ▸ h)).mono hkey.isVersionKey hT

/-! ## Raises and the trace -/

section Raises

variable [DecidableEq ι]

omit [DecidableEq ι] in
/-- Recording anything but a raise leaves the raises alone. -/
theorem raisedAt_log {s : State ι} {i : ι} {a : Action Change} (ha : ∀ vk n, a ≠ .incr vk n)
    (vk : String) (n t : ℕ) : RaisedAt vk n t (s.log i a) ↔ RaisedAt vk n t s := by
  constructor
  · rintro ⟨j, hat⟩
    rcases World.at_log.1 hat with hat | ⟨-, he⟩
    · exact ⟨j, hat⟩
    · cases he
      exact absurd rfl (ha vk n)
  · rintro ⟨j, hat⟩
    exact ⟨j, World.at_log.2 (.inl hat)⟩

omit [DecidableEq ι] in
theorem raisedAt_log_incr {s : State ι} {i : ι} {key vk : String} {m n t : ℕ} :
    RaisedAt vk n t (s.log i (.incr key m)) ↔
      RaisedAt vk n t s ∨ t = s.clock ∧ vk = key ∧ n = m := by
  constructor
  · rintro ⟨j, hat⟩
    rcases World.at_log.1 hat with hat | ⟨ht, he⟩
    · exact .inl ⟨j, hat⟩
    · cases he
      exact .inr ⟨ht, rfl, rfl⟩
  · rintro (⟨j, hat⟩ | ⟨ht, rfl, rfl⟩)
    · exact ⟨j, World.at_log.2 (.inl hat)⟩
    · exact ⟨i, World.at_log.2 (.inr ⟨ht, rfl⟩)⟩

end Raises

/-! ## Every command -/

section Commands

variable [DecidableEq ι] {i : ι} {s s' : State ι}

/-- What a store has to know: the session's queries are as of the version it stores under. -/
def StoresAsOf {β : Type} (i : ι) (c : Command β) (s : State ι) : Prop :=
  match c with
  | .set key _ => ∃ vk n, Cache.BodyUnder vk n key ∧ AsOf vk n (s.prov i) s
  | _ => True

omit [DecidableEq ι] in
theorem keeps_set {key : String} {v : Body} {vk : String} {n : ℕ} (hi : CacheInvariant s)
    (hkey : Cache.BodyUnder vk n key) (hprov : AsOf vk n (s.prov i) s) :
    let s' := (s.log i (.set key)).store key (.body v (s.prov i))
    CacheInvariant s' ∧ VersionStep s s' := by
  intro s'
  have hredis : ∀ vk', Cache.IsVersionKey vk' → s'.redis vk' = s.redis vk' := by
    intro vk' hvk'
    have hne : vk' ≠ key := fun h => hkey.not_isVersionKey (h ▸ hvk')
    exact Function.update_of_ne hne _ _
  have hcounter : ∀ vk', Cache.IsVersionKey vk' → s'.counter vk' = s.counter vk' := by
    intro vk' hvk'
    simp only [World.counter, hredis vk' hvk']
  have hraised : ∀ vk' m t, RaisedAt vk' m t s' ↔ RaisedAt vk' m t s :=
    raisedAt_log (by simp)
  have hT : VersionStep s s' :=
    ⟨fun vk' hvk' => (hcounter vk' hvk').ge, fun vk' m t _ h => .inl ((hraised vk' m t).1 h),
      fun vk' m t h => (hraised vk' m t).2 h⟩
  refine ⟨⟨?_, ?_, ?_⟩, hT⟩
  · intro vk' hvk' w p h
    exact hi.no_body vk' hvk' w p (hredis vk' hvk' ▸ h)
  · intro vk' m t hvk' h
    exact (hi.raised_le vk' m t hvk' ((hraised vk' m t).1 h)).trans (hT.counter_le vk' hvk')
  · intro vk' m key' w p hkey' h
    by_cases heq : key' = key
    · subst heq
      have hbody : s'.redis key' = some (.body v (s.prov i)) := Function.update_self _ _ _
      rw [hbody] at h
      cases h
      obtain ⟨rfl, rfl⟩ := hkey'.unique hkey
      exact hprov.mono hkey.isVersionKey hT
    · have hold : s'.redis key' = s.redis key' := Function.update_of_ne heq _ _
      rw [hold] at h
      exact (hi.bodies vk' m key' w p hkey' h).mono hkey'.isVersionKey hT

omit [DecidableEq ι] in
theorem keeps_incr {key : String} (hi : CacheInvariant s) :
    let s' := (s.log i (.incr key (s.counter key + 1))).store key
      (.counter (s.counter key + 1))
    CacheInvariant s' ∧ VersionStep s s' := by
  intro s'
  have hself : s'.redis key = some (.counter (s.counter key + 1)) := Function.update_self _ _ _
  have hother : ∀ vk, vk ≠ key → s'.redis vk = s.redis vk := fun vk hne =>
    Function.update_of_ne hne _ _
  have hcounter : s'.counter key = s.counter key + 1 := by
    simp only [World.counter, hself]
  have hcounter_other : ∀ vk, vk ≠ key → s'.counter vk = s.counter vk := by
    intro vk hne
    simp only [World.counter, hother vk hne]
  have hraised : ∀ vk n t, RaisedAt vk n t s' ↔
      RaisedAt vk n t s ∨ t = s.clock ∧ vk = key ∧ n = s.counter key + 1 :=
    fun vk n t => raisedAt_log_incr
  have hle : ∀ vk, s.counter vk ≤ s'.counter vk := by
    intro vk
    by_cases heq : vk = key
    · subst heq
      omega
    · exact (hcounter_other vk heq).ge
  have hT : VersionStep s s' := by
    refine ⟨fun vk _ => hle vk, ?_, fun vk n t h => (hraised vk n t).2 (.inl h)⟩
    intro vk n t _ h
    rcases (hraised vk n t).1 h with h | ⟨-, rfl, rfl⟩
    · exact .inl h
    · exact .inr (Nat.lt_succ_self _)
  refine ⟨⟨?_, ?_, ?_⟩, hT⟩
  · intro vk hvk w p h
    by_cases heq : vk = key
    · subst heq
      rw [hself] at h
      cases h
    · exact hi.no_body vk hvk w p (hother vk heq ▸ h)
  · intro vk n t hvk h
    rcases (hraised vk n t).1 h with h | ⟨-, rfl, rfl⟩
    · exact (hi.raised_le vk n t hvk h).trans (hle vk)
    · exact hcounter.ge
  · intro vk n key' w p hkey' h
    by_cases heq : key' = key
    · subst heq
      rw [hself] at h
      cases h
    · rw [hother key' heq] at h
      exact (hi.bodies vk n key' w p hkey' h).mono hkey'.isVersionKey hT

omit [DecidableEq ι] in
theorem keeps_expire {key : String} {v : Body} {p : List ℕ} (hi : CacheInvariant s)
    (hkey : s.redis key = some (.body v p)) :
    let s' := { s with redis := Function.update s.redis key none }
    CacheInvariant s' ∧ VersionStep s s' := by
  intro s'
  have hother : ∀ k, k ≠ key → s'.redis k = s.redis k := fun k hne =>
    Function.update_of_ne hne _ _
  have hcounter : ∀ vk, Cache.IsVersionKey vk → s'.counter vk = s.counter vk := by
    intro vk hvk
    have hne : vk ≠ key := fun h => hi.no_body vk hvk v p (h ▸ hkey)
    simp only [World.counter, hother vk hne]
  have hT : VersionStep s s' :=
    ⟨fun vk hvk => (hcounter vk hvk).ge, fun vk n t _ h => .inl h, fun vk n t h => h⟩
  have hold : ∀ k w q, s'.redis k = some (.body w q) → s.redis k = some (.body w q) := by
    intro k w q h
    by_cases heq : k = key
    · subst heq
      have hnone : s'.redis k = none := Function.update_self _ _ _
      rw [hnone] at h
      cases h
    · rwa [hother k heq] at h
  refine ⟨⟨?_, ?_, ?_⟩, hT⟩
  · intro vk hvk w q h
    exact hi.no_body vk hvk w q (hold vk w q h)
  · intro vk n t hvk h
    exact (hi.raised_le vk n t hvk h).trans (hT.counter_le vk hvk)
  · intro vk n k w q hk h
    exact (hi.bodies vk n k w q hk (hold k w q h)).mono hk.isVersionKey hT

/-- Every command keeps the invariant, a store when its session's knowledge allows it. -/
theorem keeps_cacheInvariant {β : Type} {c : Command β} {r : Except Exc β}
    (hi : CacheInvariant s) (hc : StoresAsOf i c s) (h : exec i c s = some (r, s')) :
    CacheInvariant s' ∧ VersionStep s s' := by
  have hsame : ∀ {s' : State ι}, s'.redis = s.redis →
      (∀ vk n t, RaisedAt vk n t s' ↔ RaisedAt vk n t s) →
      CacheInvariant s' ∧ VersionStep s s' :=
    fun hredis hraised => ⟨hi.of_same hredis hraised, .of_same hredis hraised⟩
  cases c with
  | sql st =>
    rcases exec_sql_cases h with ⟨-, -, rfl⟩ | ⟨-, e, -, -, rfl⟩ | ⟨-, eff, -, -, -, rfl⟩
    · exact ⟨hi, .refl _⟩
    · exact hsame rfl (raisedAt_log (by simp))
    · exact hsame rfl (raisedAt_log (by simp))
  | commit =>
    rcases exec_commit_cases h with ⟨-, -, rfl⟩ | ⟨-, -, rfl⟩ | ⟨-, -, rfl⟩
    · exact hsame rfl (raisedAt_log (by simp))
    · exact hsame rfl (raisedAt_log (by simp))
    · exact ⟨hi, .refl _⟩
  | rollback =>
    obtain ⟨-, rfl⟩ := exec_rollback_eq h
    exact hsame rfl (raisedAt_log (by simp))
  | savepoint =>
    simp only [exec, onActive] at h
    split at h <;> cases h <;> exact hsame rfl fun _ _ _ => .rfl
  | release =>
    simp only [exec, onActive] at h
    split at h <;> cases h <;> exact hsame rfl fun _ _ _ => .rfl
  | rollbackTo =>
    simp only [exec] at h
    split at h <;> cases h
    · exact ⟨hi, .refl _⟩
    · unfold execRollbackTo
      split <;> exact hsame rfl fun _ _ _ => .rfl
  | get key =>
    rcases exec_get_cases h with ⟨-, -, rfl⟩ | ⟨n, -, -, rfl⟩ | ⟨v, p, -, -, rfl⟩
    · exact hsame rfl (raisedAt_log (by simp))
    · exact hsame rfl (raisedAt_log (by simp))
    · exact hsame rfl (raisedAt_log (by simp))
  | set key v =>
    obtain ⟨-, rfl⟩ := exec_set_eq h
    obtain ⟨vk, n, hkey, hprov⟩ := hc
    exact keeps_set hi hkey hprov
  | incr key =>
    rcases exec_incr_cases h with ⟨v, p, -, -, rfl⟩ | ⟨-, -, rfl⟩
    · exact ⟨hi, .refl _⟩
    · exact keeps_incr hi

/-- Bodies expire and transactions end without harm. -/
theorem sharedStep_cacheInvariant : SharedStep (CacheInvariant (ι := ι)) VersionStep where
  refl := .refl
  trans := .trans
  env henv hi := by
    cases henv with
    | lose j => exact ⟨hi.of_same rfl fun _ _ _ => .rfl, .of_same rfl fun _ _ _ => .rfl⟩
    | expire key hkey => exact keeps_expire hi hkey

end Commands

end Vivac
