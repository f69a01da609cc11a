import Vivac.Core.SampleBackend
import Vivac.Freshness.Readers
import Vivac.Freshness.Writers

/-!
# Freshness of the public cache

Any number of writers and readers, each in its own session, interleaved command by
command. Once a writer has returned, no reader that starts later is answered from a
query that ran before the writer's commit (`public_cache_fresh`).
-/

set_option autoImplicit false

namespace Vivac

open Lib App

/-- What a session is there for. -/
inductive Caller where
  | writer (now : Timestamp) (w : Writer)
  | reader (r : Reader)

/-- The program of a caller; only a reader has an answer. -/
def Caller.program (cfg : Settings) (be : Backend) : Caller → App (Option Reply)
  | .writer now w => (w.call cfg be now).bind fun _ => .ret none
  | .reader r => r.program cfg be

/-- Every caller in a session of its own. -/
def requests {ι : Type} (cfg : Settings) (be : Backend) (calls : ι → Caller) (i : ι) :
    App (Option Reply) := withSession ((calls i).program cfg be)

/-- Nothing has happened yet, and no body is cached; the versions may be anything. -/
structure ColdStart {ι : Type} (s : State ι) : Prop where
  no_body : ∀ key v p, s.redis key ≠ some (.body v p)
  no_events : s.trace = []
  idle : ∀ i, s.tx i = {} ∧ s.prov i = []

section Requests

variable {ι : Type} [DecidableEq ι] {ok : ι → State ι → State ι → Prop}

omit [DecidableEq ι] in
theorem ColdStart.not_at {s : State ι} (h : ColdStart s) {t : ℕ} {e : Event ι Change} :
    ¬s.At t e := by
  intro hat
  have hlt := World.lt_clock_of_at hat
  simp [World.clock, h.no_events] at hlt

omit [DecidableEq ι] in
theorem ColdStart.cacheInvariant {s : State ι} (h : ColdStart s) : CacheInvariant s where
  no_body vk _ v p := h.no_body vk v p
  raised_le _ _ _ _ hraised := by
    obtain ⟨i, hat⟩ := hraised
    exact absurd hat h.not_at
  bodies _ _ key v p _ hbody := absurd hbody (h.no_body key v p)

omit [DecidableEq ι] in
theorem ColdStart.ledger {s : State ι} (h : ColdStart s) (w : Writer) (i : ι) :
    Ledger w [] [] i s := by
  refine ⟨fun ch hch => ?_, fun t chs hat => absurd hat h.not_at⟩
  rw [(h.idle i).1] at hch
  cases hch

/-- What a caller that has returned leaves: a writer owes nothing. -/
def Leaves (i : ι) (s : State ι) : Caller → Prop
  | .writer _ w => Settled w i s
  | .reader _ => True

/-- The last rollback changes nothing of this. -/
theorem Settled.rollback {i : ι} {s : State ι} {w : Writer} (h : Settled w i s) :
    Settled w i (endTx i (s.log i .rollback)) := by
  intro t chs hat ch hch vk hvk
  obtain ⟨n, tb, htb, hraised⟩ := h t chs (commit_of_log (by simp) hat) ch hch vk hvk
  exact ⟨n, tb, htb, (raisedAt_log (by simp) vk n tb).2 hraised⟩

theorem Writer.triple_request {cfg : Settings} (hcfg : cfg.redisUrl = true) (be : Backend)
    (now : Timestamp) (w : Writer) (i : ι) :
    Triple (sessions ok) (sessionContract CacheInvariant VersionStep) i (Ledger w [] [] i)
      (withSession ((Caller.writer now w).program cfg be)) (Returns fun _ => Settled w i) := by
  refine triple_withSession sharedStep_cacheInvariant (fun _ => stable_settled) ?_ fun s hi _ => ?_
  · refine Triple.bind_returns cacheFits _ (w.triple_call be now hcfg) fun _ => ?_
    exact Triple.ret_returns stable_settled fun _ _ h => h
  · obtain ⟨hinv, hT⟩ := keeps_cacheInvariant hi (c := .rollback) (i := i) trivial rfl
    exact ⟨hinv, hT, fun _ h => h.rollback⟩

theorem kept_true : Kept ok (fun _ : State ι => True) := .of_versionStep fun _ _ _ h => h

omit [DecidableEq ι] in
theorem vetted_true (vk : String) : Vetted (fun _ : State ι => True) vk 0 fun _ => True :=
  ⟨fun _ _ _ _ => trivial, fun _ _ _ _ _ _ _ _ _ _ _ _ => trivial⟩

/-- Every caller meets its contract from a cold start. -/
theorem ColdStart.allMeet {cfg : Settings} (hcfg : cfg.redisUrl = true) (be : Backend)
    (calls : ι → Caller) {s : State ι} (h : ColdStart s) :
    AllMeet (sessions ok) (cacheContract fun _ => True)
      (fun i => Returns fun _ s => Leaves i s (calls i)) ⟨s, requests cfg be calls⟩ := by
  refine ⟨⟨h.cacheInvariant, trivial⟩, fun i => ?_⟩
  simp only [requests]
  cases calls i with
  | writer now w =>
    refine kept_true.meets (fun _ h => h.1) (fun _ h => h) ?_
    exact w.triple_request hcfg be now i s h.cacheInvariant (h.ledger w i)
  | reader r =>
    refine (r.triple_request be kept_true hcfg (vetted_true _) s ⟨h.cacheInvariant, trivial⟩
      ⟨(h.idle i).2, Nat.zero_le _⟩).mono fun out _ _ _ => ?_
    cases out with
    | ok a => trivial
    | error e => trivial

omit [DecidableEq ι] in
/-- Once `vk` has been raised to `m` at time `tb`, queries from now on and the bodies from
version `m` on are younger. -/
theorem vetted_raisedAt {vk : String} {m tb : ℕ} :
    Vetted (RaisedAt (ι := ι) vk m tb) vk m fun t => tb < t where
  young := by
    rintro s ⟨i, hat⟩ t ht
    exact (World.lt_clock_of_at hat).trans_le ht
  bodies s hi hraised n key v p hkey hbody hm t ht :=
    (hi.bodies vk n key v p hkey hbody).2 t ht m tb hraised hm

/-- A session that has not moved knows nothing new. -/
theorem prov_of_idle {j : ι} {c c' : Config ι Exc Command (State ι) (Option Reply)}
    (h : Run platform c c') (hj : c'.thread j = c.thread j) : c'.state.prov j = c.state.prov j := by
  have hund : Undisturbed j c.state c'.state :=
    Run.idle (T := Undisturbed j) j (.refl j) .trans (fun i hij _ cmd s r s' hs =>
      exec_undisturbed (Ne.symm hij) hs)
      (fun s s' henv => Env.undisturbed henv j) h hj
  exact hund.prov

end Requests

/-- Once a writer has returned, whoever reads a body it affected starts from a version
raised after its commit, and is answered from queries that ran after the commit. -/
theorem public_cache_fresh {cfg : Settings} (hcfg : cfg.redisUrl = true) (be : Backend)
    {ι : Type} [DecidableEq ι] (calls : ι → Caller) {s₀ : State ι} (hcold : ColdStart s₀)
    {c₁ c₂ : Config ι Exc Command (State ι) (Option Reply)}
    (h₁ : Run platform ⟨s₀, requests cfg be calls⟩ c₁) (h₂ : Run platform c₁ c₂)
    {i j : ι} {now : Timestamp} {w : Writer} {r : Reader}
    (hi : calls i = .writer now w) (hj : calls j = .reader r)
    {a b : Option Reply} (hreturned : c₁.thread i = closeSession (.ok a))
    (hstart : c₁.thread j = requests cfg be calls j) (hdone : c₂.thread j = closeSession (.ok b))
    {tc : ℕ} {chs : List Change} {ch : Change} (hcommit : c₁.state.At tc ⟨i, .commit chs⟩)
    (hch : ch ∈ chs) (haffects : r.versionKey ∈ w.affects ch) :
    ∀ t ∈ c₂.state.prov j, tc < t := by
  let free : ι → State ι → State ι → Prop := fun _ _ _ => True
  have hkeepAll : Kept free fun _ => True := kept_true
  have hshared := hkeepAll.sharedStep
  have hrun₁ : Run (sessions free) _ c₁ := h₁.guarded fun _ _ _ => trivial
  have hrun₂ : Run (sessions free) c₁ c₂ := h₂.guarded fun _ _ _ => trivial
  -- up to `c₁` every contract holds, so the writer's raise lies after its commit
  have hall₁ := hrun₁.allMeet hkeepAll.fits (hcold.allMeet hcfg be calls)
  obtain ⟨n, tb, htb, hraised⟩ : ∃ n tb, tc < tb ∧ RaisedAt r.versionKey n tb c₁.state := by
    have hmeets := hall₁.meets i
    rw [hreturned] at hmeets
    have hleaves := Meets.of_returned hshared trivial hall₁.inv hmeets
    rw [hi] at hleaves
    obtain ⟨n, tb, htb, hraised⟩ :=
      hleaves tc chs (World.at_log.2 (.inl hcommit)) ch hch r.versionKey haffects
    exact ⟨n, tb, htb, (raisedAt_log (by simp) _ n tb).1 hraised⟩
  -- from `c₁` on the contracts are about this raise
  have hkept : Kept free (RaisedAt r.versionKey n tb) :=
    .of_versionStep fun _ _ hT h => hT.kept _ n tb h
  have hall₂ : AllMeet (sessions free) (cacheContract (RaisedAt r.versionKey n tb))
      (fun i => Returns fun _ s => Leaves i s (calls i)) c₁ := by
    refine ⟨⟨hall₁.inv.1, hraised⟩, fun k => ?_⟩
    exact hkept.meets (fun _ h => ⟨h.1, trivial⟩) (fun _ h => h.1) (hall₁.meets k)
  have hreads : c₁.thread j = withSession (r.program cfg be) := by
    rw [hstart]
    simp only [requests, hj]
    rfl
  have hprov : c₁.state.prov j = [] := (prov_of_idle h₁ hstart).trans (hcold.idle j).2
  have hready : Ready r.versionKey n j c₁.state :=
    ⟨hprov, hall₁.inv.1.raised_le _ n tb r.isVersionKey hraised⟩
  have hinformed := r.informed_of_run be hkept hcfg (fun _ => trivial) vetted_raisedAt hall₂ hrun₂
    hreads hready hdone
  intro t ht
  exact htb.trans (hinformed t ht)

/-- A list request without parameters. -/
def Sample.listAll : ListRequest := {}

/-- A bulk transition of one spot, and a list request. -/
def Sample.transitionAndList : Bool → Caller
  | true => .writer 0 (.updatePipelineStatusBulk ["a"] .published)
  | false => .reader (.list {})

/-- One spot in the database. -/
def Sample.oneSpot : Db := { Db.empty with spots := ⟨[Sample.spot "a"], by decide⟩ }

/-- The transition commits at time 2; the list requested after it has returned comes
from three later queries. -/
theorem public_cache_fresh_transition :
    ∃ c₁ c₂ : Config Bool Exc Command (State Bool) (Option Reply),
      Run platform ⟨World.fresh Sample.oneSpot,
        requests Sample.settings Sample.backend Sample.transitionAndList⟩ c₁ ∧
      Run platform c₁ c₂ ∧
      c₁.state.At 2 ⟨true, .commit [.spot "a" ["pipeline_status"]]⟩ ∧
      (c₂.state.prov false).length = 3 ∧ ∀ t ∈ c₂.state.prov false, 2 < t := by
  let program := fun i =>
    (Sample.transitionAndList i).program Sample.settings Sample.backend
  have hboth : ((runAlone (fun i => exec i) true (program true)
      (World.fresh Sample.oneSpot)).bind fun out₁ =>
        (runAlone (fun i => exec i) false (program false) out₁.2).bind fun out₂ =>
          if out₁.1.isOk ∧ out₂.1.isOk ∧ (out₂.2.prov false).length = 3 ∧
            out₁.2.trace[2]? = some ⟨true, .commit [.spot "a" ["pipeline_status"]]⟩
          then some () else none) = some () := by
    decide +kernel
  obtain ⟨⟨r₁, s₁⟩, hrun₁, hboth⟩ := Option.bind_eq_some_iff.1 hboth
  obtain ⟨⟨r₂, s₂⟩, hrun₂, hboth⟩ := Option.bind_eq_some_iff.1 hboth
  split at hboth
  · rename_i hcheck
    obtain ⟨hok₁, hok₂, hlen, hcommit⟩ := hcheck
    obtain ⟨a, rfl⟩ : ∃ a, r₁ = .ok a := by
      cases r₁ with
      | ok a => exact ⟨a, rfl⟩
      | error e => cases hok₁
    obtain ⟨b, rfl⟩ : ∃ b, r₂ = .ok b := by
      cases r₂ with
      | ok b => exact ⟨b, rfl⟩
      | error e => cases hok₂
    let start := requests Sample.settings Sample.backend Sample.transitionAndList
    have h₁ : Run platform ⟨World.fresh Sample.oneSpot, start⟩
        ⟨s₁, Function.update start true (closeSession (.ok a))⟩ := run_of_runAlone hrun₁ rfl
    have h₂ : Run platform ⟨s₁, Function.update start true (closeSession (.ok a))⟩
        ⟨s₂, Function.update (Function.update start true (closeSession (.ok a))) false
          (closeSession (.ok b))⟩ := run_of_runAlone hrun₂ rfl
    refine ⟨_, _, h₁, h₂, hcommit, hlen, ?_⟩
    have hcold : ColdStart (World.fresh Sample.oneSpot : State Bool) :=
      ⟨fun _ _ _ => nofun, rfl, fun _ => ⟨rfl, rfl⟩⟩
    exact public_cache_fresh rfl Sample.backend Sample.transitionAndList hcold h₁ h₂
      (i := true) (j := false) rfl rfl rfl rfl rfl hcommit (List.mem_singleton_self _)
      (List.mem_cons_self ..)
  · cases hboth

end Vivac
