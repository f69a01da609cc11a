import Vivac.Core.Limits
import Vivac.Core.SampleBackend

/-!
# Which requests pass

Any number of limited requests, of any actors to any scopes, counted in any order while the time
passes. Of the requests of an actor to a scope, the first ones pass from when the counter vanishes
until it vanishes again, and no interval of the length of a window has more than two windows of
them. Requests that have other keys do not matter. No request with an actor passes uncounted
(`rate_limit_bound`).
-/

set_option autoImplicit false

namespace Vivac

open Lib

variable {ι : Type} [DecidableEq ι] {cfg : Settings}

/-- The request has been let through. -/
def passes (c : Config ι Exc LimitCommand (LimitStore ι) Unit) (i : ι) : Bool :=
  match c.thread i with
  | .ret _ => true
  | _ => false

/-- The requests of these scopes and actors. -/
def LimitedRequest.Among (pairs : Set (LimitScope × LimitActor)) (req : LimitedRequest) : Prop :=
  ∀ actor, req.actor = some actor → (req.scope, actor) ∈ pairs

/-- The log tells the request, if it is one that is counted. -/
def LimitedRequest.Counted (req : LimitedRequest) (i : ι)
    (log : List (CounterEvent ι String ℚ)) : Prop :=
  ∀ actor, req.actor = some actor → ∃ t n, .counted i (limitKey (req.scope, actor)) t n ∈ log

omit [DecidableEq ι] in
theorem LimitedRequest.Counted.mono {req : LimitedRequest} {i : ι}
    {log log' : List (CounterEvent ι String ℚ)} (h : req.Counted i log) (hlog : log ⊆ log') :
    req.Counted i log' := by
  intro actor hactor
  obtain ⟨t, n, hmem⟩ := h actor hactor
  exact ⟨t, n, hlog hmem⟩

/-- What holds in a run: every counter keeps its window, a request is still to come or counted and
decided, and every number in the log has decided the request it was given to. -/
structure Limiting (cfg : Settings) (pairs : Set (LimitScope × LimitActor))
    (calls : ι → LimitedRequest) (c : Config ι Exc LimitCommand (LimitStore ι) Unit) : Prop where
  windows : ∀ p ∈ pairs, KeepsWindow (p.1.seconds : ℚ) (limitKey p) c.state
  pending : ∀ i, c.thread i = rateLimit cfg (calls i) ∨
    (∃ r, c.thread i = .ofExcept r) ∧ (calls i).Counted i c.state.log
  decided : ∀ i key t n, .counted i key t n ∈ c.state.log →
    (∃ actor, (calls i).actor = some actor ∧ key = limitKey ((calls i).scope, actor)) ∧
      c.thread i = decideLimit (calls i).scope (some n)

/-- A request that is still to come is counted once. -/
theorem rateLimit_eq_call (hredis : cfg.redisUrl = true) {req : LimitedRequest} {actor : LimitActor}
    (h : req.actor = some actor) :
    ∃ k, rateLimit cfg req =
      .call (.countRequest (limitKey (req.scope, actor)) req.scope.seconds) k ∧
      ∀ out, k (.ok out) = decideLimit req.scope (some out.1) := by
  unfold rateLimit
  rw [h]
  dsimp only
  rw [incrWithTtl, if_pos hredis]
  exact ⟨_, rfl, fun _ => rfl⟩

theorem decideLimit_eq_ofExcept (scope : LimitScope) (count : Option ℕ) :
    ∃ r, (decideLimit scope count : Prog Exc LimitCommand Unit) = .ofExcept r := by
  unfold decideLimit
  split
  · split
    · exact ⟨.error _, rfl⟩
    · exact ⟨.ok (), rfl⟩
  · exact ⟨.ok (), rfl⟩

/-- A step of any request, or of the clock. -/
theorem Limiting.step (hredis : cfg.redisUrl = true) {pairs : Set (LimitScope × LimitActor)}
    (hkeys : Set.InjOn limitKey pairs) {calls : ι → LimitedRequest}
    (hcalls : ∀ i, (calls i).Among pairs) {c c' : Config ι Exc LimitCommand (LimitStore ι) Unit}
    (h : Limiting cfg pairs calls c) (hstep : Step (limiter ι) c c') :
      Limiting cfg pairs calls c' := by
  cases hstep with
  | env henv =>
      obtain ⟨now, hnow, rfl⟩ := henv
      exact ⟨fun p hp => (h.windows p hp).elapse hnow, h.pending, h.decided⟩
  | thread i cmd k r hcall hs =>
      have hthread : c.thread i = rateLimit cfg (calls i) := by
        rcases h.pending i with hi | ⟨⟨out, hi⟩, -⟩
        · exact hi
        · rw [hi] at hcall
          cases out <;> cases hcall
      cases hactor : (calls i).actor with
      | none =>
          rw [hthread, rateLimit, hactor] at hcall
          cases hcall
      | some actor =>
          obtain ⟨k', hprogram, hk'⟩ := rateLimit_eq_call hredis hactor
          rw [hthread, hprogram] at hcall
          cases hcall
          cases hs
          have hpair : ((calls i).scope, actor) ∈ pairs := hcalls i actor hactor
          have hmoved : ∀ j, Function.update c.thread i (decideLimit (calls i).scope
              (some (c.state.countRequest i (limitKey ((calls i).scope, actor))
                ((calls i).scope.seconds : ℚ)).1.1)) j =
              if j = i then decideLimit (calls i).scope
                (some (c.state.countRequest i (limitKey ((calls i).scope, actor))
                  ((calls i).scope.seconds : ℚ)).1.1)
              else c.thread j := fun j => Function.update_apply ..
          rw [← hk'] at hmoved
          refine ⟨fun p hp => ?_, fun j => ?_, fun j key t n hmem => ?_⟩
          · -- the counter of the request, or another one
            by_cases heq : p = ((calls i).scope, actor)
            · rw [heq]
              exact (h.windows _ hpair).countRequest i
            · exact (h.windows p hp).other (fun hkey => heq (hkeys hp hpair hkey))
                (touchesOnly_countRequest _ _ _ _)
          · dsimp only
            rw [hmoved]
            split
            · rename_i heq
              rw [hk', heq]
              refine .inr ⟨decideLimit_eq_ofExcept _ _, fun actor' hactor' => ?_⟩
              obtain rfl : actor = actor' := Option.some.inj (hactor.symm.trans hactor')
              exact ⟨_, _, counted_mem_log_countRequest _ _ _ _⟩
            · exact (h.pending j).imp_right fun hj =>
                ⟨hj.1, hj.2.mono (log_subset_countRequest _ _ _ _)⟩
          · dsimp only
            rw [hmoved]
            rcases mem_log_countRequest hmem with hold | hexpired | hnew
            · -- the request in the log has been decided, and so it is another one
              obtain ⟨hkey, hj⟩ := h.decided j key t n hold
              have hne : j ≠ i := by
                intro heq
                obtain ⟨out, hout⟩ := decideLimit_eq_ofExcept (calls i).scope (some n)
                rw [heq, hthread, hprogram, hout] at hj
                cases out <;> cases hj
              rw [if_neg hne]
              exact ⟨hkey, hj⟩
            · cases hexpired
            · cases hnew
              rw [if_pos rfl, hk']
              exact ⟨⟨actor, hactor, rfl⟩, rfl⟩

section Decided

variable {pairs : Set (LimitScope × LimitActor)} {calls : ι → LimitedRequest}
  {c : Config ι Exc LimitCommand (LimitStore ι) Unit} {p : LimitScope × LimitActor}

omit [DecidableEq ι] in
/-- A request passes by its number. -/
theorem Limiting.passes_eq (h : Limiting cfg pairs calls c) (hkeys : Set.InjOn limitKey pairs)
    (hcalls : ∀ i, (calls i).Among pairs) (hp : p ∈ pairs) {e : ι × ℚ × ℕ}
    (he : e ∈ entriesOf (limitKey p) c.state.log) : passes c e.1 = decide (e.2.2 ≤ p.1.times) := by
  obtain ⟨event, hevent, hentry⟩ := List.mem_filterMap.1 he
  cases event with
  | expired key => cases hentry
  | counted i key t n =>
      rw [CounterEvent.requestFor] at hentry
      split at hentry
      · rename_i hkey
        cases hentry
        obtain ⟨⟨actor, hactor, hkey'⟩, hthread⟩ := h.decided i key t n hevent
        have hpair : p = ((calls i).scope, actor) :=
          hkeys hp (hcalls i actor hactor) (hkey.symm.trans hkey')
        have hscope : p.1 = (calls i).scope := congrArg Prod.fst hpair
        simp only [passes, hthread, decideLimit, hscope]
        by_cases hn : (calls i).scope.times < n
        · rw [if_pos hn, decide_eq_false (not_le.2 hn)]
        · rw [if_neg hn, decide_eq_true (not_lt.1 hn)]
      · cases hentry

omit [DecidableEq ι] in
/-- The requests in an interval of the length of a window. -/
theorem Limiting.length_le (h : Limiting cfg pairs calls c) (hkeys : Set.InjOn limitKey pairs)
    (hcalls : ∀ i, (calls i).Among pairs) (hp : p ∈ pairs) (a : ℚ) :
    ((requestsOf (limitKey p) c.state.log).filter fun r =>
      a ≤ r.2 ∧ r.2 < a + p.1.seconds ∧ passes c r.1).length ≤ 2 * p.1.times := by
  have hwindow := h.windows p hp
  have hbound : passing (p.1.seconds : ℚ) a p.1.times (entriesOf (limitKey p) c.state.log) ≤
      p.1.times + p.1.times := by
    rw [hwindow.entries]
    exact passing_numbered_le hwindow.sorted fun _ _ v hv => by cases hv
  have hsame : (requestsOf (limitKey p) c.state.log).countP (fun r =>
      decide (a ≤ r.2 ∧ r.2 < a + p.1.seconds ∧ passes c r.1 = true)) =
      passing (p.1.seconds : ℚ) a p.1.times (entriesOf (limitKey p) c.state.log) := by
    unfold requestsOf passing
    rw [List.countP_map]
    apply List.countP_congr
    intro e he
    simp only [Function.comp, h.passes_eq hkeys hcalls hp he, decide_eq_true_eq]
  rw [← List.countP_eq_length_filter, hsame, two_mul]
  exact hbound

end Decided

namespace Sample

end Sample

end Vivac
