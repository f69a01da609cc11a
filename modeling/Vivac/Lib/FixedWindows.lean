import Mathlib.Algebra.Order.Group.Basic
import Mathlib.Algebra.Order.Group.Nat
import Mathlib.Data.List.Pairwise
import Mathlib.Logic.Function.Basic

/-!
# Requests counted in fixed windows

A window counts the requests from the first one on, for a fixed time. `numbered` gives each request
its number in its window. However the requests come, any interval of the length of a window has at
most twice as many requests with a number up to `times` as one window (`passing_numbered_le`).

`CounterStore` is a store of counters with a time to live, such as a window can be kept in:
`countRequest` raises a counter and, if it has no time to live yet, gives it one. The log of a store
tells the requests and the counters that have vanished. A counter that is only used in this way
gives its requests the numbers of the windows (`KeepsWindow.countRequest`).
-/

set_option autoImplicit false

namespace Vivac.Lib

/-! ## Windows -/

/-- A window: the requests so far, and when it ends. -/
structure Window (T : Type) where
  requests : ℕ
  ends : T

section Windows

variable {ι T : Type} [AddCommGroup T] [LinearOrder T]

/-- The window that a request at time `t` is counted in, with the request. -/
def Window.next (ttl : T) (w : Option (Window T)) (t : T) : Window T :=
  match w with
  | some v => if t < v.ends then ⟨v.requests + 1, v.ends⟩ else ⟨1, t + ttl⟩
  | none => ⟨1, t + ttl⟩

/-- The window after some requests. -/
def windowAfter (ttl : T) : Option (Window T) → List (ι × T) → Option (Window T)
  | w, [] => w
  | w, r :: rs => windowAfter ttl (some (Window.next ttl w r.2)) rs

/-- The requests with their numbers. -/
def numbered (ttl : T) : Option (Window T) → List (ι × T) → List (ι × T × ℕ)
  | _, [] => []
  | w, r :: rs => (r.1, r.2, (Window.next ttl w r.2).requests) ::
      numbered ttl (some (Window.next ttl w r.2)) rs

theorem windowAfter_concat (ttl : T) (w : Option (Window T)) (rs : List (ι × T)) (r : ι × T) :
    windowAfter ttl w (rs ++ [r]) = some (Window.next ttl (windowAfter ttl w rs) r.2) := by
  induction rs generalizing w with
  | nil => rfl
  | cons r' rs ih => exact ih _

theorem numbered_concat (ttl : T) (w : Option (Window T)) (rs : List (ι × T)) (r : ι × T) :
    numbered ttl w (rs ++ [r]) = numbered ttl w rs ++
      [(r.1, r.2, (Window.next ttl (windowAfter ttl w rs) r.2).requests)] := by
  induction rs generalizing w with
  | nil => rfl
  | cons r' rs ih => exact congrArg _ (ih _)

/-- The requests from `a` on, for the time `ttl`, whose number is up to `times`. -/
def passing (ttl a : T) (times : ℕ) (rs : List (ι × T × ℕ)) : ℕ :=
  rs.countP fun r => decide (a ≤ r.2.1 ∧ r.2.1 < a + ttl ∧ r.2.2 ≤ times)

theorem passing_cons (ttl a : T) (times : ℕ) (r : ι × T × ℕ) (rs : List (ι × T × ℕ)) :
    passing ttl a times (r :: rs) = passing ttl a times rs +
      if a ≤ r.2.1 ∧ r.2.1 < a + ttl ∧ r.2.2 ≤ times then 1 else 0 := by
  simp only [passing, List.countP_cons, decide_eq_true_eq]

/-- How many requests can still pass, from `a` on, once `a` is reached: those of the window, and
those of the next one if the window began before `a`. -/
def room (ttl a : T) (times : ℕ) : Option (Window T) → ℕ
  | none => times + times
  | some w =>
    if a + ttl + ttl ≤ w.ends then 0
    else if a + ttl ≤ w.ends then times - w.requests
    else times - w.requests + times

variable [IsOrderedAddMonoid T] {ttl a t : T} {times : ℕ}

/-- The room after a request, and the request if it passes. -/
theorem room_next {w : Option (Window T)} (ha : a ≤ t) (hw : ∀ v ∈ w, v.ends ≤ t + ttl) :
    room ttl a times (some (Window.next ttl w t)) +
        (if a ≤ t ∧ t < a + ttl ∧ (Window.next ttl w t).requests ≤ times then 1 else 0) ≤
      room ttl a times w := by
  -- a window that begins with this request
  have hnew : room ttl a times (some ⟨1, t + ttl⟩) +
      (if a ≤ t ∧ t < a + ttl ∧ 1 ≤ times then 1 else 0) ≤
        if a + ttl ≤ t then 0 else times := by
    by_cases hlate : a + ttl ≤ t
    · have hends : a + ttl + ttl ≤ t + ttl := by gcongr
      simp [room, hends, hlate, not_lt.2 hlate]
    · have hends : ¬a + ttl + ttl ≤ t + ttl := fun h => hlate (le_of_add_le_add_right h)
      have hstart : a + ttl ≤ t + ttl := by gcongr
      simp only [room, hends, hstart, if_false, if_true, hlate, ha, not_le.1 hlate, true_and]
      split <;> omega
  cases w with
  | none =>
      refine hnew.trans ?_
      simp only [room]
      split <;> omega
  | some v =>
      have hv : v.ends ≤ t + ttl := hw v rfl
      by_cases hin : t < v.ends
      · -- the window goes on
        have hnext : Window.next ttl (some v) t = ⟨v.requests + 1, v.ends⟩ := by
          simp only [Window.next, hin, if_true]
        rw [hnext]
        simp only [room]
        by_cases hlate : a + ttl + ttl ≤ v.ends
        · have hnot : ¬t < a + ttl := not_lt.2 (le_of_add_le_add_right (hlate.trans hv))
          simp [hlate, hnot]
        · simp only [hlate, if_false]
          split <;> split <;> omega
      · -- the window has ended, and so it began before `a` if the request is in the interval
        have hnext : Window.next ttl (some v) t = ⟨1, t + ttl⟩ := by
          simp only [Window.next, hin, if_false]
        rw [hnext]
        refine hnew.trans ?_
        simp only [room]
        by_cases hlate : a + ttl ≤ t
        · rw [if_pos hlate]
          exact Nat.zero_le _
        · have hbegan : ¬a + ttl ≤ v.ends := fun h => hlate (h.trans (not_lt.1 hin))
          have hfar : ¬a + ttl + ttl ≤ v.ends := fun h =>
            hlate (le_of_add_le_add_right (h.trans hv))
          rw [if_neg hlate, if_neg hfar, if_neg hbegan]
          omega

/-- The window of a request ends in the time of a window at the latest. -/
theorem ends_next_le {w : Option (Window T)} {t' : T} (hw : ∀ v ∈ w, v.ends ≤ t + ttl)
    (ht : t ≤ t') : (Window.next ttl w t).ends ≤ t' + ttl := by
  have hlater : t + ttl ≤ t' + ttl := by gcongr
  cases w with
  | none => exact hlater
  | some v =>
      unfold Window.next
      dsimp only
      split
      · exact (hw v rfl).trans hlater
      · exact hlater

/-- No more requests pass than there is room for. -/
theorem passing_le_room {rs : List (ι × T)} {w : Option (Window T)}
    (hsorted : rs.Pairwise fun r r' => r.2 ≤ r'.2) (ha : ∀ r ∈ rs, a ≤ r.2)
    (hw : ∀ r ∈ rs, ∀ v ∈ w, v.ends ≤ r.2 + ttl) :
    passing ttl a times (numbered ttl w rs) ≤ room ttl a times w := by
  induction rs generalizing w with
  | nil => exact Nat.zero_le _
  | cons r rs ih =>
      obtain ⟨hfirst, hrest⟩ := List.pairwise_cons.1 hsorted
      have hnext : ∀ r' ∈ rs, ∀ v ∈ some (Window.next ttl w r.2), v.ends ≤ r'.2 + ttl := by
        rintro r' hr' v hv
        cases hv
        exact ends_next_le (hw r List.mem_cons_self) (hfirst r' hr')
      have htail := ih hrest (fun r' hr' => ha r' (List.mem_cons_of_mem _ hr')) hnext
      rw [numbered, passing_cons]
      exact (Nat.add_le_add_right htail _).trans
        (room_next (ha r List.mem_cons_self) (hw r List.mem_cons_self))

/-- In any interval of the length of a window, two windows' requests pass at most. -/
theorem passing_numbered_le {rs : List (ι × T)} {w : Option (Window T)}
    (hsorted : rs.Pairwise fun r r' => r.2 ≤ r'.2) (hw : ∀ r ∈ rs, ∀ v ∈ w, v.ends ≤ r.2 + ttl) :
    passing ttl a times (numbered ttl w rs) ≤ times + times := by
  induction rs generalizing w with
  | nil => exact Nat.zero_le _
  | cons r rs ih =>
      obtain ⟨hfirst, hrest⟩ := List.pairwise_cons.1 hsorted
      by_cases ha : a ≤ r.2
      · -- all requests are from `a` on
        have hall : ∀ r' ∈ r :: rs, a ≤ r'.2 := by
          intro r' hr'
          rcases List.mem_cons.1 hr' with rfl | hr'
          · exact ha
          · exact ha.trans (hfirst r' hr')
        refine (passing_le_room hsorted hall hw).trans ?_
        unfold room
        split
        · exact le_rfl
        · split
          · exact Nat.zero_le _
          · split <;> omega
      · rw [numbered, passing_cons, if_neg fun h => ha h.1, Nat.add_zero]
        apply ih hrest
        rintro r' hr' v hv
        cases hv
        exact ends_next_le (hw r List.mem_cons_self) (hfirst r' hr')

end Windows

/-! ## Counters with a time to live -/

/-- A counter, and when it vanishes if it has a time to live. -/
structure TimedCounter (T : Type) where
  value : ℕ
  expires : Option T := none

/-- A request got a number from a counter, or a counter has vanished. -/
inductive CounterEvent (ι κ T : Type) where
  | counted (i : ι) (key : κ) (t : T) (value : ℕ)
  | expired (key : κ)
  deriving DecidableEq

/-- The counters at a time, with a log of what has happened to them. -/
structure CounterStore (ι κ T : Type) where
  now : T
  counter : κ → Option (TimedCounter T) := fun _ => none
  log : List (CounterEvent ι κ T) := []

namespace CounterStore

section Commands

variable {ι κ T : Type} [DecidableEq κ] [AddCommGroup T] [LinearOrder T]

/-- A counter whose time has ended vanishes before its key is used. -/
def expireIfNeeded (s : CounterStore ι κ T) (key : κ) : CounterStore ι κ T :=
  match (s.counter key).bind TimedCounter.expires with
  | some t =>
    if t ≤ s.now then
      { s with counter := Function.update s.counter key none, log := s.log ++ [.expired key] }
    else s
  | none => s

/-- `INCR key`. -/
def incr (s : CounterStore ι κ T) (key : κ) : ℕ × CounterStore ι κ T :=
  let s := s.expireIfNeeded key
  let n := (s.counter key).elim 0 TimedCounter.value + 1
  (n,
    { s with
      counter := Function.update s.counter key
        (some ⟨n, (s.counter key).bind TimedCounter.expires⟩) })

/-- `EXPIRE key ttl NX`. -/
def expireNx (s : CounterStore ι κ T) (key : κ) (ttl : T) : Bool × CounterStore ι κ T :=
  let s := s.expireIfNeeded key
  match s.counter key with
  | some ⟨n, none⟩ =>
    (true, { s with counter := Function.update s.counter key (some ⟨n, some (s.now + ttl)⟩) })
  | _ => (false, s)

/-- `MULTI`, `INCR key`, `EXPIRE key ttl NX`, `EXEC`: their answers, and the store. -/
def countRequest (s : CounterStore ι κ T) (i : ι) (key : κ) (ttl : T) :
    (ℕ × Bool) × CounterStore ι κ T :=
  let (n, s₁) := s.incr key
  let (isSet, s₂) := s₁.expireNx key ttl
  ((n, isSet), { s₂ with log := s₂.log ++ [.counted i key s.now n] })

end Commands

end CounterStore

/-! ## The log -/

namespace CounterEvent

variable {ι κ T : Type} [DecidableEq κ]

/-- The event is about the key. -/
def key : CounterEvent ι κ T → κ
  | .counted _ key _ _ => key
  | .expired key => key

/-- The request of the key, with its number. -/
def requestFor (key : κ) : CounterEvent ι κ T → Option (ι × T × ℕ)
  | .counted i key' t n => if key' = key then some (i, t, n) else none
  | .expired _ => none

/-- The number of requests of the key since the counter vanished last, after the event. -/
def since (key : κ) (n : ℕ) : CounterEvent ι κ T → ℕ
  | .counted _ key' _ _ => if key' = key then n + 1 else n
  | .expired key' => if key' = key then 0 else n

end CounterEvent

section Log

variable {ι κ T : Type} [DecidableEq κ] {key : κ}

/-- The requests of a key in a log, with their numbers. -/
def entriesOf (key : κ) (log : List (CounterEvent ι κ T)) : List (ι × T × ℕ) :=
  log.filterMap (CounterEvent.requestFor key)

/-- The requests of a key in a log. -/
def requestsOf (key : κ) (log : List (CounterEvent ι κ T)) : List (ι × T) :=
  (entriesOf key log).map fun e => (e.1, e.2.1)

/-- The number of requests of a key since its counter vanished last. -/
def sinceExpiry (key : κ) (n : ℕ) (log : List (CounterEvent ι κ T)) : ℕ :=
  log.foldl (CounterEvent.since key) n

/-- Every request of the key has the next number since the counter vanished last. -/
def WellNumbered (key : κ) : ℕ → List (CounterEvent ι κ T) → Prop
  | _, [] => True
  | n, e :: log => (∀ r ∈ e.requestFor key, r.2.2 = n + 1) ∧ WellNumbered key (e.since key n) log

theorem entriesOf_append (key : κ) (log log' : List (CounterEvent ι κ T)) :
    entriesOf key (log ++ log') = entriesOf key log ++ entriesOf key log' :=
  List.filterMap_append

theorem sinceExpiry_append (key : κ) (n : ℕ) (log log' : List (CounterEvent ι κ T)) :
    sinceExpiry key n (log ++ log') = sinceExpiry key (sinceExpiry key n log) log' :=
  List.foldl_append

theorem wellNumbered_append {n : ℕ} {log log' : List (CounterEvent ι κ T)} :
    WellNumbered key n (log ++ log') ↔
      WellNumbered key n log ∧ WellNumbered key (sinceExpiry key n log) log' := by
  induction log generalizing n with
  | nil => simp [WellNumbered, sinceExpiry]
  | cons e log ih => simp only [List.cons_append, WellNumbered, ih, and_assoc, sinceExpiry,
      List.foldl_cons]

/-- Events of other keys have no requests of the key. -/
theorem requestFor_of_ne {e : CounterEvent ι κ T} (h : e.key ≠ key) : e.requestFor key = none := by
  cases e with
  | counted i key' t n => exact if_neg h
  | expired key' => rfl

theorem since_of_ne {e : CounterEvent ι κ T} (h : e.key ≠ key) (n : ℕ) : e.since key n = n := by
  cases e with
  | counted i key' t m => exact if_neg h
  | expired key' => exact if_neg h

theorem entriesOf_of_ne {log : List (CounterEvent ι κ T)} (h : ∀ e ∈ log, e.key ≠ key) :
    entriesOf key log = [] := by
  induction log with
  | nil => rfl
  | cons e log ih =>
      rw [entriesOf, List.filterMap_cons_none (requestFor_of_ne (h e List.mem_cons_self))]
      exact ih fun e' he' => h e' (List.mem_cons_of_mem _ he')

theorem sinceExpiry_of_ne {log : List (CounterEvent ι κ T)} (h : ∀ e ∈ log, e.key ≠ key) (n : ℕ) :
    sinceExpiry key n log = n := by
  induction log with
  | nil => rfl
  | cons e log ih =>
      rw [sinceExpiry, List.foldl_cons, since_of_ne (h e List.mem_cons_self)]
      exact ih fun e' he' => h e' (List.mem_cons_of_mem _ he')

theorem wellNumbered_of_ne {log : List (CounterEvent ι κ T)} (h : ∀ e ∈ log, e.key ≠ key) (n : ℕ) :
    WellNumbered key n log := by
  induction log generalizing n with
  | nil => trivial
  | cons e log ih =>
      refine ⟨fun r hr => ?_, ih (fun e' he' => h e' (List.mem_cons_of_mem _ he')) _⟩
      rw [requestFor_of_ne (h e List.mem_cons_self)] at hr
      cases hr

end Log

/-! ## Windows kept in a store -/

section Store

variable {ι κ T : Type} [DecidableEq κ] [AddCommGroup T] [LinearOrder T]

/-- The counter of a window. -/
def Window.counter (w : Window T) : TimedCounter T := ⟨w.requests, some w.ends⟩

/-- What the log tells of a window that has ended. -/
def endedEvent (ι : Type) (key : κ) (w : Option (Window T)) (now : T) : List (CounterEvent ι κ T) :=
  match w with
  | some v => if v.ends ≤ now then [.expired key] else []
  | none => []

/-- A request is counted in its window. -/
theorem countRequest_eq {s : CounterStore ι κ T} {key : κ} {w : Option (Window T)}
    (hw : s.counter key = w.map Window.counter) (i : ι) (ttl : T) :
    ∃ isSet, s.countRequest i key ttl = (((Window.next ttl w s.now).requests, isSet),
      { now := s.now
        counter := Function.update s.counter key (some (Window.next ttl w s.now).counter)
        log := s.log ++ (endedEvent ι key w s.now ++
          [.counted i key s.now (Window.next ttl w s.now).requests]) }) := by
  cases w with
  | none =>
      have hnone : s.counter key = none := hw
      refine ⟨true, ?_⟩
      simp [CounterStore.countRequest, CounterStore.incr, CounterStore.expireNx,
        CounterStore.expireIfNeeded, hnone, Window.next, Window.counter, endedEvent]
  | some v =>
      have hsome : s.counter key = some ⟨v.requests, some v.ends⟩ := hw
      by_cases hends : v.ends ≤ s.now
      · refine ⟨true, ?_⟩
        simp [CounterStore.countRequest, CounterStore.incr, CounterStore.expireNx,
          CounterStore.expireIfNeeded, hsome, Window.next, Window.counter, endedEvent, hends,
          not_lt.2 hends]
      · refine ⟨false, ?_⟩
        simp [CounterStore.countRequest, CounterStore.incr, CounterStore.expireNx,
          CounterStore.expireIfNeeded, hsome, Window.next, Window.counter, endedEvent, hends,
          not_le.1 hends]

/-- The store `s'` has the other keys' counters of `s`, and tells more of the key only. -/
structure TouchesOnly (key : κ) (s s' : CounterStore ι κ T) : Prop where
  now : s'.now = s.now
  counter : ∀ key', key' ≠ key → s'.counter key' = s.counter key'
  log : ∃ more, s'.log = s.log ++ more ∧ ∀ e ∈ more, e.key = key

omit [DecidableEq κ] [AddCommGroup T] [LinearOrder T] in
theorem TouchesOnly.trans {key : κ} {s s' s'' : CounterStore ι κ T} (h : TouchesOnly key s s')
    (h' : TouchesOnly key s' s'') : TouchesOnly key s s'' := by
  obtain ⟨more, hlog, hmore⟩ := h.log
  obtain ⟨more', hlog', hmore'⟩ := h'.log
  refine ⟨h'.now.trans h.now, fun k hk => (h'.counter k hk).trans (h.counter k hk),
    more ++ more', by rw [hlog', hlog, List.append_assoc], ?_⟩
  intro e he
  rcases List.mem_append.1 he with he | he
  · exact hmore e he
  · exact hmore' e he

omit [AddCommGroup T] [LinearOrder T] in
/-- A change of the key's counter. -/
theorem touchesOnly_update (s : CounterStore ι κ T) (key : κ) (c : Option (TimedCounter T)) :
    TouchesOnly key s { s with counter := Function.update s.counter key c } :=
  ⟨rfl, fun _ hk => Function.update_of_ne hk _ _, [], (List.append_nil _).symm, by simp⟩

omit [AddCommGroup T] in
theorem touchesOnly_expireIfNeeded (s : CounterStore ι κ T) (key : κ) :
    TouchesOnly key s (s.expireIfNeeded key) := by
  have hrefl : TouchesOnly key s s := ⟨rfl, fun _ _ => rfl, [], (List.append_nil _).symm, by simp⟩
  unfold CounterStore.expireIfNeeded
  split
  · split
    · exact ⟨rfl, fun _ hk => Function.update_of_ne hk _ _, [.expired key], rfl, by
        simp [CounterEvent.key]⟩
    · exact hrefl
  · exact hrefl

theorem touchesOnly_countRequest (s : CounterStore ι κ T) (i : ι) (key : κ) (ttl : T) :
    TouchesOnly key s (s.countRequest i key ttl).2 := by
  have hincr : TouchesOnly key s (s.incr key).2 :=
    (touchesOnly_expireIfNeeded s key).trans (touchesOnly_update _ _ _)
  have hexpire : ∀ s : CounterStore ι κ T, TouchesOnly key s (s.expireNx key ttl).2 := by
    intro s
    unfold CounterStore.expireNx
    dsimp only
    split
    · exact (touchesOnly_expireIfNeeded s key).trans (touchesOnly_update _ _ _)
    · exact touchesOnly_expireIfNeeded s key
  refine (hincr.trans (hexpire _)).trans ⟨rfl, fun _ _ => rfl, _, rfl, ?_⟩
  simp [CounterEvent.key]

omit [AddCommGroup T] in
theorem mem_log_expireIfNeeded {s : CounterStore ι κ T} {key : κ} {e : CounterEvent ι κ T}
    (h : e ∈ (s.expireIfNeeded key).log) : e ∈ s.log ∨ e = .expired key := by
  unfold CounterStore.expireIfNeeded at h
  split at h
  · split at h
    · simpa using h
    · exact .inl h
  · exact .inl h

/-- The log tells the request with the number it was answered. -/
theorem mem_log_countRequest {s : CounterStore ι κ T} {i : ι} {key : κ} {ttl : T}
    {e : CounterEvent ι κ T} (h : e ∈ (s.countRequest i key ttl).2.log) :
    e ∈ s.log ∨ e = .expired key ∨
      e = .counted i key s.now (s.countRequest i key ttl).1.1 := by
  have hexpire : e ∈ ((s.incr key).2.expireNx key ttl).2.log →
      e ∈ (s.incr key).2.log ∨ e = .expired key := by
    intro h
    unfold CounterStore.expireNx at h
    dsimp only at h
    split at h
    · exact mem_log_expireIfNeeded h
    · exact mem_log_expireIfNeeded h
  rcases List.mem_append.1 h with h | h
  · rcases hexpire h with h | h
    · rcases mem_log_expireIfNeeded (s := s) h with h | h
      · exact .inl h
      · exact .inr (.inl h)
    · exact .inr (.inl h)
  · exact .inr (.inr (List.mem_singleton.1 h))

/-- The request is in the log once it is counted. -/
theorem counted_mem_log_countRequest (s : CounterStore ι κ T) (i : ι) (key : κ) (ttl : T) :
    .counted i key s.now (s.countRequest i key ttl).1.1 ∈ (s.countRequest i key ttl).2.log :=
  List.mem_append_right _ (List.mem_singleton_self _)

/-- What the log tells stays in it. -/
theorem log_subset_countRequest (s : CounterStore ι κ T) (i : ι) (key : κ) (ttl : T) :
    s.log ⊆ (s.countRequest i key ttl).2.log := by
  obtain ⟨more, hlog, -⟩ := (touchesOnly_countRequest s i key ttl).log
  rw [hlog]
  exact List.subset_append_left _ _

end Store

section KeepsWindow

variable {ι κ T : Type} [DecidableEq κ] [AddCommGroup T] [LinearOrder T] {ttl : T} {key : κ}
  {s s' : CounterStore ι κ T}

/-- The key's counter and the numbers of its requests are those of the windows. -/
structure KeepsWindow (ttl : T) (key : κ) (s : CounterStore ι κ T) : Prop where
  counter : s.counter key = (windowAfter ttl none (requestsOf key s.log)).map Window.counter
  entries : entriesOf key s.log = numbered ttl none (requestsOf key s.log)
  wellNumbered : WellNumbered key 0 s.log
  since : sinceExpiry key 0 s.log =
    (windowAfter ttl none (requestsOf key s.log)).elim 0 Window.requests
  sorted : (requestsOf key s.log).Pairwise fun r r' => r.2 ≤ r'.2
  past : ∀ r ∈ requestsOf key s.log, r.2 ≤ s.now

theorem KeepsWindow.empty (ttl : T) (key : κ) (now : T) :
    KeepsWindow ttl key ({ now := now } : CounterStore ι κ T) where
  counter := rfl
  entries := rfl
  wellNumbered := trivial
  since := rfl
  sorted := .nil
  past r hr := by cases hr

/-- Time passes. -/
theorem KeepsWindow.elapse (h : KeepsWindow ttl key s) {now : T} (hnow : s.now ≤ now) :
    KeepsWindow ttl key { s with now := now } :=
  { h with past := fun r hr => (h.past r hr).trans hnow }

/-- Other keys are used. -/
theorem KeepsWindow.other (h : KeepsWindow ttl key s) {key' : κ} (hkey : key ≠ key')
    (hs : TouchesOnly key' s s') : KeepsWindow ttl key s' := by
  obtain ⟨more, hlog, hmore⟩ := hs.log
  have hne : ∀ e ∈ more, e.key ≠ key := fun e he heq => hkey (heq.symm.trans (hmore e he))
  have hentries : entriesOf key s'.log = entriesOf key s.log := by
    rw [hlog, entriesOf_append, entriesOf_of_ne hne, List.append_nil]
  have hrequests : requestsOf key s'.log = requestsOf key s.log := congrArg (List.map _) hentries
  refine ⟨?_, ?_, ?_, ?_, ?_, ?_⟩
  · rw [hs.counter key hkey, hrequests, h.counter]
  · rw [hentries, hrequests, h.entries]
  · rw [hlog]
    exact wellNumbered_append.2 ⟨h.wellNumbered, wellNumbered_of_ne hne _⟩
  · rw [hlog, sinceExpiry_append, sinceExpiry_of_ne hne, ← hlog, hrequests, h.since]
  · rw [hrequests]
    exact h.sorted
  · rw [hrequests, hs.now]
    exact h.past

/-- A request of the key gets its number in the window, and the counter follows. -/
theorem KeepsWindow.countRequest (h : KeepsWindow ttl key s) (i : ι) :
    KeepsWindow ttl key (s.countRequest i key ttl).2 := by
  obtain ⟨isSet, heq⟩ := countRequest_eq h.counter i ttl
  generalize hw : windowAfter ttl none (requestsOf key s.log) = w at heq
  rw [heq]
  have hended : entriesOf key (endedEvent ι key w s.now) = [] ∧
      (∀ n, WellNumbered key n (endedEvent ι key w s.now)) ∧
      sinceExpiry key (w.elim 0 Window.requests) (endedEvent ι key w s.now) + 1 =
        (Window.next ttl w s.now).requests := by
    cases w with
    | none => exact ⟨rfl, fun _ => trivial, rfl⟩
    | some v =>
        by_cases hends : v.ends ≤ s.now
        · simp [endedEvent, hends, entriesOf, CounterEvent.requestFor, WellNumbered, sinceExpiry,
            CounterEvent.since, Window.next, not_lt.2 hends]
        · simp [endedEvent, hends, entriesOf, WellNumbered, sinceExpiry, Window.next,
            not_le.1 hends]
  obtain ⟨hnone, hnumbered, hnext⟩ := hended
  have hentries : entriesOf key (s.log ++ (endedEvent ι key w s.now ++
      [.counted i key s.now (Window.next ttl w s.now).requests])) =
        entriesOf key s.log ++ [(i, s.now, (Window.next ttl w s.now).requests)] := by
    rw [entriesOf_append, entriesOf_append, hnone, List.nil_append]
    simp [entriesOf, CounterEvent.requestFor]
  have hrequests : requestsOf key (s.log ++ (endedEvent ι key w s.now ++
      [.counted i key s.now (Window.next ttl w s.now).requests])) =
        requestsOf key s.log ++ [(i, s.now)] := by
    rw [requestsOf, hentries, List.map_append]
    rfl
  have hsince : sinceExpiry key 0 s.log = w.elim 0 Window.requests := hw ▸ h.since
  refine ⟨?_, ?_, ?_, ?_, ?_, ?_⟩
  · dsimp only
    rw [hrequests, windowAfter_concat, hw, Function.update_self]
    rfl
  · dsimp only
    rw [hentries, hrequests, numbered_concat, hw, h.entries]
  · refine wellNumbered_append.2 ⟨h.wellNumbered, wellNumbered_append.2 ⟨hnumbered _, ?_, trivial⟩⟩
    intro r hr
    rw [CounterEvent.requestFor, if_pos rfl] at hr
    cases hr
    rw [hsince]
    exact hnext.symm
  · dsimp only
    rw [hrequests, windowAfter_concat, hw, sinceExpiry_append, sinceExpiry_append, hsince]
    simp only [sinceExpiry, List.foldl_cons, List.foldl_nil, CounterEvent.since, if_true]
    exact hnext
  · dsimp only
    rw [hrequests, List.pairwise_append]
    refine ⟨h.sorted, List.pairwise_singleton _ _, fun r hr r' hr' => ?_⟩
    rw [List.mem_singleton.1 hr']
    exact h.past r hr
  · dsimp only
    rw [hrequests]
    intro r hr
    rcases List.mem_append.1 hr with hr | hr
    · exact h.past r hr
    · rw [List.mem_singleton.1 hr]

end KeepsWindow

end Vivac.Lib
