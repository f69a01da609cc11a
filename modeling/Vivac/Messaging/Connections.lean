import Vivac.Core.WsManager

/-!
# The registry of WebSocket connections is exact

`ManagerLoop` is any run of `connect`, `disconnect` and `send_to_user` calls, each a task of its
own, interleaved at every await, with any answer to every `accept` and `send_json`.

`Connections.tick` says what a tick of the loop does to the registry, and `Tick.manager` that the
code does that: a socket enters at the end of its `accept`, and leaves when it is disconnected or
a send to it fails; every other tick leaves the registry alone. The registry is then the fold of
the log, and `RegistryExact` reads off it: who is in it, that no entry is empty, and what each send
attempts, which is fixed by the log before it began.
-/

set_option autoImplicit false

namespace Vivac

open Lib

variable {ι Socket Payload : Type}

/-- A tick of the loop of the manager. -/
abbrev ManagerEvent (ι Socket Payload : Type) : Type :=
  LoopEvent ι (ManagerCall Socket Payload) (SocketOp Socket Payload) Unit SocketError

/-- The registry, the calls made so far as tasks, and the ticks. -/
abbrev ManagerLoop (ι Socket Payload : Type) : Type 1 :=
  Loop ι (ManagerCall Socket Payload) SocketError (Connections Socket) (SocketOp Socket Payload)
    Unit Unit

/-- The tick ends a `connect` of the socket for the user. -/
def Adds (userUid : String) (websocket : Socket) : ManagerEvent ι Socket Payload → Prop
  | .resumed _ (.connect u w) _ (.ok _) => u = userUid ∧ w = websocket
  | _ => False

/-- The tick is a `disconnect` of the socket for the user, or a failed send to it. -/
def Removes (userUid : String) (websocket : Socket) : ManagerEvent ι Socket Payload → Prop
  | .began _ (.disconnect u w) => u = userUid ∧ w = websocket
  | .resumed _ (.sendToUser _ u _) (.sendJson w _) (.error _) => u = userUid ∧ w = websocket
  | _ => False

/-- A `connect` added the socket, and since then it was not disconnected and no send to it
failed. -/
def Registered (userUid : String) (websocket : Socket)
    (log : List (ManagerEvent ι Socket Payload)) : Prop :=
  ∃ before e after, log = before ++ e :: after ∧ Adds userUid websocket e ∧
    ∀ e' ∈ after, ¬Removes userUid websocket e'

/-- What holds of the registry at every point of a run. -/
structure RegistryExact [DecidableEq ι] (l : ManagerLoop ι Socket Payload) : Prop where
  /-- A user is mapped to the sockets that are registered. -/
  exact : ∀ userUid websocket,
    websocket ∈ l.state.of userUid ↔ Registered userUid websocket l.log
  /-- No user is mapped to an empty set. -/
  occupied : ∀ userUid, l.state userUid ≠ some ∅
  /-- `disconnect` is over at once and has raised nothing. -/
  disconnects : ∀ i userUid websocket t, l.task i = some t →
    t.call = .disconnect userUid websocket → t.rest = .ret ()
  /-- A call that raised is a `connect`, so no failed send and no socket given up raised. -/
  raises : ∀ i t e, l.task i = some t → t.rest = .raise e →
    ∃ userUid websocket, t.call = .connect userUid websocket
  /-- A send attempts the sockets registered when it began, each once, one after the other: it is
  over when it has attempted them all, and stands at one of them before. -/
  sends : ∀ i listing userUid payload before after,
    l.log = before ++ .began i (.sendToUser listing userUid payload) :: after →
    ∃ sockets : List Socket, sockets.Nodup ∧
      (∀ websocket, websocket ∈ sockets ↔ Registered userUid websocket before) ∧
      ∃ t, l.task i = some t ∧
        (t.rest = .ret () ∧
            l.attempts i = sockets.map (fun websocket => .sendJson websocket payload) ∨
          (∃ websocket, t.pending = some (.sendJson websocket payload)) ∧
            l.attempts i <+: sockets.map fun websocket => .sendJson websocket payload)

namespace Connections

variable [DecidableEq Socket]

/-- With a socket added for a user. -/
def added (connections : Connections Socket) (userUid : String) (websocket : Socket) :
    Connections Socket :=
  Function.update connections userUid (some (insert websocket (connections.of userUid)))

/-- With a socket taken from a user, and the entry of a user who has no other taken too. -/
def without (connections : Connections Socket) (userUid : String) (websocket : Socket) :
    Connections Socket :=
  Function.update connections userUid
    (if (connections.of userUid).erase websocket = ∅ then none
      else some ((connections.of userUid).erase websocket))

/-- What a tick does to the registry. -/
def tick (connections : Connections Socket) : ManagerEvent ι Socket Payload → Connections Socket
  | .resumed _ (.connect userUid websocket) _ (.ok _) => connections.added userUid websocket
  | .began _ (.disconnect userUid websocket) => connections.without userUid websocket
  | .resumed _ (.sendToUser _ userUid _) (.sendJson websocket _) (.error _) =>
    connections.without userUid websocket
  | _ => connections

variable {connections : Connections Socket} {u u' : String} {w w' : Socket}

theorem of_added_self : (connections.added u w).of u = insert w (connections.of u) := by
  simp [added, of]

theorem of_without_self : (connections.without u w).of u = (connections.of u).erase w := by
  by_cases h : (connections.of u).erase w = ∅
  · simp [without, h]
    simp [of]
  · simp [without, h]
    simp [of]

theorem mem_of_added :
    w' ∈ (connections.added u w).of u' ↔ w' ∈ connections.of u' ∨ (u = u' ∧ w = w') := by
  by_cases h : u' = u
  · subst h
    rw [of_added_self, Finset.mem_insert]
    tauto
  · simp [added, of, h, Ne.symm h]

theorem mem_of_without :
    w' ∈ (connections.without u w).of u' ↔ w' ∈ connections.of u' ∧ ¬(u = u' ∧ w = w') := by
  by_cases h : u' = u
  · subst h
    rw [of_without_self, Finset.mem_erase]
    tauto
  · simp [without, of, h, Ne.symm h]

/-- A tick keeps the sockets it does not remove, and adds those it adds. -/
theorem mem_of_tick (e : ManagerEvent ι Socket Payload) :
    w ∈ (connections.tick e).of u ↔ Adds u w e ∨ w ∈ connections.of u ∧ ¬Removes u w e := by
  unfold tick
  split
  · rw [mem_of_added]
    simp [Adds, Removes, or_comm]
  · rw [mem_of_without]
    simp [Adds, Removes]
  · rw [mem_of_without]
    simp [Adds, Removes]
  next h1 h2 h3 =>
    -- a tick of none of these forms adds nothing and removes nothing
    have hadds : ¬Adds u w e := by
      intro h
      unfold Adds at h
      split at h
      · exact h1 _ _ _ _ _ rfl
      · exact h
    have hremoves : ¬Removes u w e := by
      intro h
      unfold Removes at h
      split at h
      · exact h2 _ _ _ rfl
      · exact h3 _ _ _ _ _ _ _ rfl
      · exact h
    simp [hadds, hremoves]

/-- No tick leaves an empty set. -/
theorem tick_ne_empty (e : ManagerEvent ι Socket Payload) (h : ∀ u, connections u ≠ some ∅)
    (u : String) : connections.tick e u ≠ some ∅ := by
  have hadded : ∀ u' (w : Socket), connections.added u' w u ≠ some ∅ := by
    intro u' w
    by_cases hu : u = u'
    · subst hu
      simp [added]
    · simpa [added, hu] using h u
  have hwithout : ∀ u' (w : Socket), connections.without u' w u ≠ some ∅ := by
    intro u' w
    by_cases hu : u = u'
    · subst hu
      by_cases hempty : (connections.of u).erase w = ∅
      · simp [without, hempty]
      · simp [without, hempty]
    · simpa [without, hu] using h u
  unfold tick
  split
  · exact hadded _ _
  · exact hwithout _ _
  · exact hwithout _ _
  · exact h u

end Connections

section Log

variable {u : String} {w : Socket} {log : List (ManagerEvent ι Socket Payload)}

/-- Where an element of a list stands when one more is added. -/
theorem append_singleton_eq_split {α : Type} {xs before after : List α} {x e : α}
    (h : xs ++ [e] = before ++ x :: after) :
    xs = before ∧ e = x ∧ after = [] ∨
      ∃ after', after = after' ++ [e] ∧ xs = before ++ x :: after' := by
  rcases List.eq_nil_or_concat after with rfl | ⟨after', last, rfl⟩
  · obtain ⟨hxs, hlast⟩ := List.append_inj' h rfl
    cases hlast
    exact .inl ⟨hxs, rfl, rfl⟩
  · have hsplit : xs ++ [e] = (before ++ x :: after') ++ [last] := by
      simpa using h
    obtain ⟨hxs, hlast⟩ := List.append_inj' hsplit rfl
    cases hlast
    exact .inr ⟨after', List.concat_eq_append, hxs⟩

/-- Registered after one more tick. -/
theorem registered_append (e : ManagerEvent ι Socket Payload) :
    Registered u w (log ++ [e]) ↔ Adds u w e ∨ Registered u w log ∧ ¬Removes u w e := by
  constructor
  · rintro ⟨before, added, after, hlog, hadds, hafter⟩
    -- the tick that added it is the last one, or an earlier one
    rcases append_singleton_eq_split hlog with ⟨-, rfl, -⟩ | ⟨after', rfl, hlog'⟩
    · exact .inl hadds
    · refine .inr ⟨⟨before, added, after', hlog', hadds, fun e' he' => ?_⟩, ?_⟩
      · exact hafter e' (by simp [he'])
      · exact hafter _ (by simp)
  · rintro (hadds | ⟨⟨before, added, after, rfl, hadds, hafter⟩, hnot⟩)
    · exact ⟨log, e, [], rfl, hadds, fun _ h => (by cases h)⟩
    · refine ⟨before, added, after ++ [e], by simp, hadds, fun e' he' => ?_⟩
      rcases List.mem_append.mp he' with he' | he'
      · exact hafter e' he'
      · rw [List.mem_singleton.mp he']
        exact hnot

variable [DecidableEq Socket]

/-- The registry that the ticks so far leave. -/
def connectionsAfter (log : List (ManagerEvent ι Socket Payload)) : Connections Socket :=
  log.foldl Connections.tick fun _ => none

theorem connectionsAfter_append (e : ManagerEvent ι Socket Payload) :
    connectionsAfter (log ++ [e]) = (connectionsAfter log).tick e := by
  simp [connectionsAfter]

/-- The fold of the log holds what the log says is registered. -/
theorem mem_connectionsAfter :
    w ∈ (connectionsAfter log).of u ↔ Registered u w log := by
  induction log using List.reverseRecOn with
  | nil =>
      have hnone : ¬Registered u w ([] : List (ManagerEvent ι Socket Payload)) := by
        rintro ⟨before, e, after, h, -⟩
        simp at h
      simp [connectionsAfter, Connections.of, hnone]
  | append_singleton log e ih =>
      rw [connectionsAfter_append, Connections.mem_of_tick, ih, registered_append]

theorem connectionsAfter_ne_empty : ∀ u, connectionsAfter log u ≠ some ∅ := by
  induction log using List.reverseRecOn with
  | nil =>
      intro u h
      cases h
  | append_singleton log e ih =>
      intro u
      rw [connectionsAfter_append]
      exact Connections.tick_ne_empty e ih u

end Log

section Code

variable {m : Connections Socket} {u : String} {w : Socket}

theorem runToAwait_getItem (g : Finset Socket → ManagerProg Socket Payload Unit) :
    runToAwait ((Connections.getItem u).bind g) m =
      runToAwait (g (m.of u))
        (Function.update m u (some (m.of u))) := rfl

theorem runToAwait_setItem (sockets : Finset Socket)
    (g : Unit → ManagerProg Socket Payload Unit) :
    runToAwait ((Connections.setItem u sockets).bind g) m =
      runToAwait (g ()) (Function.update m u (some sockets)) := rfl

/-- The key that is deleted is there. -/
theorem runToAwait_delItem (sockets : Finset Socket) (g : Unit → ManagerProg Socket Payload Unit) :
    runToAwait ((Connections.delItem u).bind g) (Function.update m u (some sockets)) =
      runToAwait (g ()) (Function.update m u none) := by
  simp [Connections.delItem, Prog.perform, Prog.ofExcept]

variable [DecidableEq Socket]

/-- The rest of a `connect` whose socket was accepted. -/
theorem runToAwait_accepted :
    runToAwait (((Connections.getItem u).bind fun sockets =>
      Connections.setItem u (insert w sockets)) : ManagerProg Socket Payload Unit) m =
      (m.added u w, .ret ()) := by
  rw [runToAwait_getItem, ← Prog.bind_ret_right (Connections.setItem u _), runToAwait_setItem]
  simp [Connections.added]

/-- `disconnect` raises nothing, whoever is connected. -/
theorem runToAwait_disconnect (g : Unit → ManagerProg Socket Payload Unit) :
    runToAwait ((ConnectionManager.disconnect u w).bind g) m =
      runToAwait (g ()) (m.without u w) := by
  unfold ConnectionManager.disconnect
  simp only [Prog.bind_eq_bind, Prog.bind_assoc]
  rw [runToAwait_getItem, runToAwait_setItem, runToAwait_getItem]
  have hleft : Connections.of (Function.update (Function.update m u
      (some (m.of u))) u (some ((m.of u).erase w))) u =
      (m.of u).erase w := by
    simp [Connections.of]
  rw [hleft]
  by_cases h : (m.of u).erase w = ∅
  · rw [if_pos h, runToAwait_delItem]
    simp [Connections.without, h]
  · rw [if_neg h]
    simp [Connections.without, h]

/-- A send to no one is over, and one to a socket stands at it. -/
theorem runToAwait_sendEach (payload : Payload) (sockets : List Socket) :
    runToAwait (ConnectionManager.sendEach u payload sockets) m =
      (m, ConnectionManager.sendEach u payload sockets) := by
  cases sockets with
  | nil => rfl
  | cons w rest => rfl

/-- What is left of a call that has run up to an await, or to its end. -/
def StandsAt : ManagerCall Socket Payload → ManagerProg Socket Payload Unit → Prop
  | .connect u w, rest =>
    rest = ConnectionManager.connect u w ∨ rest = .ret () ∨ ∃ e, rest = .raise e
  | .disconnect _ _, rest => rest = .ret ()
  | .sendToUser _ u payload, rest => ∃ sockets, rest = ConnectionManager.sendEach u payload sockets

/-- A call runs to its first await: a `connect` and a send change nothing, a `disconnect` is
over. -/
theorem begin_call (i : ι) (call : ManagerCall Socket Payload) :
    (runToAwait call.program m).1 =
        m.tick (.began i call : ManagerEvent ι Socket Payload) ∧
      StandsAt call (runToAwait call.program m).2 := by
  cases call with
  | connect u w => exact ⟨rfl, .inl rfl⟩
  | disconnect u w =>
      have h := runToAwait_disconnect (u := u) (w := w) (m := m)
        (fun _ => (.ret () : ManagerProg Socket Payload Unit))
      rw [Prog.bind_ret_right] at h
      rw [ManagerCall.program, h]
      exact ⟨rfl, rfl⟩
  | sendToUser listing u payload =>
      have h : runToAwait (ManagerCall.sendToUser listing u payload).program m =
          (m, ConnectionManager.sendEach u payload
            (listing.list (m.of u))) := runToAwait_sendEach payload _
      rw [h]
      exact ⟨rfl, _, rfl⟩

/-- A send that is answered goes on with the next socket, without the one it failed for. -/
theorem resume_send (i : ι) (listing : Listing Socket) {payload : Payload} {sockets : List Socket}
    {a : SocketOp Socket Payload} {k : Except SocketError Unit → ManagerProg Socket Payload Unit}
    (h : ConnectionManager.sendEach u payload sockets = .call (.await a) k) :
    ∃ w rest, sockets = w :: rest ∧ a = .sendJson w payload ∧ ∀ r,
      runToAwait (k r) m =
        (m.tick (.resumed i (.sendToUser listing u payload) a r : ManagerEvent ι _ _),
          ConnectionManager.sendEach u payload rest) := by
  cases sockets with
  | nil => cases h
  | cons w rest =>
      cases h
      refine ⟨w, rest, rfl, rfl, fun r => ?_⟩
      cases r with
      | ok _ => exact runToAwait_sendEach payload rest
      | error e =>
          have hgiven := runToAwait_disconnect (u := u) (w := w) (m := m)
            fun _ => ConnectionManager.sendEach u payload rest
          rw [runToAwait_sendEach] at hgiven
          exact hgiven

/-- An answered await: the registry changes as the tick says. -/
theorem resume_call (i : ι) {call : ManagerCall Socket Payload} {a : SocketOp Socket Payload}
    {k : Except SocketError Unit → ManagerProg Socket Payload Unit}
    (h : StandsAt call (.call (.await a) k)) (r : Except SocketError Unit) :
    (runToAwait (k r) m).1 =
        m.tick (.resumed i call a r : ManagerEvent ι Socket Payload) ∧
      StandsAt call (runToAwait (k r) m).2 := by
  cases call with
  | connect u w =>
      rcases h with h | h | ⟨e, h⟩
      · cases h
        cases r with
        | ok _ =>
            have haccepted : runToAwait (((Connections.getItem u).bind fun sockets =>
                Connections.setItem u (insert w sockets)) : ManagerProg Socket Payload Unit) m =
                (m.added u w, .ret ()) := runToAwait_accepted
            exact ⟨congrArg Prod.fst haccepted, .inr (.inl (congrArg Prod.snd haccepted))⟩
        | error e => exact ⟨rfl, .inr (.inr ⟨e, rfl⟩)⟩
      · cases h
      · cases h
  | disconnect u w => cases h
  | sendToUser listing u payload =>
      obtain ⟨sockets, h⟩ := h
      obtain ⟨w, rest, -, -, hrun⟩ := resume_send (m := m) i listing h.symm
      rw [hrun r]
      exact ⟨rfl, rest, rfl⟩

end Code

section Runs

variable [DecidableEq ι] [DecidableEq Socket] {l : ManagerLoop ι Socket Payload}

/-- The send that began after `before` has the sockets of then before it, and has come to some
point of them. -/
def SendsListed (l : ManagerLoop ι Socket Payload) (i : ι) (listing : Listing Socket)
    (u : String) (payload : Payload) (before : List (ManagerEvent ι Socket Payload)) : Prop :=
  ∃ rest, l.task i = some ⟨.sendToUser listing u payload,
      ConnectionManager.sendEach u payload rest⟩ ∧
    l.log.filterMap (LoopEvent.answered i) ++ rest.map (SocketOp.sendJson · payload) =
      (listing.list ((connectionsAfter before).of u)).map (SocketOp.sendJson · payload)

/-- What every tick keeps. -/
structure ManagerInvariant (l : ManagerLoop ι Socket Payload) : Prop where
  fresh : l.FreshTasks
  state : l.state = connectionsAfter l.log
  task : ∀ i t, l.task i = some t → StandsAt t.call t.rest
  sends : ∀ i listing u payload before after,
    l.log = before ++ .began i (.sendToUser listing u payload) :: after →
    SendsListed l i listing u payload before

theorem managerInvariant_initial :
    ManagerInvariant (Loop.initial (fun _ => none) : ManagerLoop ι Socket Payload) where
  fresh := fun _ _ _ h => (by cases h)
  state := rfl
  task := fun _ _ h => (by cases h)
  sends := fun i listing u payload before after h => (by simp [Loop.initial] at h)

/-- A tick about another task leaves a send where it is. -/
theorem SendsListed.run_of_ne {i j : ι} {listing : Listing Socket} {u : String} {payload : Payload}
    {before : List (ManagerEvent ι Socket Payload)} (h : SendsListed l j listing u payload before)
    {e : ManagerEvent ι Socket Payload} (he : e.id = i) (hne : j ≠ i)
    (call : ManagerCall Socket Payload) (p : ManagerProg Socket Payload Unit) :
    SendsListed (l.run i call p e) j listing u payload before := by
  obtain ⟨rest, htask, hall⟩ := h
  refine ⟨rest, ?_, ?_⟩
  · rw [Loop.run_task_of_ne _ _ _ _ _ hne, htask]
  · rw [Loop.run_log, filterMap_answered_append_of_ne (by rw [he]; exact hne.symm), hall]

theorem ManagerInvariant.begin (h : ManagerInvariant l) (i : ι)
    (call : ManagerCall Socket Payload) (hi : l.task i = none) :
    ManagerInvariant (l.run i call call.program (.began i call)) := by
  have hbegin := begin_call (m := l.state) i call
  constructor
  · exact h.fresh.run (e := .began i call) call call.program
  · rw [Loop.run_state, hbegin.1, Loop.run_log, connectionsAfter_append, ← h.state]
  · intro j t ht
    by_cases hne : j = i
    · subst hne
      rw [Loop.run_task_self] at ht
      cases ht
      exact hbegin.2
    · rw [Loop.run_task_of_ne _ _ _ _ _ hne] at ht
      exact h.task j t ht
  · intro j listing u payload before after hlog
    rw [Loop.run_log] at hlog
    rcases append_singleton_eq_split hlog with ⟨rfl, he, -⟩ | ⟨after', rfl, hlog'⟩
    · -- the call that begins is this send: nothing of it was answered before
      cases he
      have hunanswered : l.log.filterMap (LoopEvent.answered i) = [] := by
        rw [List.filterMap_eq_nil_iff]
        intro e he
        have hid := h.fresh i hi e he
        cases e with
        | began k call => rfl
        | resumed k call a r => exact if_neg hid
      have hrun : runToAwait (ManagerCall.sendToUser listing u payload).program l.state =
          (l.state, ConnectionManager.sendEach u payload
            (listing.list (l.state.of u))) := runToAwait_sendEach payload _
      refine ⟨listing.list (l.state.of u), ?_, ?_⟩
      · rw [Loop.run_task_self, hrun]
      · rw [Loop.run_log, ← h.state]
        simp [hunanswered, LoopEvent.answered]
    · have hsends := h.sends j listing u payload before after' hlog'
      refine hsends.run_of_ne (e := .began i call) rfl ?_ call call.program
      -- a task that has begun is not begun again
      rintro rfl
      obtain ⟨rest, htask, -⟩ := hsends
      rw [hi] at htask
      cases htask

theorem ManagerInvariant.resume (h : ManagerInvariant l) (i : ι)
    {call : ManagerCall Socket Payload} {a : SocketOp Socket Payload}
    {k : Except SocketError Unit → ManagerProg Socket Payload Unit}
    (r : Except SocketError Unit) (hi : l.task i = some ⟨call, .call (.await a) k⟩) :
    ManagerInvariant (l.run i call (k r) (.resumed i call a r)) := by
  have hresume := resume_call (m := l.state) i (h.task i _ hi) r
  constructor
  · exact h.fresh.run (e := .resumed i call a r) call (k r)
  · rw [Loop.run_state, hresume.1, Loop.run_log, connectionsAfter_append, ← h.state]
  · intro j t ht
    by_cases hne : j = i
    · subst hne
      rw [Loop.run_task_self] at ht
      cases ht
      exact hresume.2
    · rw [Loop.run_task_of_ne _ _ _ _ _ hne] at ht
      exact h.task j t ht
  · intro j listing u payload before after hlog
    rw [Loop.run_log] at hlog
    rcases append_singleton_eq_split hlog with ⟨-, he, -⟩ | ⟨after', rfl, hlog'⟩
    · cases he
    · have hsends := h.sends j listing u payload before after' hlog'
      by_cases hne : j = i
      · -- the send is answered: the socket it stood at is done with
        subst hne
        obtain ⟨rest, htask, hall⟩ := hsends
        rw [hi, Option.some.injEq, LoopTask.mk.injEq] at htask
        obtain ⟨rfl, hrest⟩ := htask
        obtain ⟨w, rest', rfl, rfl, hrun⟩ :=
          resume_send (m := l.state) j listing hrest.symm
        refine ⟨rest', ?_, ?_⟩
        · rw [Loop.run_task_self, hrun r]
        · rw [← hall, Loop.run_log]
          simp [LoopEvent.answered]
      · exact hsends.run_of_ne (e := .resumed i call a r) rfl hne call (k r)

theorem ManagerInvariant.of_runs (h : LoopRuns ManagerCall.program (fun _ => none) l) :
    ManagerInvariant l := by
  apply h.invariant managerInvariant_initial
  intro l l' ht hl
  cases ht with
  | begin i call hi => exact hl.begin i call hi
  | resume i call a k r hi => exact hl.resume i r hi

/-- What a send has attempted: it is over after the last socket, and before it stands at one. -/
theorem SendsListed.attempts {i : ι} {listing : Listing Socket} {u : String} {payload : Payload}
    {before : List (ManagerEvent ι Socket Payload)}
    (h : SendsListed l i listing u payload before) :
    ∃ t, l.task i = some t ∧
      (t.rest = .ret () ∧ l.attempts i =
          (listing.list ((connectionsAfter before).of u)).map (SocketOp.sendJson · payload) ∨
        (∃ w, t.pending = some (.sendJson w payload)) ∧ l.attempts i <+:
          (listing.list ((connectionsAfter before).of u)).map (SocketOp.sendJson · payload)) := by
  obtain ⟨rest, htask, hall⟩ := h
  refine ⟨_, htask, ?_⟩
  cases rest with
  | nil =>
      refine .inl ⟨rfl, ?_⟩
      rw [← hall, Loop.attempts, htask]
      rfl
  | cons w rest =>
      refine .inr ⟨⟨w, rfl⟩, ?_⟩
      rw [← hall, Loop.attempts, htask]
      refine ⟨rest.map (SocketOp.sendJson · payload), ?_⟩
      rw [List.append_assoc]
      rfl

/-- The registry is exact at every point of every run. -/
theorem registry_exact (h : LoopRuns ManagerCall.program (fun _ => none) l) : RegistryExact l := by
  have hinv := ManagerInvariant.of_runs h
  constructor
  · intro u w
    rw [hinv.state]
    exact mem_connectionsAfter
  · rw [hinv.state]
    exact connectionsAfter_ne_empty
  · intro i u w t ht hcall
    have hstands := hinv.task i t ht
    rw [hcall] at hstands
    exact hstands
  · intro i t e ht hraise
    have hstands := hinv.task i t ht
    rw [hraise] at hstands
    cases hcall : t.call with
    | connect u w => exact ⟨u, w, rfl⟩
    | disconnect u w =>
        rw [hcall] at hstands
        cases hstands
    | sendToUser listing u payload =>
        rw [hcall] at hstands
        obtain ⟨sockets, hrest⟩ := hstands
        cases sockets with
        | nil => cases hrest
        | cons w rest => cases hrest
  · intro i listing u payload before after hlog
    refine ⟨listing.list ((connectionsAfter before).of u), listing.nodup _, fun w => ?_, ?_⟩
    · rw [listing.mem]
      exact mem_connectionsAfter
    · exact (hinv.sends i listing u payload before after hlog).attempts

end Runs

/-- In increasing order. -/
def Listing.ascending : Listing ℕ where
  list sockets := sockets.sort (· ≤ ·)
  nodup sockets := Finset.sort_nodup sockets _
  mem := Finset.mem_sort _

/-- Two sockets of a user are accepted, and a send stands at the first when the second is
disconnected; the send to the first then fails, and the one to the second is still made. -/
def lostSocket : ManagerLoop ℕ ℕ String :=
  let first := (Loop.initial fun _ => none).start ManagerCall.program 0 (.connect "usr-1" 7)
  let second := first.start ManagerCall.program 1 (.connect "usr-1" 8)
  let connected := (second.answer 1 (.ok ())).answer 0 (.ok ())
  let sending := connected.start ManagerCall.program 2 (.sendToUser .ascending "usr-1" "hello")
  let disconnected := sending.start ManagerCall.program 3 (.disconnect "usr-1" 8)
  (disconnected.answer 2 (.error .failed)).answer 2 (.ok ())

theorem registry_exact_lostSocket : RegistryExact lostSocket :=
  registry_exact ((((((((LoopRuns.initial.start 0 _ rfl).start 1 _ rfl).answer 1 _).answer 0
    _).start 2 _ rfl).start 3 _ rfl).answer 2 _).answer 2 _)

end Vivac
