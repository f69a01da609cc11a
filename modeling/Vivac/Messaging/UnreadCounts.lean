import Vivac.Core.Contracts
import Vivac.Core.SampleBackend
import Vivac.Endpoints.Conversations
import Mathlib.Data.Fintype.Basic

/-!
# Messages that are counted as unread

Any number of `send_message` and `mark_conversation_read` requests and `get_unread_counts` calls,
interleaved statement by statement. A message is dated at the start of the transaction that sends
it; a mark of the reader that falls between this start and the commit of the message is later
than the message, and the reader never learns of it (`unread_overrun`).

When no other participant's committed mark is as late as the message at its commit, the message
is counted until the next mark (`unread_counted`).
-/

set_option autoImplicit false

namespace Vivac.Messaging

open Lib App

/-! ## Calls -/

/-- A `send_message` request: the time of its update, the start of its transaction, the fresh uid
of its message, and what the counters of its limit tell. -/
structure SendCall where
  now : Timestamp
  started : Timestamp
  messageUid : String
  conversationUid : String
  senderUid : String
  content : String
  peer : Peer := {}

/-- A `mark_conversation_read` request of a user, and the time it takes. -/
structure MarkCall where
  now : Timestamp
  conversationUid : String
  userUid : String

/-- A call of the pool. -/
inductive Call where
  | send (m : SendCall)
  | mark (r : MarkCall)
  | count (userUid : String) (participants : List ConversationParticipant)

/-- The answer of a call. -/
inductive Answer where
  | sent (message : Message)
  | marked
  | counts (counts : List (String × ℕ))

/-- The message that a request sends. -/
def SendCall.message (m : SendCall) : Message where
  uid := m.messageUid
  conversationUid := m.conversationUid
  senderUid := m.senderUid
  content := m.content
  createdAt := m.started

namespace Call

/-- The program of a call, in its session. -/
def program : Call → App Answer
  | .send m => withSession do
    let (message, _) ← Conversations.sendMessage m.now m.started m.messageUid m.conversationUid
      m.peer (.access m.senderUid) m.content
    return .sent message
  | .mark r => withSession do
    Conversations.markConversationRead r.now r.conversationUid (.access r.userUid)
    return .marked
  | .count userUid participants => withSession do
    let counts ← getUnreadCounts userUid participants
    return .counts counts

/-- The message that a call sends, if it sends one. -/
def sent? : Call → Option SendCall
  | .send m => some m
  | _ => none

/-- The mark that a call makes, if it makes one. -/
def mark? : Call → Option MarkCall
  | .mark r => some r
  | _ => none

/-- The call marks what the user has read of the conversation. -/
def Marks (userUid conversationUid : String) : Call → Prop
  | .mark r => r.userUid = userUid ∧ r.conversationUid = conversationUid
  | _ => False

/-- What a call commits. A request that sends a message has touched its conversation, or found it
touched at that time already; a mark may find itself there already. -/
def Commits : Call → CommitFact Db RowKey Change
  | .send m => fun w _ commits => commits = [] ∧ (w.write = insertMessage m.message ∨
    w.write = insertMessage m.message ∘ touch m.conversationUid m.now)
  | .mark r => fun w _ _ => w.write = id ∨
    w.write = rewriteParticipant r.conversationUid r.userUid r.now
  | .count _ _ => fun _ _ _ => False

/-- The counts of the conversations asked for. -/
def countsIn (userUid : String) (participants : List ConversationParticipant) (d : Db) :
    List (String × ℕ) :=
  (participants.map ConversationParticipant.conversationUid).dedup.map fun u =>
    (u, (unreadMessages userUid u d).length)

/-- An association list made of a function has the value of each of its keys. -/
theorem lookup_map_self {β : Type} (f : String → β) {u : String} {us : List String} (h : u ∈ us) :
    (us.map fun v => (v, f v)).lookup u = some (f u) := by
  induction us with
  | nil => cases h
  | cons v vs ih =>
      rw [List.map_cons, List.lookup_cons]
      by_cases huv : u = v
      · subst huv
        simp
      · rw [beq_eq_false_iff_ne.2 huv]
        exact ih (List.mem_of_ne_of_mem huv h)

theorem lookup_countsIn {userUid u : String} {participants : List ConversationParticipant} {d : Db}
    (h : u ∈ participants.map ConversationParticipant.conversationUid) :
    (countsIn userUid participants d).lookup u = some (unreadMessages userUid u d).length :=
  lookup_map_self _ (List.mem_dedup.2 h)

/-- The counts that a call returns are those of the database it has seen. -/
def Ends : Call → Except Exc Answer → Own Db RowKey Change → Prop
  | .count userUid participants => fun r o => ∀ counts, r = .ok (.counts counts) →
    participants ≠ [] → ∃ d, o.seen = [d] ∧ counts = countsIn userUid participants d
  | _ => fun _ _ => True

end Call

/-! ## What a call knows -/

section Program

variable {ι : Type} [DecidableEq ι] {ok : ι → State ι → State ι → Prop} {calls : ι → Call} {i : ι}

/-- The logic of a pool of calls. Nothing is known of the database that a statement meets. -/
abbrev messagingLogic (ok : ι → State ι → State ι → Prop) (calls : ι → Call) :
    KnowledgeLogic (sessions ok : System ι Exc Command (State ι)) (Own Db RowKey Change) :=
  sessionLogic (attended_sessions ok) (fun _ _ _ _ => True) (fun _ _ _ _ => trivial)
    fun i => (calls i).Commits

variable {α : Type} {Q : Except Exc α → Own Db RowKey Change → Prop} {o : Own Db RowKey Change}
  {w : Work Db RowKey Change}

theorem knows_findConversation {Q : Except Exc Conversation → Own Db RowKey Change → Prop}
    {uid : String} (hQ : ∀ e o, Q (.error e) o) (hw : o.work = some w)
    (h : ∀ c seen, c.uid = uid → Q (.ok c) ⟨some w, seen, o.commits⟩) :
    Knows (messagingLogic ok calls) i Q (Conversations.findConversation uid) o := by
  apply Knows.read hw fun _ => hQ _ _
  rintro d -
  split
  · rename_i conversation hconversation
    exact h _ _ (Table.find?_eq_some.1 hconversation).2
  · exact hQ _ _

theorem knows_getCurrentUser {Q : Except Exc User → Own Db RowKey Change → Prop} {userUid : String}
    (hQ : ∀ e o, Q (.error e) o) (hw : o.work = some w)
    (h : ∀ user seen, user.uid = userUid → Q (.ok user) ⟨some w, seen, o.commits⟩) :
    Knows (messagingLogic ok calls) i Q (getCurrentUser (.access userUid)) o := by
  apply Knows.read hw fun _ => hQ _ _
  rintro d -
  split
  · exact hQ _ _
  · rename_i user huser
    split
    · exact h _ _ (Table.find?_eq_some.1 huser).2
    · exact hQ _ _

/-- The limit of a route, for a caller with an access token. -/
theorem knows_checkRateLimit {Q : Except Exc Unit → Own Db RowKey Change → Prop}
    {scope : LimitScope} {peer : Peer} {userUid : String} (hQ : ∀ e o, Q (.error e) o)
    (hw : o.work = some w) (h : ∀ seen, Q (.ok ()) ⟨some w, seen, o.commits⟩) :
    Knows (messagingLogic ok calls) i Q (checkRateLimit scope peer (.access userUid)) o := by
  apply Knows.bind
  apply Knows.bind
  apply knows_getCurrentUser (fun e o => hQ e o) hw
  intro user seen _
  show Knows (messagingLogic ok calls) i Q (decideLimit scope (peer.count scope (some user))) _
  unfold decideLimit
  split
  · split
    · exact hQ _ _
    · exact h _
  · exact h _

theorem knows_requireParticipant
    {Q : Except Exc ConversationParticipant → Own Db RowKey Change → Prop}
    {conversation : Conversation} {user : User} (hQ : ∀ e o, Q (.error e) o) (hw : o.work = some w)
    (h : ∀ p seen, (p.conversationUid, p.userUid) = (conversation.uid, user.uid) →
      Q (.ok p) ⟨some w, seen, o.commits⟩) :
    Knows (messagingLogic ok calls) i Q (Conversations.requireParticipant conversation user) o := by
  apply Knows.read hw fun _ => hQ _ _
  rintro d -
  split
  · rename_i participant hparticipant
    obtain ⟨hfound, -⟩ := Option.filter_eq_some_iff.1 hparticipant
    exact h _ _ (Table.find?_eq_some.1 hfound).2
  · exact hQ _ _

/-- The lookups of a conversation, its caller, and the caller's part in it. -/
theorem knows_activeParticipant {conversationUid userUid : String}
    {k : Conversations.Participation → App α} (hQ : ∀ e o, Q (.error e) o) (hw : o.work = some w)
    (h : ∀ p seen, p.conversation.uid = conversationUid → p.user.uid = userUid →
      (p.participant.conversationUid, p.participant.userUid) = (conversationUid, userUid) →
      Knows (messagingLogic ok calls) i Q (k p) ⟨some w, seen, o.commits⟩) :
    Knows (messagingLogic ok calls) i Q
      ((Conversations.activeParticipant conversationUid (.access userUid)).bind k) o := by
  apply Knows.bind
  apply Knows.bind
  apply knows_findConversation (fun e o => hQ e o) hw
  intro conversation seen hconversation
  apply Knows.bind
  apply knows_getCurrentUser (fun e o => hQ e o) rfl
  intro user seen huser
  apply Knows.bind
  apply knows_requireParticipant (fun e o => hQ e o) rfl
  intro participant seen hparticipant
  rw [hconversation, huser] at hparticipant
  exact h ⟨conversation, user, participant⟩ seen hconversation huser hparticipant

theorem knows_checkBlocks {Q : Except Exc Unit → Own Db RowKey Change → Prop}
    {conversation : Conversation} {userUid : String} {participantUids : List String}
    (hQ : ∀ e o, Q (.error e) o) (hw : o.work = some w)
    (h : ∀ seen, Q (.ok ()) ⟨some w, seen, o.commits⟩) :
    Knows (messagingLogic ok calls) i Q
      (Conversations.checkBlocks conversation userUid participantUids) o := by
  obtain ⟨work, seen, commits⟩ := o
  cases hw
  simp only [Conversations.checkBlocks]
  split
  · apply Knows.read rfl fun _ => hQ _ _
    rintro d -
    split
    · exact hQ _ _
    · exact h _
  · exact h _

/-- The flush of the conversation, where it has changed. -/
theorem knows_touched {Q : Except Exc Unit → Own Db RowKey Change → Prop} {c : Bool} {uid : String}
    {now : Timestamp} (hQ : ∀ e o, Q (.error e) o) (hw : o.work = some {})
    (h : ∀ w seen, w.write = id ∨ w.write = touch uid now → Q (.ok ()) ⟨some w, seen, o.commits⟩) :
    Knows (messagingLogic ok calls) i Q (whenever c (flushConversation uid now)) o := by
  obtain ⟨work, seen, commits⟩ := o
  cases hw
  simp only [whenever]
  split
  · apply Knows.sql rfl (fun _ => hQ _ _) _ fun _ _ _ e _ => hQ e _
    intro locked d _ eff heff _
    simp only [updateConversationRow] at heff
    split at heff
    · cases heff
      exact h _ _ (.inr rfl)
    · cases heff
      exact hQ _ _
  · exact h _ _ (.inl rfl)

/-- The flush of a participant, where the mark is a new one. -/
theorem knows_marked {Q : Except Exc Unit → Own Db RowKey Change → Prop} {c : Bool}
    {conversationUid userUid : String} {now : Timestamp} (hQ : ∀ e o, Q (.error e) o)
    (hw : o.work = some {})
    (h : ∀ w seen, w.write = id ∨ w.write = rewriteParticipant conversationUid userUid now →
      Q (.ok ()) ⟨some w, seen, o.commits⟩) :
    Knows (messagingLogic ok calls) i Q
      (whenever c (flushParticipant now conversationUid userUid)) o := by
  obtain ⟨work, seen, commits⟩ := o
  cases hw
  simp only [whenever]
  split
  · apply Knows.sql rfl (fun _ => hQ _ _) _ fun _ _ _ e _ => hQ e _
    intro locked d _ eff heff _
    simp only [updateParticipantRow] at heff
    split at heff
    · cases heff
      exact h _ _ (.inr rfl)
    · cases heff
      exact hQ _ _
  · exact h _ _ (.inl rfl)

theorem knows_send {m : SendCall} (hc : calls i = .send m) :
    Knows (messagingLogic ok calls) i (calls i).Ends (calls i).program {} := by
  rw [hc]
  apply knows_withSession
  apply Knows.bind
  apply Knows.bind
  apply knows_checkRateLimit (fun _ _ => trivial) rfl
  intro seen
  apply knows_activeParticipant (fun _ _ => trivial) rfl
  rintro p seen hconversation huser -
  apply Knows.read rfl fun _ => trivial
  rintro d -
  apply Knows.bind
  apply knows_checkBlocks (fun _ _ => trivial) rfl
  intro seen
  apply Knows.bind
  apply Knows.bind
  apply knows_touched (fun _ _ => trivial) rfl
  intro w seen htouched
  apply Knows.sql rfl (fun _ => trivial) _ fun _ _ _ _ _ => trivial
  intro locked d _ eff heff _
  simp only [insertMessageRow] at heff
  split at heff
  · cases heff
  split at heff
  · cases heff
  cases heff
  apply Knows.commit rfl fun _ => trivial
  · rw [hc]
    refine ⟨rfl, ?_⟩
    show insertMessage _ ∘ w.write = _ ∨ insertMessage _ ∘ w.write = _
    rw [hconversation, huser]
    rcases htouched with hid | htouch
    · rw [hid]
      exact .inl rfl
    · rw [htouch, hconversation]
      exact .inr rfl
  apply Knows.read rfl fun _ => trivial
  rintro d -
  split <;> trivial

theorem knows_mark {r : MarkCall} (hc : calls i = .mark r) :
    Knows (messagingLogic ok calls) i (calls i).Ends (calls i).program {} := by
  rw [hc]
  apply knows_withSession
  apply Knows.bind
  apply knows_activeParticipant (fun _ _ => trivial) rfl
  intro p seen _ _ hparticipant
  rw [Prod.mk.injEq] at hparticipant
  apply Knows.bind
  apply knows_marked (fun _ _ => trivial) rfl
  intro w seen hwrite
  rw [hparticipant.1, hparticipant.2] at hwrite
  apply Knows.commit rfl fun _ => trivial
  · rw [hc]
    exact hwrite
  apply Knows.read rfl fun _ => trivial
  rintro d -
  split <;> trivial

theorem knows_count {userUid : String} {participants : List ConversationParticipant}
    (hc : calls i = .count userUid participants) :
    Knows (messagingLogic ok calls) i (calls i).Ends (calls i).program {} := by
  rw [hc]
  apply knows_withSession
  cases participants with
  | nil =>
      intro counts _ hne
      exact absurd rfl hne
  | cons p ps =>
      apply Knows.read rfl fun _ counts hr => by cases hr
      rintro d - counts hr -
      cases hr
      exact ⟨d, rfl, rfl⟩

/-- Every call knows what it commits, and what it returns. -/
theorem knows_program (i : ι) :
    Knows (messagingLogic ok calls) i (calls i).Ends (calls i).program {} := by
  cases hc : calls i with
  | send m => exact hc ▸ knows_send hc
  | mark r => exact hc ▸ knows_mark hc
  | count userUid participants => exact hc ▸ knows_count hc

end Program

/-! ## Messages and marks -/

section Rows

variable {d : Db} {m : SendCall} {userUid : String}

/-- The message is there, and the participant has not read that far. -/
structure Unread (m : SendCall) (userUid : String) (d : Db) : Prop where
  found : d.messages.find? m.messageUid = some m.message
  reader : ∃ p, d.participants.find? (m.conversationUid, userUid) = some p ∧
    ∀ t ∈ p.lastReadAt, t < m.started

/-- What is unread is counted. -/
theorem Unread.mem (h : Unread m userUid d) (hother : m.senderUid ≠ userUid) :
    m.message ∈ unreadMessages userUid m.conversationUid d := by
  obtain ⟨p, hp, hmark⟩ := h.reader
  have hkey := (Table.find?_eq_some.1 hp).2
  rw [Prod.mk.injEq] at hkey
  have hafter : (p.lastReadAt.all fun t => decide (t < m.message.createdAt)) = true := by
    cases hread : p.lastReadAt with
    | none => rfl
    | some t => exact decide_eq_true (hmark t (hread ▸ rfl))
  simp only [unreadMessages, hp, Table.mem_select]
  refine ⟨(Table.find?_eq_some.1 h.found).1, ?_⟩
  have hwhere : (m.message.conversationUid == p.conversationUid) = true := by
    rw [hkey.1]
    exact beq_self_eq_true _
  have hwho : (m.message.senderUid != p.userUid) = true := by
    rw [hkey.2]
    exact bne_iff_ne.2 hother
  simp only [unreadBy, hwhere, hwho, hafter, Bool.and_true]
  rfl

/-- What a request writes of the tables that matter here. -/
theorem Call.Commits.send_write {n : SendCall} {w : Work Db RowKey Change} {seen : List Db}
    {commits : List (List Change)} (h : (Call.send n).Commits w seen commits) (d : Db) :
    (w.write d).messages = d.messages.insert n.message ∧
      (w.write d).participants = d.participants := by
  rcases h.2 with hw | hw <;> rw [hw] <;> exact ⟨rfl, rfl⟩

theorem find?_rewriteParticipant (conversationUid userUid : String) (now : Timestamp) (d : Db)
    {k : String × String} (hk : k ≠ (conversationUid, userUid)) :
    (rewriteParticipant conversationUid userUid now d).participants.find? k =
      d.participants.find? k := by
  simp only [rewriteParticipant]
  rw [Table.find?_update]
  cases hp : d.participants.find? k with
  | none => rfl
  | some p =>
      have hkey := (Table.find?_eq_some.1 hp).2
      have hother : ¬(p.conversationUid == conversationUid && p.userUid == userUid) = true := by
        intro hsame
        simp only [Bool.and_eq_true, beq_iff_eq] at hsame
        apply hk
        rw [← hkey, hsame.1, hsame.2]
      exact congrArg some (if_neg hother)

/-- What another call commits leaves the message unread, unless it is a mark of the reader. -/
theorem Unread.commit {c : Call} {w : Work Db RowKey Change} {seen : List Db}
    {commits : List (List Change)} (h : Unread m userUid d) (hc : c.Commits w seen commits)
    (hmarks : ¬c.Marks userUid m.conversationUid) : Unread m userUid (w.write d) := by
  cases c with
  | send n =>
      obtain ⟨hmessages, hparticipants⟩ := hc.send_write d
      refine ⟨?_, ?_⟩
      · rw [hmessages]
        exact Table.find?_insert_of_some h.found
      · rw [hparticipants]
        exact h.reader
  | mark r =>
      rcases hc with hid | hwrite
      · rw [hid]
        exact h
      · rw [hwrite]
        refine ⟨h.found, ?_⟩
        rw [find?_rewriteParticipant]
        · exact h.reader
        · rintro hsame
          rw [Prod.mk.injEq] at hsame
          exact hmarks ⟨hsame.2.symm, hsame.1.symm⟩
  | count _ _ => exact hc.elim

/-- No call takes a participant away, or adds one. -/
theorem isSome_participant {c : Call} {w : Work Db RowKey Change} {seen : List Db}
    {commits : List (List Change)} (hc : c.Commits w seen commits) (k : String × String) :
    ((w.write d).participants.find? k).isSome = (d.participants.find? k).isSome := by
  cases c with
  | send n => rw [(hc.send_write d).2]
  | mark r =>
      rcases hc with hid | hwrite
      · rw [hid]
        rfl
      · rw [hwrite]
        simp only [rewriteParticipant]
        rw [Table.find?_update, Option.isSome_map]
  | count _ _ => exact hc.elim

/-- A uid that is free stays free but for the message of that uid. -/
theorem messageUid_free {c : Call} {w : Work Db RowKey Change} {seen : List Db}
    {commits : List (List Change)} (hc : c.Commits w seen commits) {uid : String}
    (hne : ∀ n ∈ c.sent?, n.messageUid ≠ uid) (hfree : d.messages.find? uid = none) :
    (w.write d).messages.find? uid = none := by
  cases c with
  | send n =>
      rw [(hc.send_write d).1, Table.find?_insert_of_ne]
      · exact hfree
      · exact hne n rfl
  | mark r => rcases hc with hw | hw <;> rw [hw] <;> exact hfree
  | count _ _ => exact hc.elim

end Rows

/-! ## All calls -/

section Pool

variable {ι : Type} [DecidableEq ι] {calls : ι → Call} {start : Db}

/-- Every message has a fresh uid of its own. -/
structure FreshMessages (calls : ι → Call) (d : Db) : Prop where
  distinct : ∀ i j, ∀ m ∈ (calls i).sent?, ∀ n ∈ (calls j).sent?, m.messageUid =
    n.messageUid → i = j
  unused : ∀ i, ∀ m ∈ (calls i).sent?, d.messages.find? m.messageUid = none

/-- A message is committed only while every other participant of its conversation has marked
nothing, or an earlier time. -/
def NotOverrun (calls : ι → Call) (i : ι) (s s' : State ι) : Prop :=
  ∀ m ∈ (calls i).sent?, s'.commits i ≠ s.commits i → ∀ p ∈ s.db.participants.rows,
    p.conversationUid = m.conversationUid → p.userUid ≠ m.senderUid →
    ∀ t ∈ p.lastReadAt, t < m.started

/-- What the calls have committed. -/
structure MessagingLaw (calls : ι → Call) (start d : Db) (commits : ι → List (List Change)) :
    Prop where
  free : ∀ i, ∀ m ∈ (calls i).sent?, commits i = [] → d.messages.find? m.messageUid = none
  parts : ∀ k, (d.participants.find? k).isSome = (start.participants.find? k).isSome

/-- One commit keeps the law. -/
theorem MessagingLaw.commit {i : ι} {s s' : State ι} (hfresh : FreshMessages calls start)
    (hfact : (calls i).Commits (s.tx i).work (s.seen i) (s.commits i))
    (hdb : s'.db = (s.tx i).work.write s.db)
    (hcommits : s'.commits = Function.update s.commits i (s.commits i ++ [(s.tx i).work.changes]))
    (h : MessagingLaw calls start s.db s.commits) : MessagingLaw calls start s'.db s'.commits := by
  refine ⟨fun j m hm hj => ?_, fun k => ?_⟩
  · have hji : j ≠ i := by
      rintro rfl
      rw [hcommits, Function.update_self] at hj
      simp at hj
    rw [hcommits, Function.update_of_ne hji] at hj
    rw [hdb]
    apply messageUid_free hfact _ (h.free j m hm hj)
    intro n hn hsame
    exact hji (hfresh.distinct j i m hm n hn hsame.symm)
  · rw [hdb, isSome_participant hfact]
    exact h.parts k

variable {c c' b b' : Config ι Exc Command (State ι) Answer} {ok : ι → State ι → State ι → Prop}

/-- A pool at its start. -/
theorem allKnow_start (hidle : Idle c.state) (hstart : ∀ i, c.thread i = (calls i).program) :
    AllKnow (messagingLogic ok calls) (fun i => (calls i).Ends) c := by
  apply AllKnow.of_idle hidle
  intro i
  rw [hstart]
  exact knows_program i

/-- The law holds of every run. -/
theorem messagingLaw_run (hidle : Idle c.state) (hstart : ∀ i, c.thread i = (calls i).program)
    (hfresh : FreshMessages calls c.state.db) (hrun : Run (sessions ok) c c') :
    MessagingLaw calls c.state.db c'.state.db c'.state.commits := by
  have hknows : AllKnow (messagingLogic ok calls) _ c := allKnow_start hidle hstart
  apply hknows.own_induct (J := MessagingLaw calls c.state.db) _ hrun
  · exact ⟨fun i m hm _ => hfresh.unused i m hm, fun _ => rfl⟩
  · intro i s s' hfact _ hdb hcommits h
    exact h.commit hfresh hfact hdb hcommits

/-- The commit of a message that nobody has overrun leaves it unread by every other participant. -/
theorem unread_of_commit {m : SendCall} {i : ι} {userUid : String}
    (hlaw : MessagingLaw calls start b.state.db b.state.commits)
    (hknows : AllKnow (messagingLogic (NotOverrun calls) calls) (fun i => (calls i).Ends) b)
    (hsend : calls i = .send m) (hother : m.senderUid ≠ userUid)
    (hpart : (start.participants.find? (m.conversationUid, userUid)).isSome)
    (hstep : Step (sessions (NotOverrun calls)) b b')
    (hcommit : b'.state.commits i ≠ b.state.commits i) : Unread m userUid b'.state.db := by
  cases hknows.poolStep hstep with
  | quiet hdb hcommits => exact absurd (congrFun hcommits i) hcommit
  | commit j hfact hnot hdb hcommits =>
      have hji : j = i := by
        by_contra hne
        rw [hcommits, Function.update_of_ne (Ne.symm hne)] at hcommit
        exact hcommit rfl
      subst hji
      rw [hsend] at hfact
      have hm : m ∈ (calls j).sent? := hsend ▸ rfl
      have hfree := hlaw.free j m hm hfact.1
      obtain ⟨hmessages, hparticipants⟩ := hfact.send_write b.state.db
      rw [← hlaw.parts] at hpart
      obtain ⟨p, hp⟩ := Option.isSome_iff_exists.1 hpart
      obtain ⟨hmem, hkey⟩ := Table.find?_eq_some.1 hp
      rw [Prod.mk.injEq] at hkey
      rw [hdb]
      refine ⟨?_, p, ?_, ?_⟩
      · rw [hmessages]
        exact Table.find?_insert_self (r := m.message) hfree
      · rw [hparticipants]
        exact hp
      · exact hnot m hm hcommit p hmem hkey.1 (by rw [hkey.2]; exact Ne.symm hother)

/-- A message stays unread until the reader's next mark. -/
theorem unread_until {m : SendCall} {userUid : String}
    (hknows : AllKnow (messagingLogic ok calls) (fun i => (calls i).Ends) b)
    (hunread : Unread m userUid b.state.db) (hrun : Run (sessions ok) b c')
    (hmarks : ∀ j, (calls j).Marks userUid m.conversationUid →
      c'.state.commits j = b.state.commits j) : Unread m userUid c'.state.db := by
  induction hrun with
  | refl => exact hunread
  | @tail x y hrun hstep ih =>
      have hsame : ∀ j, (calls j).Marks userUid m.conversationUid →
          x.state.commits j = b.state.commits j := fun j hj =>
        Run.commits_eq_of_eq (attended_sessions ok) hrun (.single hstep) (hmarks j hj)
      cases (hknows.run hrun).poolStep hstep with
      | quiet hdb hcommits =>
          rw [hdb]
          exact ih hsame
      | commit j hfact hok hdb hcommits =>
          rw [hdb]
          apply (ih hsame).commit hfact
          intro hj
          have hmore := hmarks j hj
          rw [hcommits, Function.update_self, hsame j hj] at hmore
          simp at hmore

end Pool

/-- **In every run in which no message is overrun, a message is counted as unread by every other
participant.** The call `i` commits its message in the step from `b` to `b'`; `k` asks for the
counts of another participant, after `b'` and, by `c'`, before that participant's next mark. -/
theorem unread_counted {ι : Type} [DecidableEq ι] (calls : ι → Call)
    {c b b' c' c'' : Config ι Exc Command (State ι) Answer} (hidle : Idle c.state)
    (hstart : ∀ i, c.thread i = (calls i).program) (hfresh : FreshMessages calls c.state.db)
    {i k : ι} {m : SendCall} {userUid : String} {participants : List ConversationParticipant}
    {counts : List (String × ℕ)} (hsend : calls i = .send m) (hother : m.senderUid ≠ userUid)
    (hpart : (c.state.db.participants.find? (m.conversationUid, userUid)).isSome)
    (hcount : calls k = .count userUid participants)
    (hasked : m.conversationUid ∈ participants.map ConversationParticipant.conversationUid)
    (hbefore : Run (sessions (NotOverrun calls)) c b)
    (hstep : Step (sessions (NotOverrun calls)) b b')
    (hcommit : b'.state.commits i ≠ b.state.commits i) (hlater : b'.state.seen k = [])
    (hafter : Run (sessions (NotOverrun calls)) b' c')
    (hunmarked : ∀ j, (calls j).Marks userUid m.conversationUid →
      c'.state.commits j = b'.state.commits j) (hread : c'.state.seen k ≠ [])
    (hrest : Run (sessions (NotOverrun calls)) c' c'')
    (hended : (c''.thread k).outcome = some (.ok (.counts counts))) :
    ∃ d, c''.state.seen k = [d] ∧ m.message ∈ unreadMessages userUid m.conversationUid d ∧
      counts.lookup m.conversationUid =
        some (unreadMessages userUid m.conversationUid d).length := by
  have hknows : AllKnow (messagingLogic (NotOverrun calls) calls) (fun i => (calls i).Ends) c :=
    allKnow_start hidle hstart
  have hlaw := messagingLaw_run hidle hstart hfresh hbefore
  have hunread := unread_of_commit hlaw (hknows.run hbefore) hsend hother hpart hstep hcommit
  have hknows' := hknows.run (hbefore.tail hstep)
  -- what the call has seen is the database at one of the moments between the commit and `c'`
  obtain ⟨o, ho, hends⟩ := (hknows'.run (hafter.trans hrest)).ended hended
  rw [hcount] at hends
  have hne : participants ≠ [] := by
    rintro rfl
    cases hasked
  obtain ⟨d, hseen, hcounts⟩ := hends counts rfl hne
  have hseen'' : c''.state.seen k = [d] := ho.seen.trans hseen
  have hseen' : d ∈ c'.state.seen k := by
    have hsuffix := Run.seen_suffix (attended_sessions _) hrest k
    rw [hseen''] at hsuffix
    rcases List.suffix_cons_iff.1 hsuffix with hall | hnone
    · rw [hall]
      exact List.mem_singleton_self d
    · exact absurd (List.suffix_nil.1 hnone) hread
  have hcounted : Unread m userUid d := by
    rcases Run.seen_during (attended_sessions _) hafter hseen' with hearly | ⟨a, hba, hac, rfl⟩
    · rw [hlater] at hearly
      cases hearly
    · exact unread_until hknows' hunread hba fun j hj =>
        Run.commits_eq_of_eq (attended_sessions _) hba hac (hunmarked j hj)
  refine ⟨d, hseen'', hcounted.mem hother, ?_⟩
  rw [hcounts]
  exact Call.lookup_countsIn hasked

/-! ## Two participants -/

instance decidableNotOverrun {ι : Type} [DecidableEq ι] (calls : ι → Call) (i : ι)
    (s s' : State ι) : Decidable (NotOverrun calls i s s') :=
  inferInstanceAs (Decidable (∀ m ∈ (calls i).sent?, s'.commits i ≠ s.commits i →
    ∀ p ∈ s.db.participants.rows, p.conversationUid = m.conversationUid →
      p.userUid ≠ m.senderUid → ∀ t ∈ p.lastReadAt, t < m.started))

/-- Two users in one conversation. -/
def oneConversation : Db where
  __ := Db.empty
  users := ⟨[Sample.user "sender", Sample.user "reader"], by decide⟩
  conversations := ⟨[{ uid := "c", type := .group, createdAt := 0, updatedAt := 0 }], by decide⟩
  participants := ⟨[newParticipant 0 "c" "sender", newParticipant 0 "c" "reader"], by decide⟩

/-- One user sends, the other marks and counts. -/
def threeCalls (started touched now : Timestamp) : Fin 3 → Call
  | 0 => .send {
      now := touched
      started := started
      messageUid := "m"
      conversationUid := "c"
      senderUid := "sender"
      content := "hello" }
  | 1 => .mark ⟨now, "c", "reader"⟩
  | 2 => .count "reader" [newParticipant 0 "c" "reader"]

/-- The pool of the three calls. -/
def messagingPool (started touched now : Timestamp) :
    Config (Fin 3) Exc Command (State (Fin 3)) Answer :=
  ⟨World.fresh oneConversation, fun i => (threeCalls started touched now i).program⟩

theorem freshMessages_threeCalls (started touched now : Timestamp) :
    FreshMessages (threeCalls started touched now) oneConversation := by
  constructor
  · intro i j m hm n hn _
    match i, j with
    | 0, 0 => rfl
    | 1, _ => cases hm
    | 2, _ => cases hm
    | 0, 1 => cases hn
    | 0, 2 => cases hn
  · intro i m hm
    match i with
    | 0 =>
        cases hm
        rfl
    | 1 => cases hm
    | 2 => cases hm

theorem threeCalls_marks (started touched now : Timestamp) (j : Fin 3)
    (hj : (threeCalls started touched now j).Marks "reader" "c") : j = 1 := by
  match j with
  | 0 => exact hj.elim
  | 1 => rfl
  | 2 => exact hj.elim

section Schedule

variable (ok : Fin 3 → State (Fin 3) → State (Fin 3) → Prop) [∀ i s s', Decidable (ok i s s')]

/-- The reader's count, when it has ended. -/
def countOf (c : Config (Fin 3) Exc Command (State (Fin 3)) Answer) :
    Option (List (String × ℕ)) :=
  match (c.thread 2).outcome with
  | some (.ok (.counts counts)) => some counts
  | _ => none

/-- After the schedule the message is committed, and then the reader counts up to `n`. -/
def countsTo (schedule : List (Fin 3)) (n : ℕ)
    (c : Config (Fin 3) Exc Command (State (Fin 3)) Answer) : Bool :=
  (follow (guardExec (fun i => exec i) ok) schedule c).any fun b =>
    (advance (guardExec (fun i => exec i) ok) 0 b).any fun b' =>
      decide (b'.state.commits 0 ≠ b.state.commits 0) && decide (b.state.commits 1 ≠ []) &&
        (b'.state.seen 2).isEmpty &&
        (follow (guardExec (fun i => exec i) ok) [2, 2] b').any fun c' =>
          decide (c'.state.commits 1 = b'.state.commits 1) && !(c'.state.seen 2).isEmpty &&
            countOf c' == some [("c", n)]

/-- The parts of such a run. -/
theorem exists_of_countsTo {schedule : List (Fin 3)} {n : ℕ}
    {c : Config (Fin 3) Exc Command (State (Fin 3)) Answer}
    (h : countsTo ok schedule n c = true) :
    ∃ b b' c', Run (sessions ok) c b ∧ Step (sessions ok) b b' ∧ Run (sessions ok) b' c' ∧
      b'.state.commits 0 ≠ b.state.commits 0 ∧ b.state.commits 1 ≠ [] ∧ b'.state.seen 2 = [] ∧
      c'.state.commits 1 = b'.state.commits 1 ∧ c'.state.seen 2 ≠ [] ∧
      (c'.thread 2).outcome = some (.ok (.counts [("c", n)])) := by
  obtain ⟨b, hb, h⟩ := (Option.any_eq_true _ _).1 h
  obtain ⟨b', hb', h⟩ := (Option.any_eq_true _ _).1 h
  simp only [Bool.and_eq_true, decide_eq_true_eq, List.isEmpty_iff] at h
  obtain ⟨⟨⟨hcommit, hmarked⟩, hlater⟩, h⟩ := h
  obtain ⟨c', hc', h⟩ := (Option.any_eq_true _ _).1 h
  simp only [Bool.and_eq_true, decide_eq_true_eq, Bool.not_eq_true', beq_iff_eq] at h
  obtain ⟨⟨hsame, hread⟩, hcount⟩ := h
  refine ⟨b, b', c', Run.of_guardExec (run_of_follow hb), Step.of_guardExec (step_of_advance hb'),
    Run.of_guardExec (run_of_follow hc'), hcommit, hmarked, hlater, hsame, ?_, ?_⟩
  · intro hnil
    rw [hnil] at hread
    cases hread
  · unfold countOf at hcount
    split at hcount
    · rename_i counts hended
      cases hcount
      exact hended
    · cases hcount

end Schedule

/-- The user marks, the other sends, and the user counts one message. -/
theorem unread_counted_after_mark :
    ∃ b b' c', Run (sessions (NotOverrun (threeCalls 10 11 5))) (messagingPool 10 11 5) b ∧
      Step (sessions (NotOverrun (threeCalls 10 11 5))) b b' ∧
      Run (sessions (NotOverrun (threeCalls 10 11 5))) b' c' ∧ b.state.commits 1 ≠ [] ∧
      ∃ d, c'.state.seen 2 = [d] ∧ (unreadMessages "reader" "c" d).length = 1 := by
  have hrun : countsTo (NotOverrun (threeCalls 10 11 5))
      (List.replicate 7 1 ++ List.replicate 7 0) 1 (messagingPool 10 11 5) = true := by
    decide +kernel
  obtain ⟨b, b', c', hbefore, hstep, hafter, hcommit, hmarked, hlater, hsame, hread, hended⟩ :=
    exists_of_countsTo _ hrun
  have hunmarked := fun j hj => threeCalls_marks 10 11 5 j hj ▸ hsame
  obtain ⟨d, hseen, -, hcount⟩ := unread_counted (threeCalls 10 11 5) (idle_fresh _) (fun _ => rfl)
    (freshMessages_threeCalls 10 11 5) (i := 0) (k := 2) rfl (by decide) (by decide) rfl (by decide)
    hbefore hstep hcommit hlater hafter hunmarked hread .refl hended
  refine ⟨b, b', c', hbefore, hstep, hafter, hmarked, d, hseen, ?_⟩
  exact (Option.some.inj hcount).symm

/-- The times of the calls are those of a clock that does not go back: a transaction starts with
its first statement, and a mark takes its time right before it is written. -/
def InTime {ι : Type} [DecidableEq ι] (calls : ι → Call) (clock : State ι → Timestamp) (i : ι)
    (s s' : State ι) : Prop :=
  clock s ≤ clock s' ∧
  (∀ m ∈ (calls i).sent?, (s.seen i).length = 0 → (s'.seen i).length = 1 → m.started = clock s) ∧
  ∀ r ∈ (calls i).mark?, (s.seen i).length = 3 → (s'.seen i).length = 4 → r.now = clock s

instance decidableInTime {ι : Type} [DecidableEq ι] (calls : ι → Call)
    (clock : State ι → Timestamp) (i : ι) (s s' : State ι) :
      Decidable (InTime calls clock i s s') :=
  inferInstanceAs (Decidable (_ ∧ _ ∧ _))

/-- The statements so far. -/
def statements (s : State (Fin 3)) : Timestamp :=
  (s.seen 0).length + (s.seen 1).length + (s.seen 2).length

/-- A transaction starts, the other user marks, and the message is committed: with clocks that
agree, it is not counted. -/
theorem unread_overrun :
    ¬∀ (calls : Fin 3 → Call) (clock : State (Fin 3) → Timestamp)
      (c b b' c' : Config (Fin 3) Exc Command (State (Fin 3)) Answer) (m : SendCall)
      (userUid : String) (participants : List ConversationParticipant)
      (counts : List (String × ℕ)), Idle c.state → (∀ i, c.thread i = (calls i).program) →
      FreshMessages calls c.state.db → calls 0 = .send m → m.senderUid ≠ userUid →
      (c.state.db.participants.find? (m.conversationUid, userUid)).isSome →
      calls 2 = .count userUid participants →
      m.conversationUid ∈ participants.map ConversationParticipant.conversationUid →
      Run (sessions (InTime calls clock)) c b → Step (sessions (InTime calls clock)) b b' →
      b'.state.commits 0 ≠ b.state.commits 0 → b'.state.seen 2 = [] →
      (∃ j, (calls j).Marks userUid m.conversationUid ∧ b.state.commits j ≠ []) →
      Run (sessions (InTime calls clock)) b' c' →
      (∀ j, (calls j).Marks userUid m.conversationUid →
        c'.state.commits j = b'.state.commits j) → c'.state.seen 2 ≠ [] →
      (c'.thread 2).outcome = some (.ok (.counts counts)) →
      ∃ d, c'.state.seen 2 = [d] ∧ m.message ∈ unreadMessages userUid m.conversationUid d ∧
        counts.lookup m.conversationUid =
          some (unreadMessages userUid m.conversationUid d).length := by
  intro h
  have hrun : countsTo (InTime (threeCalls 0 8 4) statements)
      ([0] ++ List.replicate 5 1 ++ List.replicate 6 0) 0 (messagingPool 0 8 4) = true := by
    decide +kernel
  obtain ⟨b, b', c', hbefore, hstep, hafter, hcommit, hmarked, hlater, hsame, hread, hended⟩ :=
    exists_of_countsTo _ hrun
  have hunmarked := fun j hj => threeCalls_marks 0 8 4 j hj ▸ hsame
  obtain ⟨d, -, hmem, hcount⟩ := h (threeCalls 0 8 4) statements (messagingPool 0 8 4) b b' c' _
    "reader" _ _ (idle_fresh _) (fun _ => rfl) (freshMessages_threeCalls 0 8 4) rfl (by decide)
    (by decide) rfl (by decide) hbefore hstep hcommit hlater ⟨1, ⟨rfl, rfl⟩, hmarked⟩ hafter
    hunmarked hread hended
  have hnone : 0 = (unreadMessages "reader" "c" d).length := Option.some.inj hcount
  exact absurd hmem (List.length_eq_zero_iff.1 hnone.symm ▸ List.not_mem_nil)

end Vivac.Messaging
