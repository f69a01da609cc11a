import Vivac.Access.ReadingChecks
import Vivac.Core.SampleBackend
import Vivac.Lib.Turns
import Vivac.Messaging.Acts

/-!
# Direct messages in serial runs

All requests about conversations, messages and blocks, each run to its end before the next begins.
Every request is one act with the authority that it takes (`MessagingCall.lone_body`), and what it
pushes is stored and meant for the other participants. So in every run DIRECT conversations stay in
order, and no message is stored, pushed or hidden past its guards (`direct_messages_safe`).
-/

set_option autoImplicit false

namespace Vivac.Messaging

open Lib App

/-! ## Requests -/

/-- A push to the sockets of a user, with the message that it carries. -/
structure Frame where
  userUid : String
  message : Message

/-- A request about conversations, messages or blocks. The uids of new rows are drawn for it. -/
inductive MessagingCall where
  | create (credentials : Credentials) (uid : String) (payload : ConversationCreate)
  | list (credentials : Credentials) (offset limit : ℕ)
  | get (credentials : Credentials) (conversationUid : String)
  | listMessages (credentials : Credentials) (conversationUid : String) (cursor : Option String)
      (limit : ℕ)
  | send (peer : Peer) (credentials : Credentials) (started : Timestamp)
      (conversationUid messageUid content : String)
  | markRead (credentials : Credentials) (conversationUid : String)
  | delete (credentials : Credentials) (conversationUid messageUid : String)
  | block (credentials : Credentials) (userUid : String)
  | unblock (credentials : Credentials) (userUid : String)

namespace MessagingCall

def credentials : MessagingCall → Credentials
  | .create credentials .. | .list credentials .. | .get credentials .. | .listMessages
      credentials ..
  | .send _ credentials .. | .markRead credentials .. | .delete credentials .. | .block
      credentials ..
  | .unblock credentials .. => credentials

/-- Who makes a request. -/
def caller (call : MessagingCall) : Option String := call.credentials.userUid

section

variable (be : Backend) (now : Timestamp)

/-- What a request does in its session; it answers the frames that it pushes. -/
def body : MessagingCall → App (List Frame)
  | .create credentials uid payload => do
    let _ ← Conversations.createConversation now uid credentials payload
    return []
  | .list credentials offset limit => do
    let _ ← Conversations.listConversations credentials offset limit
    return []
  | .get credentials conversationUid => do
    let _ ← Conversations.getConversation conversationUid credentials
    return []
  | .listMessages credentials conversationUid cursor limit => do
    let _ ← Conversations.listMessages be conversationUid credentials cursor limit
    return []
  | .send peer credentials started conversationUid messageUid content => do
    let (message, userUids) ← Conversations.sendMessage now started messageUid conversationUid
      peer credentials content
    return userUids.map fun userUid => ⟨userUid, message⟩
  | .markRead credentials conversationUid => do
    Conversations.markConversationRead now conversationUid credentials
    return []
  | .delete credentials conversationUid messageUid => do
    Conversations.deleteMessage now conversationUid messageUid credentials
    return []
  | .block credentials userUid => do
    UserBlocks.blockUser now userUid credentials
    return []
  | .unblock credentials userUid => do
    UserBlocks.unblockUser userUid credentials
    return []

def program (call : MessagingCall) : App (List Frame) := withSession (call.body be now)

end

end MessagingCall

/-- A request, and the time at which it comes. -/
structure TimedMessagingCall where
  now : Timestamp
  call : MessagingCall

/-- The request runs to its end by itself, and pushes the frames; a request that raises pushes
none. -/
def TimedMessagingCall.Served (be : Backend) (x : TimedMessagingCall) (frames : List Frame)
    (s s' : State Unit) : Prop :=
  ∃ r, runAlone (fun i => exec i) () (x.call.program be x.now) s = some (r, s') ∧
    frames = r.toOption.getD []

/-! ## What a request has read -/

section Lone

variable {ι : Type} [DecidableEq ι] {i : ι} {db : Db} {credentials : Credentials}
  {conversationUid : String} {now : Timestamp} {α : Type}

/-- The caller takes part in the conversation. -/
structure TakesPart (credentials : Credentials) (conversationUid : String)
    (p : Conversations.Participation) (d : Db) : Prop where
  uid : p.conversation.uid = conversationUid
  conversation : d.conversations.find? conversationUid = some p.conversation
  caller : IsCaller credentials p.user d
  conversationOf : p.participant.conversationUid = conversationUid
  userOf : p.participant.userUid = p.user.uid
  participant : d.participants.find? (conversationUid, p.user.uid) = some p.participant
  active : p.participant.leftAt = none

theorem TakesPart.mem {p : Conversations.Participation} {d : Db}
    (h : TakesPart credentials conversationUid p d) :
    p.user.uid ∈ activeParticipantUids conversationUid d := by
  refine List.mem_map.2 ⟨p.participant, Table.mem_select.2 ⟨(Table.find?_eq_some.1 h.participant).1,
    ?_⟩, h.userOf⟩
  simp [h.conversationOf, h.active]

theorem lone_activeParticipant :
    Lone i (Sees i db [] db) (Conversations.activeParticipant conversationUid credentials)
      (HasRead i db fun p => TakesPart credentials conversationUid p db) := by
  have hfind : Lone i (Sees i db [] db) (Conversations.findConversation conversationUid)
      (HasRead i db fun c => db.conversations.find? conversationUid = some c ∧
        c.uid = conversationUid) := by
    apply Lone.bind_ok (Lone.read fun d : Db => d.conversations.find? conversationUid)
    cases hfound : db.conversations.find? conversationUid with
    | none => exact Lone.raise _ fun s hs => hs.holds
    | some c => exact Lone.ret _ fun s hs => ⟨⟨rfl, (Table.find?_eq_some.1 hfound).2⟩, hs⟩
  apply lone_read_bind hfind _ fun _ _ hs => hs
  rintro c ⟨hc, huid⟩
  apply lone_read_bind lone_caller _ fun _ _ hs => hs
  intro user huser
  have hparticipant : Lone i (Sees i db [] db) (Conversations.requireParticipant c user)
      (HasRead i db fun p => db.participants.find? (conversationUid, user.uid) = some p ∧
        p.leftAt = none) := by
    apply Lone.bind_ok (Lone.read fun d : Db =>
      (d.participants.find? (c.uid, user.uid)).filter fun p => p.leftAt.isNone)
    rw [huid]
    cases hfound : db.participants.find? (conversationUid, user.uid) with
    | none => exact Lone.raise _ fun s hs => hs.holds
    | some p =>
        rw [Option.filter_some]
        by_cases hactive : p.leftAt.isNone = true
        · rw [if_pos hactive]
          exact Lone.ret _ fun s hs => ⟨⟨rfl, Option.isNone_iff_eq_none.1 hactive⟩, hs⟩
        · rw [if_neg hactive]
          exact Lone.raise _ fun s hs => hs.holds
  apply lone_read_bind hparticipant _ fun _ _ hs => hs
  rintro p ⟨hp, hactive⟩
  have hkey := (Table.find?_eq_some.1 hp).2
  rw [Prod.mk.injEq] at hkey
  exact Lone.ret _ fun s hs => ⟨⟨huid, hc, huser, hkey.1, hkey.2, hp, hactive⟩, hs⟩

/-- What the block check has let through. -/
theorem lone_checkBlocks {conversation : Conversation} {userUid : String}
    {participantUids : List String} :
    Lone i (Sees i db [] db) (Conversations.checkBlocks conversation userUid participantUids)
      (HasRead i db fun _ => conversation.type = .direct → ∀ other,
        (participantUids.filter (· != userUid)).head? = some other →
          blockBetween userUid other db = false) := by
  unfold Conversations.checkBlocks
  split
  · rename_i other others _ hothers
    apply Lone.bind_ok (Lone.read (blockBetween userUid other))
    split
    · exact Lone.raise _ fun s hs => hs.holds
    · rename_i hnone
      refine Lone.ret _ fun s hs => ⟨fun _ other' hhead => ?_, hs⟩
      rw [hothers, List.head?_cons, Option.some.injEq] at hhead
      rw [← hhead]
      simpa using hnone
  · rename_i hnot
    refine Lone.ret _ fun s hs => ⟨fun hdirect other hhead => ?_, hs⟩
    cases hothers : participantUids.filter (· != userUid) with
    | nil =>
        rw [hothers] at hhead
        cases hhead
    | cons x xs => exact absurd hothers (hnot x xs hdirect)

end Lone

/-! ## What a request writes -/

section Writes

variable {ι : Type} [DecidableEq ι] {i : ι} {db : Db} {caller : Option String}
  {credentials : Credentials} {now : Timestamp} {α : Type}

/-- Nothing is written. -/
theorem act_refl : MessagingAct caller db db := .stays rfl rfl rfl

theorem readOnly_refreshConversation (uid : String) : ReadOnly (refreshConversation uid) := by
  apply (ReadOnly.select _).bind
  intro found
  cases found with
  | none => exact .raise _
  | some c => exact .ret _

/-- A new conversation: the database has none under its uid, and nobody takes part in it. -/
theorem loneEnds_open {uid : String} {type : ConversationType} {name : Option String}
    {userUids : List String} {k : Conversation → App α} (hnodup : userUids.Nodup)
    (hpair : type = .direct → ∃ a b, a ≠ b ∧ userUids = [a, b] ∧ directConversations a b db = [])
    (hk : ∀ c, ReadOnly (k c)) :
    LoneEnds i db (MessagingAct caller db)
      ((Vivac.createConversation now uid type name userUids).bind k) := by
  unfold Vivac.createConversation
  simp only [Prog.bind_eq_bind, Prog.bind_assoc]
  refine Lone.statement_bind (fun _ d₁ hinsert => ?_) fun e _ s hs => ends_of_holds act_refl hs
  obtain ⟨eff, heff, -, rfl⟩ := Stmt.ok_of_apply hinsert
  simp only [insertConversationRow] at heff
  split at heff
  · cases heff
  · rename_i hnew
    cases heff
    refine Lone.statement_bind (fun _ d₂ hadd => ?_) fun e _ s hs => ends_of_holds act_refl hs
    obtain ⟨eff, heff, -, rfl⟩ := Stmt.ok_of_apply hadd
    simp only [insertParticipantRows] at heff
    split at heff
    · cases heff
    · split at heff
      · cases heff
      · cases heff
        refine loneEnds_committed ((readOnly_refreshConversation uid).bind hk) ?_
        exact .opens now _ userUids (by simpa using hnew) hnodup hpair rfl

theorem readOnly_conversationDetail (c : Conversation) : ReadOnly (Conversations.toDetail c) :=
  (ReadOnly.select _).bind fun _ => .ret _

theorem readOnly_requireUser (userUid : String) : ReadOnly (Conversations.requireUser userUid) := by
  apply (ReadOnly.select _).bind
  intro found
  cases found with
  | none => exact .raise _
  | some user => exact .ret _

theorem loneEnds_requireUser {userUid : String} {k : Unit → App α}
    (hk : LoneEnds i db (MessagingAct caller db) (k ())) :
    LoneEnds i db (MessagingAct caller db) ((Conversations.requireUser userUid).bind k) := by
  refine Lone.bind (fun _ s => Sees i db [] db s) (lone_readOnly (readOnly_requireUser userUid))
    (fun _ => hk) fun e s hs => ends_of_holds act_refl hs.holds

theorem loneEnds_requireUsers {k : Unit → App α} (userUids : List String)
    (hk : LoneEnds i db (MessagingAct caller db) (k ())) :
    LoneEnds i db (MessagingAct caller db)
      ((forEach Conversations.requireUser userUids).bind k) := by
  induction userUids with
  | nil => exact hk
  | cons userUid userUids ih =>
      show LoneEnds i db _ (((Conversations.requireUser userUid).bind fun _ =>
        forEach Conversations.requireUser userUids).bind k)
      rw [Prog.bind_assoc]
      exact loneEnds_requireUser ih

theorem loneEnds_createConversation {uid : String} {payload : ConversationCreate} :
    LoneEnds i db (MessagingAct caller db)
      (Conversations.createConversation now uid credentials payload) := by
  apply loneEnds_read_bind act_refl lone_caller
  intro user huser
  have htail : ∀ c, ReadOnly (Conversations.toDetail c) := readOnly_conversationDetail
  split
  · -- DIRECT, with one other
    rename_i targetUid _ _
    apply loneEnds_requireUser
    unfold getOrCreateDirectConversation
    split
    · exact loneEnds_raise act_refl _
    · rename_i hne
      simp only [Prog.bind_eq_bind, Prog.bind_assoc]
      apply loneEnds_select_bind
      split
      · exact loneEnds_raise act_refl _
      · simp only [Prog.bind_assoc]
        apply loneEnds_select_bind
        cases hfound : directConversations user.uid targetUid db with
        | nil =>
            refine loneEnds_open ?_ (fun _ => ⟨_, _, hne, rfl, hfound⟩) htail
            simpa using hne
        | cons c cs =>
            cases cs with
            | nil => exact loneEnds_readOnly act_refl (htail c)
            | cons c' cs => exact loneEnds_raise act_refl _
  · exact loneEnds_raise act_refl _
  · -- GROUP, each user once
    apply loneEnds_requireUsers
    exact loneEnds_open (List.nodup_dedup _) (fun hdirect => by cases hdirect) htail

/-- A frame carries a message that is stored, to a participant who is not its sender. -/
structure IsPushed (f : Frame) (d : Db) : Prop where
  stored : d.messages.find? f.message.uid = some f.message
  active : f.userUid ∈ activeParticipantUids f.message.conversationUid d
  other : f.userUid ≠ f.message.senderUid

/-- What a request answers and leaves behind: an act, and frames of what is committed. -/
def Answers (caller : Option String) (db : Db) (r : Except Exc (List Frame)) (s : State ι) : Prop :=
  MessagingAct caller db s.db ∧ ∀ f ∈ r.toOption.getD [], IsPushed f s.db

/-- A request that pushes nothing. -/
theorem answers_silent {p : App α} (h : LoneEnds i db (MessagingAct caller db) p) :
    Lone i (Sees i db [] db) (p.bind fun _ => .ret []) (Answers caller db) := by
  have hnone : ∀ s : State ι, ∀ f ∈ (Except.ok [] : Except Exc (List Frame)).toOption.getD [],
      IsPushed f s.db := fun s f hf => by cases hf
  refine Lone.bind (fun _ s => MessagingAct caller db s.db) h (fun _ => ?_) fun e s hs => ?_
  · exact Lone.ret _ fun s hs => ⟨hs, hnone s⟩
  · exact ⟨hs, hnone s⟩

/-- A request that is refused. -/
theorem answers_error {e : Exc} {s : State ι} (h : Holds i db [] s) :
    Answers caller db (.error e : Except Exc (List Frame)) s :=
  ⟨ends_of_holds act_refl h, fun f hf => by cases hf⟩

/-- The conversations, with one of them touched. -/
structure Touches (d d' : Db) : Prop where
  conversations : SameConversations d d'
  participants : d'.participants = d.participants
  messages : d'.messages = d.messages

theorem Touches.touch (uid : String) (d : Db) : Touches d (touch uid now d) := by
  refine ⟨⟨fun c => if c.uid == uid then { c with updatedAt := now } else c, fun c =>
    ?_, fun c => ?_,
    rfl⟩, rfl, rfl⟩
  · dsimp only
    split <;> rfl
  · dsimp only
    split <;> rfl

/-- The time of the update, if it is another one. -/
theorem lone_flushConversation_bind {uid : String} {c : Bool} {k : Unit → App (List Frame)}
    (hk : ∀ d, Touches db d → Lone i (Sees i db [] d) (k ()) (Answers caller db)) :
    Lone i (Sees i db [] db) ((whenever c (flushConversation uid now)).bind k)
      (Answers caller db) := by
  unfold whenever flushConversation
  split
  · simp only [Prog.bind_eq_bind, Prog.bind_assoc]
    refine Lone.statement_bind (fun found d₁ hupdate => ?_) fun e _ s hs => answers_error hs
    obtain ⟨eff, heff, hfound, rfl⟩ := Stmt.ok_of_apply hupdate
    simp only [updateConversationRow] at heff
    split at heff
    · cases heff
      cases hfound
      exact hk _ (.touch uid db)
    · cases heff
      cases hfound
      exact Lone.raise _ fun s hs => answers_error hs.holds
  · exact hk db ⟨.of_eq rfl, rfl, rfl⟩

/-- The message that a request sends. -/
def sentMessage (started : Timestamp) (messageUid conversationUid senderUid content : String) :
    Message where
  uid := messageUid
  conversationUid := conversationUid
  senderUid := senderUid
  content := content
  createdAt := started

/-- The caller stores a message, and it is pushed to the others. -/
theorem answers_sendMessage {conversationUid messageUid content : String} {started : Timestamp}
    {peer : Peer} :
    Lone i (Sees i db [] db)
      ((Conversations.sendMessage now started messageUid conversationUid peer credentials
        content).bind fun out => .ret (out.2.map fun userUid => (⟨userUid, out.1⟩ : Frame)))
      (Answers credentials.userUid db) := by
  simp only [Conversations.sendMessage, withRateLimit, Prog.bind_eq_bind, Prog.bind_assoc]
  refine lone_readOnly_bind (readOnly_checkRateLimit _ _ _) (fun _ => ?_)
    fun e s hs => answers_error hs
  apply lone_read_bind lone_activeParticipant _ fun e s hs => answers_error hs
  intro p hp
  apply Lone.bind_ok (Lone.read (activeParticipantUids p.conversation.uid))
  apply lone_read_bind lone_checkBlocks _ fun e s hs => answers_error hs
  intro _ hblocks
  unfold createMessage
  simp only [Prog.bind_eq_bind, Prog.bind_assoc]
  apply lone_flushConversation_bind
  intro d₁ htouch
  show Lone i _ (Prog.bind (execute (insertMessageRow
    (sentMessage started messageUid p.conversation.uid p.user.uid content))) _) _
  generalize hm : sentMessage started messageUid p.conversation.uid p.user.uid content = m
  have hmay : MayStore credentials.userUid m db := by
    subst hm
    refine ⟨hp.caller.named, ?_, fun c hc hdirect => ?_⟩
    · show p.user.uid ∈ activeParticipantUids p.conversation.uid db
      rw [hp.uid]
      exact hp.mem
    · replace hc : db.conversations.find? p.conversation.uid = some c := hc
      rw [hp.uid, hp.conversation] at hc
      cases hc
      exact hblocks hdirect
  have huid : m.uid = messageUid := by
    rw [← hm]
    rfl
  have hsender : m.senderUid = p.user.uid := by
    rw [← hm]
    rfl
  have hconversation : m.conversationUid = p.conversation.uid := by
    rw [← hm]
    rfl
  have hlive : m.deletedAt = none := by
    rw [← hm]
    rfl
  refine Lone.statement_bind (fun _ d₂ hinsert => ?_) fun e _ s hs => answers_error hs
  obtain ⟨eff, heff, -, rfl⟩ := Stmt.ok_of_apply hinsert
  simp only [insertMessageRow] at heff
  split at heff
  · cases heff
  · rename_i hnew
    split at heff
    · cases heff
    · cases heff
      have hfresh : d₁.messages.find? m.uid = none := by
        simpa using hnew
      have hact : MessagingAct credentials.userUid db (insertMessage m d₁) := by
        refine .stores m hmay (by rw [← htouch.messages]; exact hfresh) hlive htouch.conversations
          htouch.participants ?_
        rw [← htouch.messages]
        rfl
      have hfound : (insertMessage m d₁).messages.find? m.uid = some m :=
        Table.find?_insert_self hfresh
      apply Lone.bind_ok Lone.commit
      apply Lone.bind_ok (Lone.read fun d : Db => d.messages.find? messageUid)
      -- the refresh finds the row that was committed
      rw [← huid, hfound]
      refine Lone.ret _ fun s hs => ⟨by rw [hs.holds.db_eq]; exact hact, fun f hf => ?_⟩
      obtain ⟨userUid, huser, rfl⟩ := List.mem_map.1 hf
      obtain ⟨hactive, hother⟩ := List.mem_filter.1 huser
      rw [hs.holds.db_eq]
      refine ⟨hfound, ?_, by rw [hsender]; exact bne_iff_ne.1 hother⟩
      show userUid ∈ activeParticipantUids m.conversationUid d₁
      unfold activeParticipantUids
      rw [htouch.participants, hconversation]
      exact hactive

/-- The flush of a participant who has read everything, if there is something to flush. -/
theorem loneEnds_flushParticipant_bind {c : Bool} {conversationUid userUid : String}
    {k : Unit → App α}
    (hk : ∀ d, MessagingAct caller db d →
      Lone i (Sees i db [] d) (k ()) fun _ s => MessagingAct caller db s.db) :
    LoneEnds i db (MessagingAct caller db)
      ((whenever c (flushParticipant now conversationUid userUid)).bind k) := by
  unfold whenever flushParticipant
  split
  · simp only [Prog.bind_eq_bind, Prog.bind_assoc]
    refine Lone.statement_bind (fun found d₁ hupdate => ?_) fun e _ s hs =>
      ends_of_holds act_refl hs
    obtain ⟨eff, heff, hfound, rfl⟩ := Stmt.ok_of_apply hupdate
    simp only [updateParticipantRow] at heff
    split at heff
    · cases heff
      cases hfound
      exact hk _ (.reads _ _ now rfl rfl rfl)
    · cases heff
      cases hfound
      exact Lone.raise _ fun s hs => ends_of_holds act_refl hs.holds
  · exact hk db act_refl

theorem loneEnds_markConversationRead {conversationUid : String} :
    LoneEnds i db (MessagingAct caller db)
      (Conversations.markConversationRead now conversationUid credentials) := by
  apply loneEnds_read_bind act_refl lone_activeParticipant
  intro p hp
  apply loneEnds_flushParticipant_bind
  intro d hact
  refine loneEnds_committed ?_ hact
  apply (ReadOnly.select _).bind
  intro found
  cases found with
  | none => exact .raise _
  | some m => exact .ret _

/-- A message that is not deleted, of the conversation. -/
theorem lone_findMessage {conversation : Conversation} {messageUid : String} :
    Lone i (Sees i db [] db) (Conversations.findMessage conversation messageUid)
      (HasRead i db fun m => db.messages.find? m.uid = some m) := by
  apply Lone.bind_ok (Lone.read fun d : Db => d.messages.find? messageUid)
  cases hfound : db.messages.find? messageUid with
  | none => exact Lone.raise _ fun s hs => hs.holds
  | some m =>
      have huid : m.uid = messageUid := (Table.find?_eq_some.1 hfound).2
      dsimp only
      split
      · exact Lone.raise _ fun s hs => hs.holds
      · refine Lone.ret _ fun s hs => ⟨?_, hs⟩
        show db.messages.find? m.uid = some m
        rw [huid, hfound]

/-- Only its sender hides a message. -/
theorem loneEnds_deleteMessage {conversationUid messageUid : String} :
    LoneEnds i db (MessagingAct credentials.userUid db)
      (Conversations.deleteMessage now conversationUid messageUid credentials) := by
  apply loneEnds_read_bind act_refl lone_activeParticipant
  intro p hp
  apply loneEnds_read_bind act_refl lone_findMessage
  intro m hm
  split
  · exact loneEnds_raise act_refl _
  · rename_i hsender
    have hcaller : credentials.userUid = some m.senderUid := by
      rw [hp.caller.named]
      have hsame : m.senderUid = p.user.uid := by simpa using hsender
      rw [hsame]
    refine Lone.statement_bind (fun found d₁ hupdate => ?_) fun e _ s hs =>
      ends_of_holds act_refl hs
    obtain ⟨eff, heff, hfound, rfl⟩ := Stmt.ok_of_apply hupdate
    simp only [hideMessageRow] at heff
    split at heff
    · cases heff
      cases hfound
      refine Lone.conseq Lone.commit (fun _ hs => hs) fun r s hs => ?_
      rw [hs.2.holds.db_eq]
      exact .hides m now hm hcaller rfl rfl rfl
    · cases heff
      cases hfound
      exact Lone.raise _ fun s hs => ends_of_holds act_refl hs.holds

theorem loneEnds_blockUser {userUid : String} :
    LoneEnds i db (MessagingAct caller db) (UserBlocks.blockUser now userUid credentials) := by
  apply loneEnds_read_bind act_refl lone_caller
  intro user _
  split
  · exact loneEnds_raise act_refl _
  · apply loneEnds_requireUser
    unfold Vivac.blockUser
    simp only [Prog.bind_eq_bind, Prog.bind_assoc]
    apply loneEnds_select_bind
    cases db.blocks.find? (user.uid, userUid) with
    | some b => exact loneEnds_readOnly act_refl (.ret _)
    | none =>
        dsimp only
        simp only [Prog.bind_assoc]
        refine Lone.statement_bind (fun _ d₁ hinsert => ?_) fun e _ s hs =>
          ends_of_holds act_refl hs
        obtain ⟨eff, heff, -, rfl⟩ := Stmt.ok_of_apply hinsert
        simp only [insertBlockRow] at heff
        repeat' split at heff
        all_goals cases heff
        refine loneEnds_committed ?_ (.stays rfl rfl rfl)
        apply (ReadOnly.select _).bind
        intro found
        cases found with
        | none => exact .raise _
        | some b => exact .ret _

theorem loneEnds_unblockUser {userUid : String} :
    LoneEnds i db (MessagingAct caller db) (UserBlocks.unblockUser userUid credentials) := by
  apply loneEnds_read_bind act_refl lone_caller
  intro user _
  apply loneEnds_select_bind
  cases db.blocks.find? (user.uid, userUid) with
  | none => exact loneEnds_readOnly act_refl (.ret _)
  | some b =>
      refine Lone.statement_bind (fun _ d₁ hdelete => ?_) fun e _ s hs => ends_of_holds act_refl hs
      obtain ⟨eff, heff, -, rfl⟩ := Stmt.ok_of_apply hdelete
      refine Lone.conseq Lone.commit (fun _ hs => hs) fun r s hs => ?_
      rw [hs.2.holds.db_eq]
      simp only [deleteBlockRow] at heff
      split at heff
      · cases heff
        exact .stays rfl rfl rfl
      · cases heff
        exact act_refl

theorem readOnly_activeParticipant (conversationUid : String) (credentials : Credentials) :
    ReadOnly (Conversations.activeParticipant conversationUid credentials) := by
  unfold Conversations.activeParticipant Conversations.findConversation
    Conversations.requireParticipant
  apply ReadOnly.bind
  · apply (ReadOnly.select _).bind
    intro found
    cases found with
    | none => exact .raise _
    | some c => exact .ret _
  · intro c
    apply (readOnly_getCurrentUser credentials).bind
    intro user
    apply ReadOnly.bind
    · apply (ReadOnly.select _).bind
      intro found
      cases found with
      | none => exact .raise _
      | some p => exact .ret _
    · exact fun p => .ret _

theorem readOnly_listConversations (credentials : Credentials) (offset limit : ℕ) :
    ReadOnly (Conversations.listConversations credentials offset limit) := by
  apply (readOnly_getCurrentUser credentials).bind
  intro user
  apply (ReadOnly.select _).bind
  intro rows
  apply ReadOnly.bind
  · unfold getLastMessages
    split
    · exact .ret _
    · exact ReadOnly.select _
  · intro lastMessages
    apply ReadOnly.bind
    · unfold getUnreadCounts
      dsimp only
      split
      · exact .ret _
      · exact ReadOnly.select _
    · exact fun unreadCounts => .ret _

theorem readOnly_listMessages (be : Backend) (conversationUid : String) (cursor : Option String)
    (limit : ℕ) : ReadOnly (Vivac.listMessages be conversationUid cursor limit) := by
  have hpage : ∀ older : Message → Bool, ReadOnly (select (fun d : Db =>
      (orderByNewest (d.messages.select fun m =>
        m.conversationUid == conversationUid && m.deletedAt.isNone && older m)).take
          (limit + 1)) >>=
      fun messages =>
        (if limit < messages.length then do
          let last ← Prog.ofExcept (lastOf (messages.take limit))
          return (messages.take limit, some (encodeMessageCursor be last.createdAt last.uid), true)
        else return (messages, none, false) : App (List Message × Option String × Bool))) := by
    intro older
    apply (ReadOnly.select _).bind
    intro messages
    split
    · exact (ReadOnly.ofExcept _).bind fun last => .ret _
    · exact .ret _
  unfold Vivac.listMessages
  cases cursor with
  | none => exact hpage _
  | some c =>
      dsimp only
      split
      · exact hpage _
      · exact (ReadOnly.ofExcept _).bind fun last => hpage _

/-- Every request is one act, and pushes what is committed. -/
theorem MessagingCall.answers_body (be : Backend) (now : Timestamp)
    (call : MessagingCall) (db : Db) :
    Lone () (Sees () db [] db) (call.body be now) (Answers call.caller db) := by
  cases call with
  | create credentials uid payload =>
      exact answers_silent loneEnds_createConversation
  | list credentials offset limit =>
      exact answers_silent (loneEnds_readOnly act_refl (readOnly_listConversations _ _ _))
  | get credentials conversationUid =>
      exact answers_silent (loneEnds_readOnly act_refl
        ((readOnly_activeParticipant _ _).bind fun p => readOnly_conversationDetail _))
  | listMessages credentials conversationUid cursor limit =>
      exact answers_silent (loneEnds_readOnly act_refl
        ((readOnly_activeParticipant _ _).bind fun p =>
          (readOnly_listMessages be _ _ _).bind fun page => .ret _))
  | send peer credentials started conversationUid messageUid content => exact answers_sendMessage
  | markRead credentials conversationUid => exact answers_silent loneEnds_markConversationRead
  | delete credentials conversationUid messageUid => exact answers_silent loneEnds_deleteMessage
  | block credentials userUid => exact answers_silent loneEnds_blockUser
  | unblock credentials userUid => exact answers_silent loneEnds_unblockUser

end Writes

/-! ## Runs -/

theorem TimedMessagingCall.Served.answers {be : Backend} {x : TimedMessagingCall}
    {frames : List Frame}
    {s s' : State Unit} (h : x.Served be frames s s') (hs : Between s) :
    Between s' ∧ MessagingAct x.call.caller s.db s'.db ∧ ∀ f ∈ frames, IsPushed f s'.db := by
  obtain ⟨r, hrun, rfl⟩ := h
  obtain ⟨r', s'', hrun', -, hact⟩ := lone_withSession
    (Q := fun r d => MessagingAct x.call.caller s.db d ∧ ∀ f ∈ r.toOption.getD [], IsPushed f d)
    (x.call.answers_body be x.now s.db) s hs.sees
  have hsame : some (r', s'') = some (r, s') := hrun'.symm.trans hrun
  cases hsame
  exact ⟨between_of_withSession hrun, hact⟩

/-- In every run of requests one after another, every DIRECT conversation has two participants, who
are different users, and no two of them are of one pair. A request stores a message only for its
caller, who takes part in the conversation, and past no block between the two of a DIRECT one; it
hides a message only for its sender; and what it pushes is committed, and meant for the other active
participants. -/
theorem direct_messages_safe {be : Backend} {xs : List TimedMessagingCall} {x : TimedMessagingCall}
    {frames : List Frame} {s s₁ s₂ : State Unit} (hs : Between s) (horder : DirectInOrder s.db)
    (hrun : Turns (fun y a b => ∃ pushed, TimedMessagingCall.Served be y pushed a b) xs s s₁)
    (hx : x.Served be frames s₁ s₂) :
    (∀ c ∈ s₂.db.conversations.rows, c.type = .direct → IsPair c.uid s₂.db) ∧
      (∀ c ∈ s₂.db.conversations.rows, ∀ c' ∈ s₂.db.conversations.rows, c.type = .direct →
        c'.type = .direct → (∀ u, u ∈ (partiesOf c.uid s₂.db).map Prod.fst ↔
          u ∈ (partiesOf c'.uid s₂.db).map Prod.fst) → c = c') ∧
      Guarded x.call.caller s₁.db s₂.db ∧ ∀ f ∈ frames, IsPushed f s₂.db := by
  obtain ⟨hbetween, hbefore⟩ : Between s₁ ∧ DirectInOrder s₁.db := by
    refine hrun.invariant (I := fun t => Between t ∧ DirectInOrder t.db) ?_ ⟨hs, horder⟩
    rintro y - a b ⟨pushed, hserved⟩ ⟨ha, hinorder⟩
    obtain ⟨hb, hact, -⟩ := hserved.answers ha
    exact ⟨hb, hact.inOrder hinorder⟩
  obtain ⟨-, hact, hpushed⟩ := hx.answers hbetween
  have hafter : DirectInOrder s₂.db := hact.inOrder hbefore
  refine ⟨hafter.pairs, fun c hc c' hc' hdirect hdirect' hsame => ?_, hact.guarded hbefore, hpushed⟩
  exact hafter.eq_of_pair hc hc' hdirect hdirect' hsame

namespace Sample

open Vivac.Sample (user backend)

/-- Two users, and no conversation. -/
def talkers : Db :=
  { Db.empty with users := ⟨[user "haneul", user "bora"], by decide⟩ }

/-- One of them opens a conversation with the other. -/
def greeting : TimedMessagingCall :=
  ⟨0, .create (.access "haneul") "dm"
    { type := .direct
      participantUids := ["bora"] }⟩

/-- She sends a message in it. -/
def saying : TimedMessagingCall := ⟨1, .send {} (.access "haneul") 1 "dm" "hello" "안녕"⟩

/-- The frames of a request by itself, and the state after it. -/
def afterMessaging (x : TimedMessagingCall) (s : State Unit) : Option (List Frame × State Unit) :=
  (runAlone (fun i => exec i) () (x.call.program backend x.now) s).map fun out =>
    (out.1.toOption.getD [], out.2)

theorem served_of_messaging {x : TimedMessagingCall} {s s' : State Unit} {frames : List Frame}
    (h : afterMessaging x s = some (frames, s')) : x.Served backend frames s s' := by
  obtain ⟨⟨r, s''⟩, hrun, heq⟩ := Option.map_eq_some_iff.1 h
  cases heq
  exact ⟨r, hrun, rfl⟩

theorem talkers_inOrder : DirectInOrder talkers := by
  refine ⟨fun p hp => ?_, fun c hc => ?_, fun a b hab => ?_⟩
  · cases hp
  · cases hc
  · exact Nat.zero_le 1

end Sample

/-- A message is stored, and pushed to the other participant. -/
theorem direct_messages_safe_dm : ∃ frames : List Frame, ∃ s₁ s₂ : State Unit,
    Turns (fun y a b => ∃ pushed, TimedMessagingCall.Served Vivac.Sample.backend y pushed a b)
      [Sample.greeting] (World.fresh Sample.talkers) s₁ ∧
    Sample.saying.Served Vivac.Sample.backend frames s₁ s₂ ∧
    frames.map Frame.userUid = ["bora"] ∧ ∀ f ∈ frames, IsPushed f s₂.db := by
  have hrun : ((Sample.afterMessaging Sample.greeting (World.fresh Sample.talkers)).any fun a =>
      (Sample.afterMessaging Sample.saying a.2).any fun b =>
        b.1.map Frame.userUid == ["bora"]) = true := by
    decide +kernel
  obtain ⟨⟨pushed, a⟩, ha, hrun⟩ := (Option.any_eq_true _ _).1 hrun
  obtain ⟨⟨frames, b⟩, hb, hrecipients⟩ := (Option.any_eq_true _ _).1 hrun
  have hturns : Turns (fun y a b => ∃ pushed,
      TimedMessagingCall.Served Vivac.Sample.backend y pushed a b) [Sample.greeting]
      (World.fresh Sample.talkers) a := .single ⟨pushed, Sample.served_of_messaging ha⟩
  obtain ⟨-, -, -, hpushed⟩ := direct_messages_safe (between_fresh Sample.talkers)
    Sample.talkers_inOrder hturns (Sample.served_of_messaging hb)
  exact ⟨frames, a, b, hturns, Sample.served_of_messaging hb, beq_iff_eq.1 hrecipients, hpushed⟩

end Vivac.Messaging
