import Vivac.Crud.Spot

/-!
# Conversations and blocks

`crud/conversation.py` and `crud/user_block.py`. A DIRECT conversation is looked up by its two
participants and made when there is none; a block of either user by the other stands in the way.
-/

set_option autoImplicit false

namespace Vivac

open Lib App

/-! ## Statements -/

/-- `INSERT INTO user_blocks`. -/
def insertBlockRow (b : UserBlock) : Statement Unit :=
  fun _ d =>
    if b.blockerUid = b.blockedUid then .error (integrityError "ck_user_blocks_no_self_block")
    else if (d.blocks.find? (b.blockerUid, b.blockedUid)).isSome then
      .error (integrityError "user_blocks_pkey")
    else if (d.users.find? b.blockerUid).isNone || (d.users.find? b.blockedUid).isNone then
      .error (integrityError "foreign key constraint")
    else .ok ⟨(), fun d => { d with blocks := d.blocks.insert b },
      [.block b.blockerUid b.blockedUid], [.block b.blockerUid b.blockedUid]⟩

/-- Lift a block. -/
def dropBlock (blockerUid blockedUid : String) (d : Db) : Db where
  __ := d
  blocks := d.blocks.delete fun b => b.blockerUid == blockerUid && b.blockedUid == blockedUid

/-- `DELETE FROM user_blocks`; a missing row is no error. -/
def deleteBlockRow (blockerUid blockedUid : String) : Statement Unit :=
  fun _ d =>
    if (d.blocks.find? (blockerUid, blockedUid)).isSome then
      .ok ⟨(), dropBlock blockerUid blockedUid, [.block blockerUid blockedUid],
        [.block blockerUid blockedUid]⟩
    else .ok ⟨(), id, [], []⟩

/-- `INSERT INTO conversations`. -/
def insertConversationRow (c : Conversation) : Statement Unit :=
  fun _ d =>
    if (d.conversations.find? c.uid).isSome then .error (integrityError "conversations_pkey")
    else .ok ⟨(), fun d => { d with conversations := d.conversations.insert c },
      [.conversation c.uid], [.conversation c.uid]⟩

/-- The row of a new participant. -/
def newParticipant (now : Timestamp) (conversationUid userUid : String) :
    ConversationParticipant :=
  { conversationUid := conversationUid, userUid := userUid, joinedAt := now }

/-- Add the participants of a conversation. -/
def addParticipants (now : Timestamp) (conversationUid : String) (userUids : List String)
    (d : Db) : Db where
  __ := d
  participants := userUids.foldl
    (fun t userUid => t.insert (newParticipant now conversationUid userUid)) d.participants

/-- `INSERT INTO conversation_participants`, of a new conversation's participants. -/
def insertParticipantRows (now : Timestamp) (conversationUid : String) (userUids : List String) :
    Statement Unit :=
  fun _ d =>
    if userUids.any fun u => (d.participants.find? (conversationUid, u)).isSome then
      .error (integrityError "conversation_participants_pkey")
    else if (d.conversations.find? conversationUid).isNone ||
        userUids.any fun u => (d.users.find? u).isNone then
      .error (integrityError "foreign key constraint")
    else .ok
      { result := ()
        write := addParticipants now conversationUid userUids
        locks := userUids.map (.participant conversationUid)
        changes := userUids.map (.participant conversationUid) }

/-- Replace a participant by its new version. -/
def rewriteParticipant (conversationUid userUid : String) (lastReadAt : Timestamp) (d : Db) :
    Db where
  __ := d
  participants := d.participants.update
    (fun p => p.conversationUid == conversationUid && p.userUid == userUid)
    (fun p => { p with lastReadAt := some lastReadAt }) fun _ => rfl

/-- `UPDATE conversation_participants SET last_read_at = ..`; answers whether a row matched. -/
def updateParticipantRow (conversationUid userUid : String) (lastReadAt : Timestamp) :
    Statement Bool :=
  fun _ d =>
    if (d.participants.find? (conversationUid, userUid)).isSome then
      .ok ⟨true, rewriteParticipant conversationUid userUid lastReadAt,
        [.participant conversationUid userUid], [.participant conversationUid userUid]⟩
    else .ok ⟨false, id, [], []⟩

/-! ## Blocks -/

section Blocks

variable (now : Timestamp)

def getBlock (blockerUid blockedUid : String) : App (Option UserBlock) :=
  select fun d => d.blocks.find? (blockerUid, blockedUid)

/-- Block a user; a user who is blocked stays so. -/
def blockUser (blockerUid blockedUid : String) : App UserBlock := do
  match ← getBlock blockerUid blockedUid with
  | some existing => return existing
  | none => do
    execute (insertBlockRow
      { blockerUid := blockerUid, blockedUid := blockedUid, createdAt := now })
    commit
    match ← getBlock blockerUid blockedUid with
    | some block => return block
    | none => .raise (.database "InvalidRequestError" "Could not refresh instance")

/-- Lift a block, if there is one. -/
def unblockUser (blockerUid blockedUid : String) : App Unit := do
  match ← getBlock blockerUid blockedUid with
  | none => .ret ()
  | some _ => do
    execute (deleteBlockRow blockerUid blockedUid)
    commit

/-- One of two users blocks the other. -/
def blockBetween (userA userB : String) (d : Db) : Bool :=
  d.blocks.any fun b => (b.blockerUid == userA && b.blockedUid == userB) ||
    (b.blockerUid == userB && b.blockedUid == userA)

def hasBlockBetween (userA userB : String) : App Bool := select (blockBetween userA userB)

end Blocks

/-! ## Conversations -/

section Conversations

variable (now : Timestamp)

/-- The DIRECT conversations that both users take part in. -/
def directConversations (userUid targetUid : String) (d : Db) : List Conversation :=
  d.conversations.select fun c => c.type == .direct &&
    (d.participants.find? (c.uid, userUid)).isSome &&
    (d.participants.find? (c.uid, targetUid)).isSome

def getConversationByUid (uid : String) : App (Option Conversation) :=
  select fun d => d.conversations.find? uid

/-- `session.refresh(conversation)`. -/
def refreshConversation (uid : String) : App Conversation := do
  match ← getConversationByUid uid with
  | some c => return c
  | none => .raise (.database "InvalidRequestError" "Could not refresh instance")

/-- A new conversation under the fresh `uid`, with its participants. -/
def createConversation (uid : String) (type : ConversationType) (name : Option String)
    (userUids : List String) : App Conversation := do
  execute (insertConversationRow
    { uid := uid, type := type, name := name, createdAt := now, updatedAt := now })
  execute (insertParticipantRows now uid userUids)
  commit
  refreshConversation uid

/-- The DIRECT conversation of two users, made under `uid` when there is none. -/
def getOrCreateDirectConversation (uid userUid targetUid : String) : App Conversation := do
  if userUid = targetUid then
    .raise (.app .validationError "자기 자신과의 DM은 만들 수 없습니다")
  else do
    if ← hasBlockBetween userUid targetUid then
      .raise (.app .userBlocked "차단 관계가 있어 대화를 시작할 수 없습니다")
    else do
      let existing ← select (directConversations userUid targetUid)
      match ← Prog.ofExcept (scalarOneOrNone existing) with
      | some conversation => return conversation
      | none => createConversation now uid .direct none [userUid, targetUid]

/-- A GROUP conversation of its creator and others, each once. -/
def createGroupConversation (uid creatorUid : String) (participantUids : List String)
    (name : Option String) : App Conversation :=
  createConversation now uid .group name (creatorUid :: participantUids).dedup

/-- `get_active_participant`: a participant who has not left. -/
def getActiveParticipant (conversationUid userUid : String) :
    App (Option ConversationParticipant) :=
  select fun d =>
    (d.participants.find? (conversationUid, userUid)).filter fun p => p.leftAt.isNone

/-- The participants of a conversation who have not left. -/
def activeParticipantUids (conversationUid : String) (d : Db) : List String :=
  (d.participants.select fun p => p.conversationUid == conversationUid && p.leftAt.isNone).map
    ConversationParticipant.userUid

def listActiveParticipantUids (conversationUid : String) : App (List String) :=
  select (activeParticipantUids conversationUid)

/-- The conversations of a user who has not left them, the latest first. -/
def conversationsOf (userUid : String) (d : Db) :
    List (Conversation × ConversationParticipant) :=
  ((d.participants.select fun p => p.userUid == userUid && p.leftAt.isNone).filterMap fun p =>
    (d.conversations.find? p.conversationUid).map fun c => (c, p)).insertionSort
      fun a b => b.1.updatedAt ≤ a.1.updatedAt

def listConversationsForUser (userUid : String) (offset limit : ℕ) :
    App (List (Conversation × ConversationParticipant)) :=
  select fun d => ((conversationsOf userUid d).drop offset).take limit

/-- A message by somebody else, after all that a participant has read. -/
def unreadBy (p : ConversationParticipant) (m : Message) : Bool :=
  m.conversationUid == p.conversationUid && m.senderUid != p.userUid && m.deletedAt.isNone &&
    p.lastReadAt.all fun lastReadAt => lastReadAt < m.createdAt

/-- The messages of a conversation that a user has not read; none for a user who takes no part. -/
def unreadMessages (userUid conversationUid : String) (d : Db) : List Message :=
  match d.participants.find? (conversationUid, userUid) with
  | some p => d.messages.select (unreadBy p)
  | none => []

/-- `get_unread_counts`, for the conversations of the participants: those without a group in the
answer count 0. -/
def getUnreadCounts (userUid : String) (participants : List ConversationParticipant) :
    App (List (String × ℕ)) :=
  let conversationUids := participants.map ConversationParticipant.conversationUid
  if conversationUids.isEmpty then .ret []
  else select fun d => conversationUids.dedup.map fun u => (u, (unreadMessages userUid u d).length)

/-- The flush of a participant who has read everything up to now. -/
def flushParticipant (conversationUid userUid : String) : App Unit := do
  let found ← execute (updateParticipantRow conversationUid userUid now)
  if found then .ret () else .raise staleDataError

/-- Everything up to now is read. -/
def markRead (participant : ConversationParticipant) : App Unit := do
  whenever (participant.lastReadAt != some now)
    (flushParticipant now participant.conversationUid participant.userUid)
  commit
  match ← select fun d =>
    d.participants.find? (participant.conversationUid, participant.userUid) with
  | some _ => .ret ()
  | none => .raise (.database "InvalidRequestError" "Could not refresh instance")

end Conversations

end Vivac
