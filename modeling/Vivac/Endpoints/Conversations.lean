import Vivac.Crud.Message
import Vivac.Endpoints.Auth

/-!
# The conversation endpoints

`endpoints/conversations.py`. Every endpoint of one conversation looks the conversation up, then
the caller, and then the caller among its active participants.
-/

set_option autoImplicit false

namespace Vivac

open Lib App

def conversationNotFound : Exc := .app .conversationNotFound "Conversation not found"

def userNotFound : Exc := .app .userNotFound "User not found"

/-- `ConversationCreate`; the names of others are at least one. -/
structure ConversationCreate where
  type : ConversationType
  participantUids : List String
  name : Option String := none
  named : participantUids ≠ [] := by decide

structure ConversationDetail where
  uid : String
  type : ConversationType
  name : Option String
  participantUids : List String
  createdAt : Timestamp
  updatedAt : Timestamp

structure ConversationListItem where
  uid : String
  type : ConversationType
  name : Option String
  lastMessagePreview : Option String
  lastMessageAt : Option Timestamp
  unreadCount : ℕ
  updatedAt : Timestamp

structure MessageListResponse where
  items : List Message
  nextCursor : Option String
  hasMore : Bool

namespace Conversations

/-! ## Dependencies -/

/-- `_get_conversation_or_404`. -/
def findConversation (conversationUid : String) : App Conversation := do
  match ← getConversationByUid conversationUid with
  | some conversation => return conversation
  | none => .raise conversationNotFound

/-- The caller among the active participants of a conversation. -/
def requireParticipant (conversation : Conversation) (user : User) :
    App ConversationParticipant := do
  match ← getActiveParticipant conversation.uid user.uid with
  | some participant => return participant
  | none => .raise conversationNotFound

/-- The conversation that a request is about, its caller, and the caller's part in it. -/
structure Participation where
  conversation : Conversation
  user : User
  participant : ConversationParticipant

/-- `_get_active_participant_or_404`. -/
def activeParticipant (conversationUid : String) (credentials : Credentials) :
    App Participation := do
  let conversation ← findConversation conversationUid
  let user ← getCurrentUser credentials
  let participant ← requireParticipant conversation user
  return ⟨conversation, user, participant⟩

/-! ## Endpoints -/

/-- `_to_detail`. -/
def toDetail (conversation : Conversation) : App ConversationDetail := do
  let participantUids ← listActiveParticipantUids conversation.uid
  return {
    uid := conversation.uid
    type := conversation.type
    name := conversation.name
    participantUids := participantUids
    createdAt := conversation.createdAt
    updatedAt := conversation.updatedAt }

/-- The user that a new conversation is meant for. -/
def requireUser (userUid : String) : App Unit := do
  match ← getUserById userUid with
  | some _ => .ret ()
  | none => .raise userNotFound

/-- The item of a conversation in a list. -/
def toListItem (lastMessages : List (String × Message)) (unreadCounts : List (String × ℕ))
    (conversation : Conversation) : ConversationListItem where
  uid := conversation.uid
  type := conversation.type
  name := conversation.name
  lastMessagePreview := (lastMessages.lookup conversation.uid).map Message.content
  lastMessageAt := (lastMessages.lookup conversation.uid).map Message.createdAt
  unreadCount := (unreadCounts.lookup conversation.uid).getD 0
  updatedAt := conversation.updatedAt

/-- A DIRECT conversation is refused where either side blocks the other: the other participants
are asked in the order in which the database lists them, and only the first. -/
def checkBlocks (conversation : Conversation) (userUid : String) (participantUids : List String) :
    App Unit :=
  match conversation.type, participantUids.filter (· != userUid) with
  | .direct, otherUid :: _ => do
    if ← hasBlockBetween userUid otherUid then
      .raise (.app .userBlocked "차단 관계가 있어 메시지를 보낼 수 없습니다")
    else .ret ()
  | _, _ => .ret ()

section

variable (be : Backend) (now : Timestamp)

/-- `create_conversation`; `uid` is the fresh uid of its row. -/
def createConversation (uid : String) (credentials : Credentials) (payload : ConversationCreate) :
    App ConversationDetail := do
  let user ← getCurrentUser credentials
  match payload.type, payload.participantUids with
  | .direct, [targetUid] => do
    requireUser targetUid
    let conversation ← getOrCreateDirectConversation now uid user.uid targetUid
    toDetail conversation
  | .direct, _ =>
    .raise (.app .validationError "DIRECT 대화는 상대방 1명만 지정해야 합니다")
  | .group, participantUids => do
    forEach requireUser participantUids
    let conversation ← createGroupConversation now uid user.uid participantUids payload.name
    toDetail conversation

/-- `list_conversations`. -/
def listConversations (credentials : Credentials) (offset limit : ℕ) :
    App (List ConversationListItem) := do
  let user ← getCurrentUser credentials
  let rows ← listConversationsForUser user.uid offset limit
  let lastMessages ← getLastMessages (rows.map fun r => r.1.uid)
  let unreadCounts ← getUnreadCounts user.uid (rows.map Prod.snd)
  return rows.map fun r => toListItem lastMessages unreadCounts r.1

/-- `get_conversation`. -/
def getConversation (conversationUid : String) (credentials : Credentials) :
    App ConversationDetail := do
  let p ← activeParticipant conversationUid credentials
  toDetail p.conversation

/-- `list_messages`. -/
def listMessages (conversationUid : String) (credentials : Credentials) (cursor : Option String)
    (limit : ℕ) : App MessageListResponse := do
  let p ← activeParticipant conversationUid credentials
  let (items, nextCursor, hasMore) ← Vivac.listMessages be p.conversation.uid cursor limit
  return ⟨items, nextCursor, hasMore⟩

/-- The limit of `send_message`. -/
def sendLimit : LimitScope := ⟨"dm_message_send", 60, 60⟩

/-- `send_message`, in a transaction that started at `started`: the message, and the users it is
pushed to. -/
def sendMessage (started : Timestamp) (uid conversationUid : String) (peer : Peer)
    (credentials : Credentials) (content : String) : App (Message × List String) :=
  withRateLimit sendLimit peer credentials do
    let p ← activeParticipant conversationUid credentials
    let participantUids ← listActiveParticipantUids p.conversation.uid
    checkBlocks p.conversation p.user.uid participantUids
    let message ← createMessage now started uid p.conversation p.user.uid content
    return (message, participantUids.filter (· != p.user.uid))

/-- `mark_conversation_read`. -/
def markConversationRead (conversationUid : String) (credentials : Credentials) : App Unit := do
  let p ← activeParticipant conversationUid credentials
  markRead now p.participant

/-- A message of the conversation that is not deleted. -/
def findMessage (conversation : Conversation) (messageUid : String) : App Message := do
  match ← getMessageByUid messageUid with
  | none => .raise (.app .messageNotFound "Message not found")
  | some message =>
    if message.conversationUid != conversation.uid || message.deletedAt.isSome then
      .raise (.app .messageNotFound "Message not found")
    else return message

/-- `delete_message`, for its sender. -/
def deleteMessage (conversationUid messageUid : String) (credentials : Credentials) :
    App Unit := do
  let p ← activeParticipant conversationUid credentials
  let message ← findMessage p.conversation messageUid
  if message.senderUid != p.user.uid then
    .raise (.app .forbidden "본인 메시지만 삭제할 수 있습니다")
  else softDeleteMessage now message

end

end Conversations

end Vivac
