import Vivac.Crud.Conversation

/-!
# Messages

`crud/message.py`: keyset pages, newest first, and the writers of a message.
-/

set_option autoImplicit false

namespace Vivac

open Lib App

section

variable (be : Backend)

/-- `_encode_cursor`. -/
def encodeMessageCursor (createdAt : Timestamp) (uid : String) : String :=
  be.b64encode (be.jsonDumps (.obj [("t", .str (be.isoformat createdAt)), ("u", .str uid)]))

/-- `datetime.fromisoformat(value)`, which takes a string only. -/
def timestampOf (v : Json) : Except JsonFault Timestamp :=
  match v with
  | .str t =>
    match be.fromisoformat t with
    | some x => .ok x
    | none => .error .value
  | _ => .error .type

/-- The fields of a message cursor's payload. -/
def messageCursorFields (payload : Json) : Except JsonFault (Timestamp × String) := do
  let createdAt ← timestampOf be (← payload.subscript "t")
  let u ← payload.subscript "u"
  return (createdAt, strOf be u)

/-- `_decode_cursor`. -/
def decodeMessageCursor (cursor : String) : Except Exc (Timestamp × String) :=
  ((loadCursor be cursor).bind (messageCursorFields be)).mapError
    (cursorFault "Invalid cursor for messages")

/-- The sort key of a message. -/
def messageKey (m : Message) : ℤ ×ₗ String := toLex (m.createdAt, m.uid)

/-- `ORDER BY created_at DESC, uid DESC`. -/
def orderByNewest (messages : List Message) : List Message :=
  messages.insertionSort fun a b => messageKey b ≤ messageKey a

/-- A page of a conversation's messages that are not deleted, newest first. -/
def listMessages (conversationUid : String) (cursor : Option String) (limit : ℕ := 30) :
    App (List Message × Option String × Bool) := do
  let older : Message → Bool ← match cursor with
    | some c =>
      if c = "" then pure fun _ => true
      else do
        let (lastCreatedAt, lastUid) ← Prog.ofExcept (decodeMessageCursor be c)
        pure fun m => messageKey m < toLex (lastCreatedAt, lastUid)
    | none => pure fun _ => true
  let messages ← select fun d =>
    (orderByNewest (d.messages.select fun m =>
      m.conversationUid == conversationUid && m.deletedAt.isNone && older m)).take (limit + 1)
  if limit < messages.length then do
    let last ← Prog.ofExcept (lastOf (messages.take limit))
    return (messages.take limit, some (encodeMessageCursor be last.createdAt last.uid), true)
  else
    return (messages, none, false)

end

/-! ## Statements -/

/-- A conversation has something new. -/
def touch (uid : String) (now : Timestamp) (d : Db) : Db where
  __ := d
  conversations := d.conversations.update (fun c => c.uid == uid)
    (fun c => { c with updatedAt := now }) fun _ => rfl

/-- `UPDATE conversations SET updated_at = ..`; answers whether a row matched. -/
def updateConversationRow (uid : String) (now : Timestamp) : Statement Bool :=
  fun _ d =>
    if (d.conversations.find? uid).isSome then
      .ok ⟨true, touch uid now, [.conversation uid], [.conversation uid]⟩
    else .ok ⟨false, id, [], []⟩

/-- One more message. -/
def insertMessage (m : Message) (d : Db) : Db where
  __ := d
  messages := d.messages.insert m

/-- `INSERT INTO messages`. -/
def insertMessageRow (m : Message) : Statement Unit :=
  fun _ d =>
    if (d.messages.find? m.uid).isSome then .error (integrityError "messages_pkey")
    else if (d.conversations.find? m.conversationUid).isNone ||
        (d.users.find? m.senderUid).isNone then
      .error (integrityError "foreign key constraint")
    else .ok ⟨(), insertMessage m, [.message m.uid], [.message m.uid]⟩

/-- Mark a message as deleted. -/
def hideMessage (uid : String) (now : Timestamp) (d : Db) : Db where
  __ := d
  messages := d.messages.update (fun m => m.uid == uid)
    (fun m => { m with deletedAt := some now }) fun _ => rfl

/-- `UPDATE messages SET deleted_at = ..`; answers whether a row matched. -/
def hideMessageRow (uid : String) (now : Timestamp) : Statement Bool :=
  fun _ d =>
    if (d.messages.find? uid).isSome then
      .ok ⟨true, hideMessage uid now, [.message uid], [.message uid]⟩
    else .ok ⟨false, id, [], []⟩

/-! ## Writers -/

def getMessageByUid (uid : String) : App (Option Message) := select fun d => d.messages.find? uid

/-- The flush of a loaded conversation. -/
def flushConversation (uid : String) (now : Timestamp) : App Unit := do
  let found ← execute (updateConversationRow uid now)
  if found then .ret () else .raise staleDataError

/-- `create_message`, at the time `now`, in a transaction that started at `started`; `uid` is the
fresh uid of its row. -/
def createMessage (now started : Timestamp) (uid : String) (conversation : Conversation)
    (senderUid content : String) : App Message := do
  whenever (conversation.updatedAt != now) (flushConversation conversation.uid now)
  execute (insertMessageRow
    { uid := uid, conversationUid := conversation.uid, senderUid := senderUid, content := content,
      createdAt := started })
  commit
  match ← getMessageByUid uid with
  | some message => return message
  | none => .raise (.database "InvalidRequestError" "Could not refresh instance")

/-- The latest message of a conversation that is not deleted. -/
def lastMessage (conversationUid : String) (d : Db) : Option Message :=
  (orderByNewest (d.messages.select fun m =>
    m.conversationUid == conversationUid && m.deletedAt.isNone)).head?

/-- `get_last_messages`, a preview for each conversation. -/
def getLastMessages (conversationUids : List String) : App (List (String × Message)) :=
  if conversationUids.isEmpty then .ret []
  else select fun d => conversationUids.dedup.filterMap fun u =>
    (lastMessage u d).map fun m => (u, m)

/-- `soft_delete_message`, of a message that is not deleted. -/
def softDeleteMessage (now : Timestamp) (message : Message) : App Unit := do
  let found ← execute (hideMessageRow message.uid now)
  if found then commit else .raise staleDataError

end Vivac
