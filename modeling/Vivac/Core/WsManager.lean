import Vivac.Lib.EventLoop
import Mathlib.Data.Finset.Basic
import Mathlib.Data.Finset.Sort

/-!
# The connection manager

`ConnectionManager` keeps the active WebSocket connections of every user in a `defaultdict` of
sets: looking up a user who has none creates an empty set for the user. Its methods run on the
event loop. The points at which other tasks run are `accept` in `connect` and `send_json` in
`send_to_user`; `disconnect` is not a coroutine and runs at once.

A socket is an object of its own (equal only to itself). `list` of a set is in the order of
the set's own table, which any `Listing` may be, and may differ from call to call.
-/

set_option autoImplicit false

namespace Vivac

open Lib

/-- What the calls raise: a missing key, and the exceptions of the socket operations. -/
inductive SocketError where
  | keyError
  | failed
deriving DecidableEq, Repr

/-- What a task of the manager awaits. -/
inductive SocketOp (Socket Payload : Type) where
  | accept (websocket : Socket)
  | sendJson (websocket : Socket) (payload : Payload)

/-- An order in which the elements of a set are listed. -/
structure Listing (Socket : Type) where
  list : Finset Socket → List Socket
  nodup : ∀ sockets, (list sockets).Nodup
  mem : ∀ {sockets websocket}, websocket ∈ list sockets ↔ websocket ∈ sockets

/-- `_connections` -/
abbrev Connections (Socket : Type) : Type := String → Option (Finset Socket)

variable {Socket Payload : Type}

/-- The code of the manager. -/
abbrev ManagerProg (Socket Payload α : Type) : Type 1 :=
  TaskProg SocketError (Connections Socket) (SocketOp Socket Payload) Unit α

namespace Connections

/-- The sockets of a user; no entry is no socket. -/
def of (connections : Connections Socket) (userUid : String) : Finset Socket :=
  (connections userUid).getD ∅

/-- `_connections[user_uid]`, which makes the entry where there is none. -/
def getItem (userUid : String) : ManagerProg Socket Payload (Finset Socket) :=
  .perform (.sync fun connections =>
    (.ok (connections.of userUid),
      Function.update connections userUid (some (connections.of userUid))))

/-- The set of the entry of `user_uid` becomes `sockets`. -/
def setItem (userUid : String) (sockets : Finset Socket) : ManagerProg Socket Payload Unit :=
  .perform (.sync fun connections =>
    (.ok (), Function.update connections userUid (some sockets)))

/-- `del _connections[user_uid]` -/
def delItem (userUid : String) : ManagerProg Socket Payload Unit :=
  .perform (.sync fun connections =>
    match connections userUid with
    | none => (.error .keyError, connections)
    | some _ => (.ok (), Function.update connections userUid none))

/-- `_connections.get(user_uid, ())`, which makes no entry. -/
def get (userUid : String) : ManagerProg Socket Payload (Finset Socket) :=
  .perform (.sync fun connections => (.ok (connections.of userUid), connections))

end Connections

namespace ConnectionManager

variable [DecidableEq Socket]

/-- `connect` -/
def connect (userUid : String) (websocket : Socket) : ManagerProg Socket Payload Unit := do
  .perform (.await (.accept websocket))
  let sockets ← Connections.getItem userUid
  Connections.setItem userUid (insert websocket sockets)

/-- `disconnect` -/
def disconnect (userUid : String) (websocket : Socket) : ManagerProg Socket Payload Unit := do
  let sockets ← Connections.getItem userUid
  Connections.setItem userUid (sockets.erase websocket)
  let remaining ← Connections.getItem userUid
  if remaining = ∅ then
    Connections.delItem userUid

/-- The loop of `send_to_user` over the sockets listed at its start. -/
def sendEach (userUid : String) (payload : Payload) : List Socket → ManagerProg Socket Payload Unit
  | [] => .ret ()
  | websocket :: rest => do
    Prog.tryCatch (.perform (.await (.sendJson websocket payload)))
      fun _ => disconnect userUid websocket
    sendEach userUid payload rest

/-- `send_to_user` -/
def sendToUser (listing : Listing Socket) (userUid : String) (payload : Payload) :
    ManagerProg Socket Payload Unit := do
  let sockets ← Connections.get userUid
  sendEach userUid payload (listing.list sockets)

end ConnectionManager

/-- A call of the manager; a send comes with the order in which it lists the sockets. -/
inductive ManagerCall (Socket Payload : Type) where
  | connect (userUid : String) (websocket : Socket)
  | disconnect (userUid : String) (websocket : Socket)
  | sendToUser (listing : Listing Socket) (userUid : String) (payload : Payload)

/-- The code of a call. -/
def ManagerCall.program [DecidableEq Socket] :
    ManagerCall Socket Payload → ManagerProg Socket Payload Unit
  | .connect userUid websocket => ConnectionManager.connect userUid websocket
  | .disconnect userUid websocket => ConnectionManager.disconnect userUid websocket
  | .sendToUser listing userUid payload => ConnectionManager.sendToUser listing userUid payload

end Vivac
