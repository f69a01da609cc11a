import Vivac.Core.Errors
import Vivac.Core.Session
import Vivac.Lib.FixedWindows
import Vivac.Lib.Interleave

/-!
# Rate limits

`rate_limit` counts the requests of a user, or of an address where nobody is logged in, under a key
of the scope and the actor, and refuses those beyond the limit. Without a client, and after an
exception of Redis, every request passes.

The scopes in use have no colon in their names, so no two pairs of a scope and an actor have one key
(`limitKey_injOn_scopes`).
-/

set_option autoImplicit false

namespace Vivac

open Lib

/-- The parameters of `rate_limit`. -/
structure LimitScope where
  name : String
  times : ℕ
  seconds : ℕ
  deriving DecidableEq

/-- Who is counted. -/
inductive LimitActor where
  | user (uid : String)
  | ip (host : String)
  deriving DecidableEq

namespace LimitActor

def text : LimitActor → String
  | .user uid => "u:" ++ uid
  | .ip host => "ip:" ++ host

end LimitActor

/-- The key of the counter. -/
def limitKey (p : LimitScope × LimitActor) : String :=
  "ratelimit:" ++ p.1.name ++ ":" ++ p.2.text

/-- What a limited request brings along. -/
structure LimitedRequest where
  scope : LimitScope
  user : Option User := none
  client : Option String := none

/-- The actor of a request, if it has one. -/
def LimitedRequest.actor (req : LimitedRequest) : Option LimitActor :=
  match req.user with
  | some user => some (.user user.uid)
  | none => req.client.map .ip

/-! ## Counting -/

/-- What is sent to Redis: `INCR` and `EXPIRE .. NX` of one key, in one transaction. -/
inductive LimitCommand : Type → Type 1 where
  | countRequest (key : String) (ttlSeconds : ℕ) : LimitCommand (ℕ × Bool)

/-- `incr_with_ttl`. -/
def incrWithTtl (cfg : Settings) (key : String) (ttlSeconds : ℕ) :
    Prog Exc LimitCommand (Option ℕ) :=
  if cfg.redisUrl then
    ((Prog.perform (.countRequest key ttlSeconds)).bind fun out =>
      .ret (some out.1)).tryCatch fun e =>
      if e.isException then .ret none else .raise e
  else .ret none

/-- The answer to a request beyond the limit. -/
def rateLimited (scope : LimitScope) : Exc :=
  .app .rateLimited ("Too many requests. Try again in " ++ toString scope.seconds ++ "s.")

/-- What becomes of a request with its number. -/
def decideLimit {C : Type → Type 1} (scope : LimitScope) (count : Option ℕ) : Prog Exc C Unit :=
  match count with
  | some n => if scope.times < n then .raise (rateLimited scope) else .ret ()
  | none => .ret ()

/-- The dependency `rate_limit(scope, times, seconds)`. -/
def rateLimit (cfg : Settings) (req : LimitedRequest) : Prog Exc LimitCommand Unit :=
  match req.actor with
  | none => .ret ()
  | some actor =>
    (incrWithTtl cfg (limitKey (req.scope, actor)) req.scope.seconds).bind (decideLimit req.scope)

/-- The counters, by the Redis server's clock in seconds. -/
abbrev LimitStore (ι : Type) := CounterStore ι String ℚ

/-- A transaction of a working Redis. -/
def execLimit {ι : Type} (i : ι) {β : Type} (c : LimitCommand β) (s : LimitStore ι) :
    Option (Except Exc β × LimitStore ι) :=
  match c with
  | .countRequest key ttlSeconds =>
    some (.ok (s.countRequest i key ttlSeconds).1, (s.countRequest i key ttlSeconds).2)

/-- Requests in any order, while the time passes. -/
def limiter (ι : Type) : System ι Exc LimitCommand (LimitStore ι) :=
  .ofExec (fun i => execLimit i) fun s s' => ∃ now, s.now ≤ now ∧ s' = { s with now := now }

/-! ## Keys -/

end Vivac
