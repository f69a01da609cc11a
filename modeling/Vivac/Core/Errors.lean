import Vivac.Lib.Platform
import Vivac.Lib.PyText

/-!
# Errors

The exceptions a request or a job can meet, and the form in which a job records
one.
-/

set_option autoImplicit false

namespace Vivac

open Lib

inductive ErrorCode where
  | unauthorized
  | forbidden
  | notFound
  | userNotFound
  | jobNotFound
  | spotNotFound
  | spotImageNotFound
  | spotImageTooLarge
  | spotImageCountLimitExceeded
  | spotBusinessInfoNotFound
  | spotOptionNotFound
  | spotOptionAlreadyExists
  | spotGroupNotFound
  | spotGroupMemberNotFound
  | spotGroupMemberAlreadyExists
  | spotGroupSpotAlreadyExists
  | spotGroupLastOwnerRequired
  | spotGroupInviteNotAllowed
  | reviewNotFound
  | reviewAlreadyExists
  | reviewReportAlreadyExists
  | inviteNotFound
  | inviteNotAcceptable
  | conversationNotFound
  | messageNotFound
  | userBlocked
  | dbDumpNotReady
  | cursorScopeMismatch
  | rateLimited
  | validationError
  | internalError
  | serviceUnavailable
  | methodNotAllowed
  | conflict
  deriving DecidableEq

/-- `_DEFAULT_STATUS`. -/
def ErrorCode.status : ErrorCode → ℕ
  | .unauthorized => 401
  | .forbidden => 403
  | .notFound => 404
  | .userNotFound => 404
  | .jobNotFound => 404
  | .spotNotFound => 404
  | .spotImageNotFound => 404
  | .spotImageTooLarge => 422
  | .spotImageCountLimitExceeded => 422
  | .spotBusinessInfoNotFound => 404
  | .spotOptionNotFound => 404
  | .spotOptionAlreadyExists => 409
  | .spotGroupNotFound => 404
  | .spotGroupMemberNotFound => 404
  | .spotGroupMemberAlreadyExists => 409
  | .spotGroupSpotAlreadyExists => 409
  | .spotGroupLastOwnerRequired => 409
  | .spotGroupInviteNotAllowed => 403
  | .reviewNotFound => 404
  | .reviewAlreadyExists => 409
  | .reviewReportAlreadyExists => 409
  | .inviteNotFound => 404
  | .inviteNotAcceptable => 409
  | .conversationNotFound => 404
  | .messageNotFound => 404
  | .userBlocked => 403
  | .dbDumpNotReady => 409
  | .cursorScopeMismatch => 400
  | .rateLimited => 429
  | .validationError => 422
  | .internalError => 500
  | .serviceUnavailable => 503
  | .methodNotAllowed => 405
  | .conflict => 409

/-- An exception. A database error carries SQLAlchemy's class name and its whole
text; `client` is botocore's `ClientError`, `cancelled` is `asyncio.CancelledError`, which is not an
`Exception`. -/
inductive Exc where
  | app (code : ErrorCode) (message : String)
  | value (message : String)
  | runtime (message : String)
  | database (className message : String)
  | redis (message : String)
  | client (message : String)
  | index
  | overflow
  | cancelled
  deriving DecidableEq

namespace Exc

/-- What `except Exception` catches. -/
def isException : Exc → Bool
  | .cancelled => false
  | _ => true

/-- What `except ClientError` catches. -/
def isClientError : Exc → Bool
  | .client _ => true
  | _ => false

/-- `type(exc).__name__`. -/
def className : Exc → String
  | .app _ _ => "AppException"
  | .value _ => "ValueError"
  | .runtime _ => "RuntimeError"
  | .database c _ => c
  | .redis _ => "RedisError"
  | .client _ => "ClientError"
  | .index => "IndexError"
  | .overflow => "OverflowError"
  | .cancelled => "CancelledError"

/-- `str(exc)`. -/
def text : Exc → String
  | .app _ m => m
  | .value m => m
  | .runtime m => m
  | .database _ m => m
  | .redis m => m
  | .client m => m
  | .index => "list index out of range"
  | .overflow => "int too large to convert to float"
  | .cancelled => ""

end Exc

/-- The error response of a request. -/
structure ErrorResponse where
  status : ℕ
  code : ErrorCode
  message : String
  deriving DecidableEq

/-- The exception handlers of the application: what is not an `AppException` is told to nobody. -/
def Exc.response : Exc → ErrorResponse
  | .app code message => ⟨code.status, code, message⟩
  | _ => ⟨500, .internalError, "Internal server error"⟩

instance faultsExc : Faults Exc where
  failedTx := .database "InternalError"
    "current transaction is aborted, commands ignored until end of transaction block"
  lostConnection := .database "PendingRollbackError"
    "Can't reconnect until invalid transaction is rolled back."
  wrongType := .redis "value is not an integer or out of range"

/-- The text before the first occurrence of `sep`. -/
def beforeSeparator (sep : List Char) : List Char → List Char
  | [] => []
  | c :: cs => if sep.isPrefixOf (c :: cs) then [] else c :: beforeSeparator sep cs

/-- The form in which a job records an exception: its class and its message, without
the SQL text SQLAlchemy appends. -/
def sanitizeExcMessage (exc : Exc) (maxLen : ℕ := 500) : String :=
  let message := Py.strip Py.isSpace (beforeSeparator "\n[SQL:".toList exc.text.toList)
  let reason := if message.isEmpty then exc.className.toList
    else exc.className.toList ++ ": ".toList ++ message
  if maxLen < reason.length then String.ofList (reason.take maxLen ++ "...".toList)
  else String.ofList reason

end Vivac
