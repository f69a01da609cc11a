import Vivac.Endpoints.Conversations

/-!
# The block endpoints

`endpoints/user_blocks.py`. Both are idempotent: a user who is blocked stays so, and lifting a block
that is not there is no error.
-/

set_option autoImplicit false

namespace Vivac.UserBlocks

open Lib App

/-- `block_user`. -/
def blockUser (now : Timestamp) (userUid : String) (credentials : Credentials) : App Unit := do
  let user ← getCurrentUser credentials
  if userUid = user.uid then
    .raise (.app .validationError "자기 자신은 차단할 수 없습니다")
  else do
    Conversations.requireUser userUid
    let _ ← Vivac.blockUser now user.uid userUid

/-- `unblock_user`. -/
def unblockUser (userUid : String) (credentials : Credentials) : App Unit := do
  let user ← getCurrentUser credentials
  Vivac.unblockUser user.uid userUid

end Vivac.UserBlocks
