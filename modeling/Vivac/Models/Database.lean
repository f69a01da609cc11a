import Vivac.Lib.Table
import Vivac.Models.Records

/-!
# The database

The tables, the row and index entries a transaction can lock, and the changes a
statement reports. Tables keep their primary keys by construction.
-/

set_option autoImplicit false

namespace Vivac

open Lib

/-- The uid format the tables check: 22 ASCII letters and digits. -/
def hasUidFormat (uid : String) : Bool := uid.length == 22 && uid.toList.all fun c => c.isAlphanum

/-- The tables. -/
structure Db where
  spots : Table Spot.uid
  images : Table SpotImage.uid
  reviews : Table SpotReview.uid
  groups : Table SpotGroup.uid
  members : Table fun m : SpotGroupMember => (m.groupUid, m.userUid)
  groupSpots : Table fun g : SpotGroupSpot => (g.groupUid, g.spotUid)
  messages : Table Message.uid
  businessInfo : Table SpotBusinessInfo.uid
  jobs : Table Job.uid
  users : Table User.uid
  invites : Table Invite.uid
  conversations : Table Conversation.uid
  participants : Table fun p : ConversationParticipant => (p.conversationUid, p.userUid)
  blocks : Table fun b : UserBlock => (b.blockerUid, b.blockedUid)
  fieldOptions : Table fun o : SpotFieldOption => (o.field, o.code)

/-- The database without rows. -/
def Db.empty : Db :=
  ⟨.empty, .empty, .empty, .empty, .empty, .empty, .empty, .empty, .empty, .empty, .empty, .empty,
    .empty, .empty, .empty⟩

/-- What a transaction can lock: a row, or an entry of a unique index. -/
inductive RowKey where
  | spot (uid : String)
  | spotSource (source externalId : String)
  | image (uid : String)
  | review (uid : String)
  | activeReview (spotUid userId : String)
  | group (uid : String)
  | member (groupUid userUid : String)
  | groupSpot (groupUid spotUid : String)
  | message (uid : String)
  | businessInfo (uid : String)
  | businessInfoOf (spotUid : String)
  | job (uid : String)
  | user (uid : String)
  | userEmail (email : String)
  | userGoogleSub (googleSub : String)
  | userNickname (nickname : String)
  | invite (uid : String)
  | conversation (uid : String)
  | participant (conversationUid userUid : String)
  | block (blockerUid blockedUid : String)
  | fieldOption (field : SpotOptionField) (code : String)
  deriving DecidableEq

/-- A row that a statement changed, with the columns it set. An image names its spot; the
claim of a job and its failure as an orphan are told apart from its other changes. -/
inductive Change where
  | spot (uid : String) (columns : List String)
  | image (uid spotUid : String)
  | review (uid : String)
  | group (uid : String)
  | member (groupUid userUid : String)
  | groupSpot (groupUid spotUid : String)
  | businessInfo (uid : String)
  | job (uid : String)
  | claim (jobUid : String)
  | orphan (jobUid : String)
  | user (uid : String)
  | invite (uid : String)
  | conversation (uid : String)
  | participant (conversationUid userUid : String)
  | message (uid : String)
  | block (blockerUid blockedUid : String)
  | fieldOption (field : SpotOptionField) (code : String)
  deriving DecidableEq

end Vivac
