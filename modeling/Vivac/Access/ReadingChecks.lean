import Vivac.Core.Contracts
import Vivac.Endpoints.InternalSpotGroups

/-!
# Checks that only read

The dependencies of the endpoints issue `SELECT`s and nothing else (`ReadOnly`): who calls, in which
role, and whether there is what the request is about.
-/

set_option autoImplicit false

namespace Vivac

open Lib App

theorem readOnly_getCurrentUser (credentials : Credentials) :
    ReadOnly (getCurrentUser credentials) := by
  cases credentials with
  | access sub =>
      apply (ReadOnly.select _).bind
      intro found
      split
      · exact .raise _
      · split
        · exact .ret _
        · exact .raise _
  | missing => exact .raise _
  | invalid => exact .raise _
  | otherType => exact .raise _

theorem readOnly_requireStaff (credentials : Credentials) :
    ReadOnly (requireStaff credentials) := by
  apply (readOnly_getCurrentUser credentials).bind
  intro user
  split
  · exact .ret _
  · exact .raise _

theorem readOnly_findSpot (cfg : Settings) (uid : String) :
    ReadOnly (InternalSpots.findSpot cfg uid) := by
  apply ReadOnly.bind
  · exact ReadOnly.select _
  intro found
  split
  · exact .ret _
  · exact .raise _

theorem readOnly_whenever {c : Bool} {p : App Unit} (hp : ReadOnly p) :
    ReadOnly (whenever c p) := by
  unfold whenever
  split
  · exact hp
  · exact .ret _

/-- Credentials that may be missing. -/
theorem readOnly_getCurrentUserOptional (credentials : Credentials) :
    ReadOnly (getCurrentUserOptional credentials) := by
  have hsome : ReadOnly ((getCurrentUser credentials).bind fun user => .ret (some user)) :=
    (readOnly_getCurrentUser credentials).bind fun _ => .ret _
  cases credentials with
  | missing => exact .ret _
  | _ => exact hsome

/-- The limit of a route changes nothing. -/
theorem readOnly_checkRateLimit (scope : LimitScope) (peer : Peer) (credentials : Credentials) :
    ReadOnly (checkRateLimit scope peer credentials) := by
  apply (readOnly_getCurrentUserOptional credentials).bind
  intro user
  unfold decideLimit
  split
  · split
    · exact .raise _
    · exact .ret _
  · exact .ret _

theorem readOnly_requireStaffRole (minRole : StaffRole) (credentials : Credentials) :
    ReadOnly (InternalSpots.requireStaffRole minRole credentials) := by
  apply (readOnly_requireStaff credentials).bind
  intro staff
  apply (readOnly_whenever (.raise _)).bind
  intro _
  exact .ret _

theorem readOnly_findGroup (groupUid : String) : ReadOnly (SpotGroups.findGroup groupUid) := by
  apply (ReadOnly.select _).bind
  intro found
  split
  · exact .ret _
  · exact .raise _

theorem readOnly_requireGroupRole (minRole : GroupRole) (groupUid : String)
    (credentials : Credentials) :
    ReadOnly (SpotGroups.requireGroupRole minRole groupUid credentials) := by
  have hmember : ReadOnly (SpotGroups.membershipOr404 groupUid credentials) := by
    apply (readOnly_findGroup groupUid).bind
    intro group
    apply (readOnly_getCurrentUser credentials).bind
    intro user
    apply ReadOnly.bind
    · apply (ReadOnly.select _).bind
      intro found
      split
      · exact .ret _
      · exact .raise _
    · intro membership
      exact .ret _
  apply hmember.bind
  rintro ⟨group, membership⟩
  dsimp only
  split
  · exact .raise _
  · exact .ret _

end Vivac
