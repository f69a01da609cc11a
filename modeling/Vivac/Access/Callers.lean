import Vivac.Core.Contracts
import Vivac.Endpoints.InternalSpots

/-!
# Callers of lone requests

What a request that runs by itself knows of its caller once the checks of `core/deps.py` are passed:
the token names a user that is there (`IsCaller`), who is on the staff, with a rank (`isStaffOf`),
where the endpoint asks for it.
-/

set_option autoImplicit false

namespace Vivac

open Lib App

/-- The user that a token names. -/
def Credentials.userUid : Credentials → Option String
  | .access sub => some sub
  | _ => none

/-- The user is on the staff, with the rank of `minRole` at least. -/
def isStaffOf (minRole : StaffRole) (userUid : String) (d : Db) : Bool :=
  (d.users.find? userUid).any fun u => u.isStaff && decide (minRole.rank ≤ u.staffRole.rank)

/-- The token names a user that is there. -/
structure IsCaller (credentials : Credentials) (user : User) (d : Db) : Prop where
  named : credentials.userUid = some user.uid
  found : d.users.find? user.uid = some user

section Checks

variable {ι : Type} [DecidableEq ι] {i : ι} {db : Db} {credentials : Credentials}

theorem lone_caller :
    Lone i (Sees i db [] db) (getCurrentUser credentials)
      (HasRead i db fun user => IsCaller credentials user db) := by
  cases credentials with
  | access sub =>
      apply Lone.bind_ok (Lone.read fun d : Db => d.users.find? sub)
      cases hfound : db.users.find? sub with
      | none => exact Lone.raise _ fun s hs => hs.holds
      | some user =>
          have huid : user.uid = sub := (Table.find?_eq_some.1 hfound).2
          dsimp only
          split
          · exact Lone.ret _ fun s hs => ⟨⟨by rw [huid]; rfl, by rw [huid, hfound]⟩, hs⟩
          · exact Lone.raise _ fun s hs => hs.holds
  | missing => exact Lone.raise _ fun s hs => hs.holds
  | invalid => exact Lone.raise _ fun s hs => hs.holds
  | otherType => exact Lone.raise _ fun s hs => hs.holds

theorem lone_requireStaff :
    Lone i (Sees i db [] db) (requireStaff credentials)
      (HasRead i db fun user => IsCaller credentials user db ∧ user.isStaff = true) := by
  apply lone_read_bind lone_caller _ fun _ _ hs => hs
  intro user huser
  split
  · rename_i hstaff
    exact Lone.ret _ fun s hs => ⟨⟨huser, hstaff⟩, hs⟩
  · exact Lone.raise _ fun s hs => hs.holds

theorem isStaffOf_of {user : User} (h : db.users.find? user.uid = some user)
    (hstaff : user.isStaff = true) {minRole : StaffRole}
    (hrank : minRole.rank ≤ user.staffRole.rank) : isStaffOf minRole user.uid db = true := by
  rw [isStaffOf, h, Option.any_some, hstaff, Bool.true_and]
  exact decide_eq_true hrank

/-- A staff user of the lowest rank at least. -/
theorem isStaffOf_staff {user : User} (h : db.users.find? user.uid = some user)
    (hstaff : user.isStaff = true) : isStaffOf .staff user.uid db = true := by
  apply isStaffOf_of h hstaff
  cases user.staffRole <;> simp [StaffRole.rank]

theorem lone_requireStaffRole {minRole : StaffRole} :
    Lone i (Sees i db [] db) (InternalSpots.requireStaffRole minRole credentials)
      (HasRead i db fun user => IsCaller credentials user db ∧
        isStaffOf minRole user.uid db = true) := by
  apply lone_read_bind lone_requireStaff _ fun _ _ hs => hs
  rintro user ⟨huser, hstaff⟩
  unfold requireRole whenever
  split
  · exact Lone.raise _ fun s hs => hs.holds
  · rename_i hrank
    refine Lone.ret _ fun s hs => ⟨⟨huser, isStaffOf_of huser.found hstaff ?_⟩, hs⟩
    simpa using hrank

end Checks

end Vivac
