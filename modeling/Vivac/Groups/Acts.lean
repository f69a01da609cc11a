import Vivac.Access.Callers
import Vivac.Groups.Acceptances
import Vivac.Groups.LastOwner

/-!
# What may become of groups, members and invites

`GroupAct q d d'` is one act on the groups, their members and the invites, asked for by `q`, with
the authority that it takes: to create a group, to edit or delete one, to add, change or remove a
member, to invite, or to join through an invite. An act leaves every group an owner
(`GroupAct.owned`) and changes nothing without the authority (`GroupAct.governed`). An invite that
is there stays as it is, or is accepted, or goes with its group (`GroupAct.invite_after`).
-/

set_option autoImplicit false

namespace Vivac

open Lib

/-! ## Authority -/

/-- The role of a member has the rank of `minRole` at least. -/
def isMemberOf (minRole : GroupRole) (groupUid userUid : String) (d : Db) : Bool :=
  (d.members.find? (groupUid, userUid)).any fun m => decide (minRole.rank ≤ m.role.rank)

/-- The actor is an owner of the group, or on the staff as a MANAGER at least. -/
def Governs (actor : Option String) (groupUid : String) (d : Db) : Prop :=
  ∃ a, actor = some a ∧ (isOwner groupUid a d = true ∨ isStaffOf .manager a d = true)

/-- The actor is a member of the group of the rank of an EDITOR, or on the staff. -/
def MayEdit (actor : Option String) (groupUid : String) (d : Db) : Prop :=
  ∃ a, actor = some a ∧ (isMemberOf .editor groupUid a d = true ∨ isStaffOf .staff a d = true)

/-- The user has joined through an invite into the group, whose inviter was one of its owners. -/
def JoinedByOwner (groupUid userUid : String) (d d' : Db) : Prop :=
  ∃ v, d.invites.find? v.uid = some v ∧ v.groupUid = some groupUid ∧
    isOwner groupUid v.inviterUid d = true ∧ AcceptedBy v.uid userUid d'

/-- Groups, members and invites stay. -/
structure LeavesGroups (d d' : Db) : Prop where
  groups : d'.groups = d.groups
  members : d'.members = d.members
  invites : d'.invites = d.invites

/-- What is known of a request: when it comes and from whom, the invite it would accept, and the uid
of the invite it makes. -/
structure GroupRequest where
  now : Timestamp
  actor : Option String
  accepted : Option String := none
  made : Option String := none

/-- The user of the request has joined as the invite says, at an instant at which it was PENDING and
valid, and the invite is accepted. -/
structure Accepts (q : GroupRequest) (v : Invite) (m : SpotGroupMember) (d d' : Db) : Prop where
  accepted : q.accepted = some v.uid
  actor : q.actor = some m.userUid
  invite : d.invites.find? v.uid = some v
  pending : v.status = .pending
  group : v.groupUid = some m.groupUid
  valid : StillValid q.now v m.groupUid d
  role : v.groupRole = some m.role
  inviter : m.invitedByUid = some v.inviterUid
  fresh : d.members.find? (m.groupUid, m.userUid) = none
  groups : d'.groups = d.groups
  members : d'.members = d.members.insert m
  invites : d'.invites = (rewriteInvite v.uid (setAccepted q.now m.userUid) d).invites

/-- One act on groups, members and invites. -/
inductive GroupAct (q : GroupRequest) (d d' : Db) : Prop
  | stays (h : LeavesGroups d d')
  | creates (g : SpotGroup) (m : SpotGroupMember) (hactor : q.actor = some m.userUid)
      (hm : m.groupUid = g.uid) (hrole : m.role = .owner) (hfresh : d.groups.find? g.uid = none)
      (hnew : d.members.find? (g.uid, m.userUid) = none)
      (hgroups : d'.groups = d.groups.insert g) (hmembers : d'.members = d.members.insert m)
      (hinvites : d'.invites = d.invites)
  | edits (uid : String) (f : Rewrite SpotGroup.uid) (hmay : MayEdit q.actor uid d)
      (hgroups : d'.groups = d.groups.rewrite (fun g => g.uid == uid) f)
      (hmembers : d'.members = d.members) (hinvites : d'.invites = d.invites)
  | deletes (uid : String) (hmay : Governs q.actor uid d)
      (hgroups : d'.groups = d.groups.delete fun g => g.uid == uid)
      (hmembers : d'.members = d.members.delete fun m => m.groupUid == uid)
      (hinvites : d'.invites = d.invites.delete fun v => v.groupUid == some uid)
  | adds (m : SpotGroupMember) (hmay : Governs q.actor m.groupUid d)
      (hnew : d.members.find? (m.groupUid, m.userUid) = none) (hgroups : d'.groups = d.groups)
      (hmembers : d'.members = d.members.insert m) (hinvites : d'.invites = d.invites)
  | changes (k : MemberCall) (hmay : Governs q.actor k.groupUid d)
      (hkeeps : k.role = some .owner ∨ isOwner k.groupUid k.userUid d = false ∨
        1 < (owners k.groupUid d).length)
      (hgroups : d'.groups = d.groups) (hmembers : d'.members = (k.written d).members)
      (hinvites : d'.invites = d.invites)
  | invites (v : Invite) (hmade : q.made = some v.uid) (hactor : q.actor = some v.inviterUid)
      (hpending : v.status = .pending)
      (hmay : ∀ g, v.groupUid = some g → isOwner g v.inviterUid d = true)
      (hfresh : d.invites.find? v.uid = none) (hgroups : d'.groups = d.groups)
      (hmembers : d'.members = d.members) (hinvites : d'.invites = d.invites.insert v)
  | accepts (v : Invite) (m : SpotGroupMember) (h : Accepts q v m d d')

/-- Every group has an owner. -/
def EveryGroupOwned (d : Db) : Prop :=
  ∀ g, (d.groups.find? g).isSome = true → HasOwner g d

/-- What nobody does without authority: to add, change or remove a member of a group, but for
joining by an owner's invite and for the first member of a group one creates; to delete a group; and
to edit one. -/
structure Governed (actor : Option String) (d d' : Db) : Prop where
  members : ∀ g u, d'.members.find? (g, u) ≠ d.members.find? (g, u) → Governs actor g d ∨
    actor = some u ∧ d.members.find? (g, u) = none ∧
      (JoinedByOwner g u d d' ∨ d.groups.find? g = none ∧ isOwner g u d' = true)
  deleted : ∀ g, (d.groups.find? g).isSome = true → d'.groups.find? g = none → Governs actor g d
  edited : ∀ g row row', d.groups.find? g = some row → d'.groups.find? g = some row' →
    (row'.name, row'.description, row'.visibility) ≠ (row.name, row.description, row.visibility) →
    MayEdit actor g d

theorem LeavesGroups.refl (d : Db) : LeavesGroups d d := ⟨rfl, rfl, rfl⟩

theorem LeavesGroups.trans {a b c : Db} (hab : LeavesGroups a b) (hbc : LeavesGroups b c) :
    LeavesGroups a c :=
  ⟨hbc.groups.trans hab.groups, hbc.members.trans hab.members, hbc.invites.trans hab.invites⟩

/-- Another row than the one of a new member. -/
theorem find?_insert_member {d d' : Db} {m : SpotGroupMember} {g u : String}
    (h : d'.members = d.members.insert m)
    (hchanged : d'.members.find? (g, u) ≠ d.members.find? (g, u)) :
    g = m.groupUid ∧ u = m.userUid := by
  by_contra hne
  apply hchanged
  rw [h, Table.find?_insert_of_ne]
  intro hkey
  rw [Prod.mk.injEq] at hkey
  exact hne ⟨hkey.1.symm, hkey.2.symm⟩

/-- A request about one member writes the row of that member only. -/
theorem find?_written_of_ne {k : MemberCall} {d : Db} {g u : String}
    (h : (g, u) ≠ (k.groupUid, k.userUid)) :
    (k.written d).members.find? (g, u) = d.members.find? (g, u) := by
  have hother : ∀ m : SpotGroupMember, d.members.find? (g, u) = some m →
      (m.groupUid == k.groupUid && m.userUid == k.userUid) = false := by
    intro m hm
    have hkey := (Table.find?_eq_some.1 hm).2
    rw [Prod.mk.injEq] at hkey
    rw [Bool.eq_false_iff]
    intro hsame
    simp only [Bool.and_eq_true, beq_iff_eq] at hsame
    exact h (Prod.ext (hkey.1.symm.trans hsame.1) (hkey.2.symm.trans hsame.2))
  unfold MemberCall.written
  split
  · rw [writeRole, Table.find?_update]
    cases hm : d.members.find? (g, u) with
    | none => rfl
    | some m =>
        rw [Option.map_some, hother m hm]
        rfl
  · rw [dropMember, Table.find?_delete]
    cases hm : d.members.find? (g, u) with
    | none => rfl
    | some m => simp [Option.filter, hother m hm]

/-- The invite is accepted in the same act. -/
theorem Accepts.acceptedBy {q : GroupRequest} {v : Invite} {m : SpotGroupMember} {d d' : Db}
    (h : Accepts q v m d d') : AcceptedBy v.uid m.userUid d' := by
  refine ⟨{ v with status := .accepted, acceptedByUid := some m.userUid, acceptedAt := some q.now },
    ?_,
    rfl, rfl⟩
  rw [h.invites, find?_rewriteInvite, h.invite, Option.map_some, if_pos (beq_self_eq_true _)]
  rfl

namespace GroupAct

variable {q : GroupRequest} {d d' : Db}

/-! ## Owners -/

section Owned

theorem isOwner_congr (h : d'.members = d.members) (g u : String) :
    isOwner g u d' = isOwner g u d := by
  rw [isOwner, h, isOwner]

/-- The members of a table with one more are there still. -/
theorem isOwner_insert {m : SpotGroupMember} (h : d'.members = d.members.insert m) {g u : String}
    (hu : isOwner g u d = true) : isOwner g u d' = true := by
  obtain ⟨m', hm', hrole⟩ := (Option.any_eq_true _ _).1 hu
  rw [isOwner, h, Table.find?_insert_of_some hm']
  exact hrole

/-- A new member is there with its role. -/
theorem isOwner_insert_self {m : SpotGroupMember} (h : d'.members = d.members.insert m)
    (hnew : d.members.find? (m.groupUid, m.userUid) = none) (hrole : m.role = .owner) :
    isOwner m.groupUid m.userUid d' = true := by
  rw [isOwner, h, Table.find?_insert_self hnew]
  simp [hrole]

/-- Every group that has an owner keeps one, and a new group has one. -/
theorem owned (h : GroupAct q d d') (hd : EveryGroupOwned d) : EveryGroupOwned d' := by
  intro g hg
  -- an act that leaves the groups, and every owner
  have hsame : d'.groups = d.groups → (∀ u, isOwner g u d = true → isOwner g u d' = true) →
      HasOwner g d' := by
    intro hgroups howners
    rw [hgroups] at hg
    obtain ⟨u, hu⟩ := hd g hg
    exact ⟨u, howners u hu⟩
  cases h with
  | stays h => exact hsame h.groups fun u hu => by rwa [isOwner_congr h.members]
  | creates group m hactor hm hrole hfresh hnew hgroups hmembers hinvites =>
      rw [hgroups, Table.isSome_find?_insert, Bool.or_eq_true] at hg
      rcases hg with hold | hself
      · obtain ⟨u, hu⟩ := hd g hold
        exact ⟨u, isOwner_insert hmembers hu⟩
      · obtain rfl : group.uid = g := of_decide_eq_true hself
        rw [← hm] at hnew ⊢
        exact ⟨m.userUid, isOwner_insert_self hmembers hnew hrole⟩
  | edits uid f hmay hgroups hmembers hinvites =>
      rw [hgroups, Table.find?_rewrite, Option.isSome_map] at hg
      obtain ⟨u, hu⟩ := hd g hg
      exact ⟨u, by rwa [isOwner_congr hmembers]⟩
  | deletes uid hmay hgroups hmembers hinvites =>
      rw [hgroups, Table.find?_delete] at hg
      obtain ⟨group, hgroup⟩ := Option.isSome_iff_exists.1 hg
      obtain ⟨hfound, hother⟩ := Option.filter_eq_some_iff.1 hgroup
      have hne : g ≠ uid := by
        rw [← (Table.find?_eq_some.1 hfound).2]
        simpa using hother
      -- the members of another group are none of those deleted
      obtain ⟨u, hu⟩ := hd g (by rw [hfound]; rfl)
      obtain ⟨m, hm, hrole⟩ := (Option.any_eq_true _ _).1 hu
      have hkey : m.groupUid = g := congrArg Prod.fst (Table.find?_eq_some.1 hm).2
      refine ⟨u, ?_⟩
      rw [isOwner, hmembers, Table.find?_delete, hm, Option.filter_some]
      simp [hkey, hne, hrole]
  | adds m hmay hnew hgroups hmembers hinvites =>
      exact hsame hgroups fun u hu => isOwner_insert hmembers hu
  | changes k hmay hkeeps hgroups hmembers hinvites =>
      rw [hgroups] at hg
      have hkept : HasOwner g (k.written d) := by
        rcases hkeeps with howner | hplain | hcount
        · obtain ⟨u, hu⟩ := hd g hg
          exact ⟨u, isOwner_written_owner howner hu⟩
        · exact hasOwner_written_of_plain hplain (hd g hg)
        · obtain ⟨other, hne, hother⟩ := exists_other_owner hcount k.userUid
          exact hasOwner_written hne hother (hd g hg)
      obtain ⟨u, hu⟩ := hkept
      exact ⟨u, by rwa [isOwner_congr hmembers]⟩
  | invites v hmade hactor hpending hmay hfresh hgroups hmembers hinvites =>
      exact hsame hgroups fun u hu => by rwa [isOwner_congr hmembers]
  | accepts v m h => exact hsame h.groups fun u hu => isOwner_insert h.members hu

end Owned

/-! ## Authority -/

section Governed

/-- The members change under authority only. -/
theorem governed_members (h : GroupAct q d d') {g u : String}
    (hchanged : d'.members.find? (g, u) ≠ d.members.find? (g, u)) : Governs q.actor g d ∨
      q.actor = some u ∧ d.members.find? (g, u) = none ∧
        (JoinedByOwner g u d d' ∨ d.groups.find? g = none ∧ isOwner g u d' = true) := by
  cases h with
  | stays h => exact absurd (by rw [h.members]) hchanged
  | creates group m hactor hm hrole hfresh hnew hgroups hmembers hinvites =>
      obtain ⟨rfl, rfl⟩ := find?_insert_member hmembers hchanged
      rw [← hm] at hnew hfresh
      exact .inr ⟨hactor, hnew, .inr ⟨hfresh, isOwner_insert_self hmembers hnew hrole⟩⟩
  | edits uid f hmay hgroups hmembers hinvites => exact absurd (by rw [hmembers]) hchanged
  | deletes uid hmay hgroups hmembers hinvites =>
      -- only members of the deleted group are gone
      have hg : g = uid := by
        by_contra hne
        apply hchanged
        rw [hmembers, Table.find?_delete]
        cases hm : d.members.find? (g, u) with
        | none => rfl
        | some m =>
            have hkey : m.groupUid = g := congrArg Prod.fst (Table.find?_eq_some.1 hm).2
            simp [Option.filter, hkey, hne]
      rw [hg]
      exact .inl hmay
  | adds m hmay hnew hgroups hmembers hinvites =>
      obtain ⟨rfl, rfl⟩ := find?_insert_member hmembers hchanged
      exact .inl hmay
  | changes k hmay hkeeps hgroups hmembers hinvites =>
      have hkey : (g, u) = (k.groupUid, k.userUid) := by
        by_contra hne
        apply hchanged
        rw [hmembers, find?_written_of_ne hne]
      rw [(Prod.mk.inj hkey).1]
      exact .inl hmay
  | invites v hmade hactor hpending hmay hfresh hgroups hmembers hinvites =>
      exact absurd (by rw [hmembers]) hchanged
  | accepts v m h =>
      obtain ⟨rfl, rfl⟩ := find?_insert_member h.members hchanged
      exact .inr ⟨h.actor, h.fresh, .inl ⟨v, h.invite, h.group, h.valid.owner, h.acceptedBy⟩⟩

/-- What no act does without authority. -/
theorem governed (h : GroupAct q d d') : Governed q.actor d d' := by
  have hchanged := fun g u => h.governed_members (g := g) (u := u)
  -- an act that leaves the groups deletes and edits none
  have hsame : d'.groups = d.groups → Governed q.actor d d' := by
    intro hgroups
    refine ⟨hchanged, fun g hg hnone => ?_, fun g row row' hrow hrow' hne => ?_⟩
    · rw [hgroups] at hnone
      rw [hnone] at hg
      cases hg
    · rw [hgroups, hrow] at hrow'
      cases hrow'
      exact absurd rfl hne
  cases h with
  | stays hstays => exact hsame hstays.groups
  | creates group m hactor hm hrole hfresh hnew hgroups hmembers hinvites =>
      refine ⟨hchanged, fun g hg hnone => ?_, fun g row row' hrow hrow' hne => ?_⟩
      · rw [hgroups] at hnone
        obtain ⟨row, hrow⟩ := Option.isSome_iff_exists.1 hg
        rw [Table.find?_insert_of_some hrow] at hnone
        cases hnone
      · rw [hgroups, Table.find?_insert_of_some hrow] at hrow'
        cases hrow'
        exact absurd rfl hne
  | edits uid f hmay hgroups hmembers hinvites =>
      refine ⟨hchanged, fun g hg hnone => ?_, fun g row row' hrow hrow' hne => ?_⟩
      · rw [hgroups, Table.find?_rewrite, Option.map_eq_none_iff] at hnone
        rw [hnone] at hg
        cases hg
      · -- the row of another group is not rewritten
        by_cases hg : g = uid
        · rw [hg]
          exact hmay
        · have hkey : row.uid = g := (Table.find?_eq_some.1 hrow).2
          rw [hgroups, Table.find?_rewrite, hrow, Option.map_some,
            if_neg (by simp [hkey, hg])] at hrow'
          cases hrow'
          exact absurd rfl hne
  | deletes uid hmay hgroups hmembers hinvites =>
      refine ⟨hchanged, fun g hg hnone => ?_, fun g row row' hrow hrow' hne => ?_⟩
      · obtain ⟨row, hrow⟩ := Option.isSome_iff_exists.1 hg
        have hkey : row.uid = g := (Table.find?_eq_some.1 hrow).2
        rw [hgroups, Table.find?_delete, hrow] at hnone
        by_cases hsame : g = uid
        · rw [hsame]
          exact hmay
        · simp [Option.filter, hkey, hsame] at hnone
      · rw [hgroups, Table.find?_delete, hrow] at hrow'
        cases (Option.filter_eq_some_iff.1 hrow').1
        exact absurd rfl hne
  | adds m hmay hnew hgroups hmembers hinvites => exact hsame hgroups
  | changes k hmay hkeeps hgroups hmembers hinvites => exact hsame hgroups
  | invites v hmade hactor hpending hmay hfresh hgroups hmembers hinvites => exact hsame hgroups
  | accepts v m h => exact hsame h.groups

end Governed

/-! ## Invites -/

section Invites

/-- An invite that is there stays as it is, or is accepted, or goes with its group. -/
theorem invite_after (h : GroupAct q d d') {uid : String} {v : Invite}
    (hv : d.invites.find? uid = some v) : d'.invites.find? uid = some v ∨
      (v.groupUid.isSome = true ∧ (d'.invites.find? uid = none ∨
        v.status = .pending ∧ ∃ u, d'.invites.find? uid = (setAccepted q.now u).apply v)) := by
  have hsame : d'.invites = d.invites → d'.invites.find? uid = some v := by
    intro hinvites
    rw [hinvites, hv]
  cases h with
  | stays h => exact .inl (hsame h.invites)
  | creates group m hactor hm hrole hfresh hnew hgroups hmembers hinvites =>
      exact .inl (hsame hinvites)
  | edits uid f hmay hgroups hmembers hinvites => exact .inl (hsame hinvites)
  | deletes g hmay hgroups hmembers hinvites =>
      rw [hinvites, Table.find?_delete, hv]
      by_cases hg : v.groupUid = some g
      · exact .inr ⟨by rw [hg]; rfl, .inl (by simp [Option.filter, hg])⟩
      · exact .inl (by simp [Option.filter, hg])
  | adds m hmay hnew hgroups hmembers hinvites => exact .inl (hsame hinvites)
  | changes k hmay hkeeps hgroups hmembers hinvites => exact .inl (hsame hinvites)
  | invites w hmade hactor hpending hmay hfresh hgroups hmembers hinvites =>
      exact .inl (by rw [hinvites, Table.find?_insert_of_some hv])
  | accepts w m h =>
      have hkey : v.uid = uid := (Table.find?_eq_some.1 hv).2
      rw [h.invites, find?_rewriteInvite, hv, Option.map_some]
      by_cases hw : uid = w.uid
      · have hvw : v = w := by
          rw [hw, h.invite] at hv
          exact (Option.some.inj hv).symm
        subst hvw
        refine .inr ⟨by rw [h.group]; rfl, .inr ⟨h.pending, m.userUid, ?_⟩⟩
        rw [if_pos (beq_self_eq_true _)]
        rfl
      · exact .inl (by rw [if_neg (by simp [hkey, hw])])

/-- A new invite is the one that the request makes. -/
theorem made_of_new (h : GroupAct q d d') {uid : String} (hnone : d.invites.find? uid = none)
    (hsome : (d'.invites.find? uid).isSome = true) : q.made = some uid := by
  have hsame : d'.invites = d.invites → q.made = some uid := by
    intro hinvites
    rw [hinvites, hnone] at hsome
    cases hsome
  cases h with
  | stays h => exact hsame h.invites
  | creates group m hactor hm hrole hfresh hnew hgroups hmembers hinvites => exact hsame hinvites
  | edits uid f hmay hgroups hmembers hinvites => exact hsame hinvites
  | deletes g hmay hgroups hmembers hinvites =>
      rw [hinvites, Table.find?_delete, hnone] at hsome
      cases hsome
  | adds m hmay hnew hgroups hmembers hinvites => exact hsame hinvites
  | changes k hmay hkeeps hgroups hmembers hinvites => exact hsame hinvites
  | invites w hmade hactor hpending hmay hfresh hgroups hmembers hinvites =>
      rw [hinvites, Table.isSome_find?_insert, hnone] at hsome
      have huid : w.uid = uid := by simpa using hsome
      rw [hmade, huid]
  | accepts w m h =>
      rw [h.invites, find?_rewriteInvite, hnone] at hsome
      cases hsome

end Invites

end GroupAct

end Vivac
