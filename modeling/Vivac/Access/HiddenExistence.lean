import Vivac.Core.SampleBackend
import Vivac.Endpoints.Conversations
import Vivac.Endpoints.SpotGroups
import Vivac.Lib.LoneSession

/-!
# Existence is hidden from outsiders

A group that is not PUBLIC answers a caller who is not a member as if it were not there, and so
does a conversation a caller who takes no part. That much is written down in the endpoints; it
holds of the answer of a request whenever the request gets as far as the membership check
(`concealed_iff`). Two things come before it. The group or the conversation is looked up before
the caller, so that a caller who is refused as such learns whether there was something to look
up; and `POST /v1/invites` refuses a PRIVATE group before it asks for the membership. A route with
a limit looks the caller up first, if there are credentials at all.
-/

set_option autoImplicit false

namespace Vivac.Access

open Lib App

/-! ## Requests -/

/-- The requests about one group or one conversation, without its uid and the credentials. -/
inductive Request where
  | getGroup
  | updateGroup (data : List GroupAttr)
  | deleteGroup
  | listGroupSpots (offset limit : ℕ)
  | addGroupSpot (spotUid : String)
  | removeGroupSpot (spotUid : String)
  | listGroupMembers
  | inviteGroupMember (userUid : String) (role : GroupRole)
  | updateGroupMemberRole (userUid : String) (role : GroupRole)
  | removeGroupMember (userUid : String)
  | createInvite (peer : Peer) (inviteUid : String) (role : GroupRole)
  | getConversation
  | listMessages (cursor : Option String) (limit : ℕ)
  | sendMessage (peer : Peer) (started : Timestamp) (messageUid content : String)
  | markConversationRead
  | deleteMessage (messageUid : String)

/-- `p`, of whose answer only the refusal matters. -/
def ignoring {α : Type} (p : App α) : App Unit := p.bind fun _ => .ret ()

namespace Request

/-- The endpoint of a request. -/
def program (cfg : Settings) (be : Backend) (now : Timestamp) (r : Request) (uid : String)
    (c : Credentials) : App Unit :=
  match r with
  | .getGroup => ignoring (SpotGroups.getGroup uid c)
  | .updateGroup data => ignoring (SpotGroups.updateGroup now uid c data)
  | .deleteGroup => SpotGroups.deleteGroup uid c
  | .listGroupSpots offset limit => ignoring (SpotGroups.listGroupSpots be uid c offset limit)
  | .addGroupSpot spotUid => ignoring (SpotGroups.addGroupSpot cfg be now uid c spotUid)
  | .removeGroupSpot spotUid => SpotGroups.removeGroupSpot uid c spotUid
  | .listGroupMembers => ignoring (SpotGroups.listGroupMembers uid c)
  | .inviteGroupMember userUid role =>
    ignoring (SpotGroups.inviteGroupMember now uid c userUid role)
  | .updateGroupMemberRole userUid role =>
    ignoring (SpotGroups.updateGroupMemberRole uid c userUid role)
  | .removeGroupMember userUid => SpotGroups.removeGroupMember uid c userUid
  | .createInvite peer inviteUid role =>
    ignoring (Invites.createInvite now inviteUid peer c
      { groupUid := some uid, groupRole := some role })
  | .getConversation => ignoring (Conversations.getConversation uid c)
  | .listMessages cursor limit => ignoring (Conversations.listMessages be uid c cursor limit)
  | .sendMessage peer started messageUid content =>
    ignoring (Conversations.sendMessage now started messageUid uid peer c content)
  | .markConversationRead => Conversations.markConversationRead now uid c
  | .deleteMessage messageUid => Conversations.deleteMessage now uid messageUid c

/-- What an endpoint asks of its caller: to read a group, to be a member of it, to be one who may
invite into it, or to take part in a conversation. The routes of an invite and of a message have
limits. -/
inductive Guard where
  | reader
  | member
  | inviter (peer : Peer)
  | participant
  | sender (peer : Peer)

def guard : Request → Guard
  | .getGroup => .reader
  | .listGroupSpots _ _ => .reader
  | .createInvite peer _ _ => .inviter peer
  | .getConversation => .participant
  | .listMessages _ _ => .participant
  | .sendMessage peer _ _ _ => .sender peer
  | .markConversationRead => .participant
  | .deleteMessage _ => .participant
  | _ => .member

end Request

/-! ## Callers -/

/-- The active user behind the credentials. -/
def caller? (d : Db) : Credentials → Option User
  | .access sub => (d.users.find? sub).filter User.isActive
  | _ => none

/-- A group that is not PUBLIC, and that the caller is no member of. -/
def HiddenGroup (d : Db) (uid : String) (c : Credentials) : Prop :=
  (∃ group, d.groups.find? uid = some group ∧ group.visibility ≠ .isPublic) ∧
    ∀ user ∈ caller? d c, d.members.find? (uid, user.uid) = none

/-- A conversation that the caller takes no part in. -/
def HiddenConversation (d : Db) (uid : String) (c : Credentials) : Prop :=
  (∃ conversation, d.conversations.find? uid = some conversation) ∧ ∀ user ∈ caller? d c,
    (d.participants.find? (uid, user.uid)).filter (fun p => p.leftAt.isNone) = none

namespace Request.Guard

/-- What is under the uid is hidden from the caller. -/
def HiddenFrom (g : Guard) (d : Db) (uid : String) (c : Credentials) : Prop :=
  match g with
  | .participant | .sender _ => HiddenConversation d uid c
  | _ => HiddenGroup d uid c

/-- There is nothing under the uid. -/
def Missing (g : Guard) (d : Db) (uid : String) : Prop :=
  match g with
  | .participant | .sender _ => d.conversations.find? uid = none
  | _ => d.groups.find? uid = none

/-- The request gets as far as the membership check, or is refused before it asks for the uid. -/
def Reaches (g : Guard) (d : Db) (uid : String) (c : Credentials) : Prop :=
  match g with
  | .reader => c = .missing ∨ (caller? d c).isSome
  | .inviter peer => ∀ user ∈ caller? d c, peer.exceeds Invites.createLimit (some user) = false →
    ∀ group ∈ d.groups.find? uid, group.visibility ≠ .isPrivate
  | .sender peer => c = .missing → peer.exceeds Conversations.sendLimit none = true
  | _ => (caller? d c).isSome

end Request.Guard

/-! ## Answers -/

/-- The answer of a request by itself. -/
def respond (d : Db) (p : App Unit) : Option (Except ErrorResponse Unit) :=
  (runAlone (fun i => exec i) () (withSession p) (World.fresh d)).map fun out =>
    out.1.mapError Exc.response

theorem sees_fresh (d : Db) : Sees () d [] d (World.fresh d : State Unit) where
  holds := { db_eq := rfl, free := rfl, alive := by simp [World.fresh], saved := rfl }
  active := rfl
  view_eq := rfl

/-- Closing the session leaves its answer as it is. -/
theorem runAlone_closeSession (r : Except Exc Unit) (s : State Unit) :
    ∃ s', runAlone (fun i => exec i) () (closeSession r) s = some (r, s') := by
  cases r with
  | ok a => exact ⟨_, rfl⟩
  | error e => exact ⟨_, rfl⟩

/-- A refusal of the endpoint is the answer of the request. -/
theorem respond_of_evaluates {p : App Unit} {d : Db} {e : Exc} (h : Evaluates p d (.error e)) :
    respond d p = some (.error e.response) := by
  obtain ⟨r, s, hrun, hends⟩ := Lone.of_evaluates (i := ()) h d [] _ (sees_fresh d)
  obtain ⟨rfl, -⟩ := hends
  obtain ⟨s', hclose⟩ := runAlone_closeSession (.error e) s
  have hsession : runAlone (fun i => exec i) () (withSession p) (World.fresh d) =
      some (.error e, s') := by
    rw [withSession, runAlone_bind, runAlone_attempt, hrun]
    exact hclose
  rw [respond, hsession]
  rfl

/-! ## Dependencies -/

section Dependencies

variable {d : Db} {uid : String} {c : Credentials} {user : User} {group : SpotGroup}
  {conversation : Conversation}

/-- The refusal of a caller. -/
def Unauthenticated (e : Exc) : Prop :=
  ∃ code message, (code = .unauthorized ∨ code = .forbidden) ∧ e = .app code message

theorem caller?_access {sub : String} (h : caller? d (.access sub) = some user) :
    d.users.find? sub = some user ∧ user.isActive = true :=
  Option.filter_eq_some_iff.1 h

theorem evaluates_getCurrentUser (h : caller? d c = some user) :
    Evaluates (getCurrentUser c) d (.ok (user, d)) := by
  cases c with
  | access sub =>
      obtain ⟨hfind, hactive⟩ := caller?_access h
      apply Evaluates.select
      rw [hfind]
      simp only [hactive, if_true]
      exact .ret user d
  | missing => cases h
  | invalid => cases h
  | otherType => cases h

theorem refuses_getCurrentUser (h : caller? d c = none) :
    ∃ e, Unauthenticated e ∧ Evaluates (getCurrentUser c) d (.error e) := by
  cases c with
  | access sub =>
      cases hfind : d.users.find? sub with
      | none =>
          refine ⟨_, ⟨_, "User not found", .inl rfl, rfl⟩, ?_⟩
          apply Evaluates.select
          rw [hfind]
          exact .raise _ d
      | some user =>
          have hinactive : user.isActive = false := by
            simpa [caller?, hfind, Option.filter] using h
          refine ⟨_, ⟨_, "Inactive user", .inr rfl, rfl⟩, ?_⟩
          apply Evaluates.select
          rw [hfind]
          simp only [hinactive, Bool.false_eq_true, if_false]
          exact .raise _ d
  | missing => exact ⟨_, ⟨_, _, .inl rfl, rfl⟩, .raise _ d⟩
  | invalid => exact ⟨_, ⟨_, _, .inl rfl, rfl⟩, .raise _ d⟩
  | otherType => exact ⟨_, ⟨_, _, .inl rfl, rfl⟩, .raise _ d⟩

theorem evaluates_findGroup (h : d.groups.find? uid = some group) :
    Evaluates (SpotGroups.findGroup uid) d (.ok (group, d)) := by
  apply Evaluates.select
  rw [h]
  exact .ret group d

theorem refuses_findGroup (h : d.groups.find? uid = none) :
    Evaluates (SpotGroups.findGroup uid) d (.error spotGroupNotFound) := by
  apply Evaluates.select
  rw [h]
  exact .raise _ d

theorem evaluates_findConversation (h : d.conversations.find? uid = some conversation) :
    Evaluates (Conversations.findConversation uid) d (.ok (conversation, d)) := by
  apply Evaluates.select
  rw [h]
  exact .ret conversation d

theorem refuses_findConversation (h : d.conversations.find? uid = none) :
    Evaluates (Conversations.findConversation uid) d (.error conversationNotFound) := by
  apply Evaluates.select
  rw [h]
  exact .raise _ d

/-! ## What an outsider is told -/

/-- Nothing is under the uid of a group. -/
theorem refuses_membershipOr404 (h : d.groups.find? uid = none) :
    Evaluates (SpotGroups.membershipOr404 uid c) d (.error spotGroupNotFound) :=
  (refuses_findGroup h).bind_error

/-- A group is there, and its caller is no member. -/
theorem refuses_outsider (h : d.groups.find? uid = some group) (hc : caller? d c = some user)
    (hout : d.members.find? (uid, user.uid) = none) :
    Evaluates (SpotGroups.membershipOr404 uid c) d (.error spotGroupNotFound) := by
  have huid : group.uid = uid := (Table.find?_eq_some.1 h).2
  apply (evaluates_findGroup h).bind_ok
  apply (evaluates_getCurrentUser hc).bind_ok
  apply Evaluates.bind_error
  apply Evaluates.select
  rw [huid, hout]
  exact .raise _ d

/-- A group is there, and the caller is refused as such. -/
theorem refuses_caller (h : d.groups.find? uid = some group) (hc : caller? d c = none) :
    ∃ e, Unauthenticated e ∧ Evaluates (SpotGroups.membershipOr404 uid c) d (.error e) := by
  obtain ⟨e, he, heval⟩ := refuses_getCurrentUser hc
  exact ⟨e, he, (evaluates_findGroup h).bind_ok heval.bind_error⟩

theorem refuses_readableGroup (h : d.groups.find? uid = none) :
    Evaluates (SpotGroups.readableGroup uid c) d (.error spotGroupNotFound) :=
  (refuses_findGroup h).bind_error

/-- A group that nobody may read without a membership. -/
theorem refuses_reader {reader : Option User} (hvis : group.visibility ≠ .isPublic)
    (hout : ∀ user ∈ reader, d.members.find? (group.uid, user.uid) = none) :
    Evaluates (SpotGroups.requireReadable group reader) d (.error spotGroupNotFound) := by
  have hpublic : (group.visibility == GroupVisibility.isPublic) = false := by simpa using hvis
  simp only [SpotGroups.requireReadable, hpublic, Bool.false_eq_true, if_false]
  cases reader with
  | none => exact .raise _ d
  | some user =>
      apply Evaluates.select
      rw [hout user rfl]
      exact .raise _ d

theorem getCurrentUserOptional_eq (h : c ≠ .missing) :
    getCurrentUserOptional c = (getCurrentUser c).bind fun user => .ret (some user) := by
  cases c with
  | missing => exact absurd rfl h
  | _ => rfl

/-- Credentials of an active user. -/
theorem evaluates_getCurrentUserOptional (h : caller? d c = some user) :
    Evaluates (getCurrentUserOptional c) d (.ok (some user, d)) := by
  have hgiven : c ≠ .missing := by
    rintro rfl
    cases h
  rw [getCurrentUserOptional_eq hgiven]
  exact (evaluates_getCurrentUser h).bind_ok (.ret _ d)

/-- Credentials that are of no use. -/
theorem refuses_getCurrentUserOptional (h : caller? d c = none) (hgiven : c ≠ .missing) :
    ∃ e, Unauthenticated e ∧ Evaluates (getCurrentUserOptional c) d (.error e) := by
  obtain ⟨e, he, heval⟩ := refuses_getCurrentUser h
  refine ⟨e, he, ?_⟩
  rw [getCurrentUserOptional_eq hgiven]
  exact heval.bind_error

theorem refuses_unreadable (h : d.groups.find? uid = some group)
    (hvis : group.visibility ≠ .isPublic)
    (hout : ∀ user ∈ caller? d c, d.members.find? (uid, user.uid) = none)
    (hc : c = .missing ∨ (caller? d c).isSome) :
    Evaluates (SpotGroups.readableGroup uid c) d (.error spotGroupNotFound) := by
  have huid : group.uid = uid := (Table.find?_eq_some.1 h).2
  rw [← huid] at hout
  apply (evaluates_findGroup h).bind_ok
  rcases hc with rfl | hc
  · have hnobody : ∀ user ∈ (none : Option User), d.members.find? (group.uid, user.uid) = none := by
      intro user h
      cases h
    exact (Evaluates.ret none d).bind_ok (refuses_reader hvis hnobody).bind_error
  · obtain ⟨user, hc⟩ := Option.isSome_iff_exists.1 hc
    apply (evaluates_getCurrentUserOptional hc).bind_ok
    apply Evaluates.bind_error
    apply refuses_reader hvis
    intro reader hreader
    cases hreader
    exact hout _ hc

/-- A group is there, and the credentials are of no use. -/
theorem refuses_credentials (h : d.groups.find? uid = some group) (hc : caller? d c = none)
    (hgiven : c ≠ .missing) :
    ∃ e, Unauthenticated e ∧ Evaluates (SpotGroups.readableGroup uid c) d (.error e) := by
  obtain ⟨e, he, heval⟩ := refuses_getCurrentUserOptional hc hgiven
  exact ⟨e, he, (evaluates_findGroup h).bind_ok heval.bind_error⟩

theorem refuses_activeParticipant (h : d.conversations.find? uid = none) :
    Evaluates (Conversations.activeParticipant uid c) d (.error conversationNotFound) :=
  (refuses_findConversation h).bind_error

/-- A conversation is there, and the caller takes no part in it. -/
theorem refuses_stranger (h : d.conversations.find? uid = some conversation)
    (hc : caller? d c = some user)
    (hout : (d.participants.find? (uid, user.uid)).filter (fun p => p.leftAt.isNone) = none) :
    Evaluates (Conversations.activeParticipant uid c) d (.error conversationNotFound) := by
  have huid : conversation.uid = uid := (Table.find?_eq_some.1 h).2
  apply (evaluates_findConversation h).bind_ok
  apply (evaluates_getCurrentUser hc).bind_ok
  apply Evaluates.bind_error
  apply Evaluates.select
  rw [huid, hout]
  exact .raise _ d

/-- A conversation is there, and the caller is refused as such. -/
theorem refuses_anonymous (h : d.conversations.find? uid = some conversation)
    (hc : caller? d c = none) :
    ∃ e, Unauthenticated e ∧ Evaluates (Conversations.activeParticipant uid c) d (.error e) := by
  obtain ⟨e, he, heval⟩ := refuses_getCurrentUser hc
  exact ⟨e, he, (evaluates_findConversation h).bind_ok heval.bind_error⟩

/-- An invite into a group that is not there. -/
theorem refuses_noGroup (h : d.groups.find? uid = none) :
    Evaluates (Invites.checkInviter user uid) d (.error spotGroupNotFound) := by
  apply Evaluates.select
  rw [h]
  exact .raise _ d

/-- An invite into a PRIVATE group: nobody is asked for a membership. -/
theorem refuses_private (h : d.groups.find? uid = some group)
    (hvis : group.visibility = .isPrivate) :
    Evaluates (Invites.checkInviter user uid) d (.error spotGroupInviteNotAllowed) := by
  apply Evaluates.select
  rw [h]
  simp only [hvis, beq_self_eq_true, if_true]
  exact .raise _ d

/-- An invite into a group that others may be invited into. -/
theorem refuses_notMember (h : d.groups.find? uid = some group)
    (hvis : group.visibility ≠ .isPrivate) (hout : d.members.find? (uid, user.uid) = none) :
    Evaluates (Invites.checkInviter user uid) d (.error spotGroupNotFound) := by
  have huid : group.uid = uid := (Table.find?_eq_some.1 h).2
  have hprivate : (group.visibility == GroupVisibility.isPrivate) = false := by simpa using hvis
  apply Evaluates.select
  rw [h]
  simp only [hprivate, Bool.false_eq_true, if_false]
  apply Evaluates.select
  rw [huid, hout]
  exact .raise _ d

/-! ## Limits -/

variable {scope : LimitScope} {peer : Peer} {found : Option User}

/-- A request beyond the limit. -/
theorem refuses_checkRateLimit (huser : Evaluates (getCurrentUserOptional c) d (.ok (found, d)))
    (h : peer.exceeds scope found = true) :
    Evaluates (checkRateLimit scope peer c) d (.error (rateLimited scope)) := by
  apply huser.bind_ok
  obtain ⟨n, hn, htimes⟩ := (Option.any_eq_true _ _).1 h
  simp only [hn, decideLimit, of_decide_eq_true htimes, if_true]
  exact .raise _ d

/-- A request within the limit. -/
theorem evaluates_checkRateLimit
    (huser : Evaluates (getCurrentUserOptional c) d (.ok (found, d)))
    (h : peer.exceeds scope found = false) :
    Evaluates (checkRateLimit scope peer c) d (.ok ((), d)) := by
  apply huser.bind_ok
  unfold Peer.exceeds at h
  cases hn : peer.count scope found with
  | none => exact .ret () d
  | some n =>
      rw [hn] at h
      have htimes : ¬scope.times < n := of_decide_eq_false h
      simp only [decideLimit, htimes, if_false]
      exact .ret () d

/-- The limit of a route stops an active caller, or lets the caller through. -/
theorem checkRateLimit_cases (scope : LimitScope) (peer : Peer) (h : caller? d c = some user) :
    (∃ e, peer.exceeds scope (some user) = true ∧
      Evaluates (checkRateLimit scope peer c) d (.error e)) ∨
    (peer.exceeds scope (some user) = false ∧
      Evaluates (checkRateLimit scope peer c) d (.ok ((), d))) := by
  cases hexceeds : peer.exceeds scope (some user) with
  | true =>
      exact .inl ⟨_, rfl, refuses_checkRateLimit (evaluates_getCurrentUserOptional h) hexceeds⟩
  | false =>
      exact .inr ⟨rfl, evaluates_checkRateLimit (evaluates_getCurrentUserOptional h) hexceeds⟩

end Dependencies

/-! ## Endpoints -/

section Endpoints

variable (cfg : Settings) (be : Backend) (now : Timestamp) {d : Db} {r : Request} {c : Credentials}
  {e : Exc}

section Refusals

variable {uid : String}

/-- Who may not read a group gets no answer about it. -/
theorem refuses_of_reader (hr : r.guard = .reader)
    (h : Evaluates (SpotGroups.readableGroup uid c) d (.error e)) :
    Evaluates (r.program cfg be now uid c) d (.error e) := by
  cases r with
  | getGroup => exact h.bind_error.bind_error
  | listGroupSpots offset limit => exact h.bind_error.bind_error
  | _ => cases hr

/-- Who is no member of a group can do nothing to it. -/
theorem refuses_of_member (hr : r.guard = .member)
    (h : Evaluates (SpotGroups.membershipOr404 uid c) d (.error e)) :
    Evaluates (r.program cfg be now uid c) d (.error e) := by
  have hrole : ∀ minRole, Evaluates (SpotGroups.requireGroupRole minRole uid c) d (.error e) :=
    fun _ => h.bind_error
  cases r with
  | updateGroup data => exact (hrole .editor).bind_error.bind_error
  | deleteGroup => exact (hrole .owner).bind_error
  | addGroupSpot spotUid => exact (hrole .contributor).bind_error.bind_error
  | removeGroupSpot spotUid => exact (hrole .editor).bind_error
  | listGroupMembers => exact (hrole .viewer).bind_error.bind_error
  | inviteGroupMember userUid role => exact (hrole .owner).bind_error.bind_error
  | updateGroupMemberRole userUid role => exact (hrole .owner).bind_error.bind_error
  | removeGroupMember userUid => exact (hrole .owner).bind_error
  | _ => cases hr

/-- Who takes no part in a conversation can do nothing in it. -/
theorem refuses_of_participant (hr : r.guard = .participant)
    (h : Evaluates (Conversations.activeParticipant uid c) d (.error e)) :
    Evaluates (r.program cfg be now uid c) d (.error e) := by
  cases r with
  | getConversation => exact h.bind_error.bind_error
  | listMessages cursor limit => exact h.bind_error.bind_error
  | markConversationRead => exact h.bind_error
  | deleteMessage messageUid => exact h.bind_error
  | _ => cases hr

variable {peer : Peer}

/-- Whom the limit of a route stops does not get to the conversation. -/
theorem refuses_of_sendLimit (hr : r.guard = .sender peer)
    (h : Evaluates (checkRateLimit Conversations.sendLimit peer c) d (.error e)) :
    Evaluates (r.program cfg be now uid c) d (.error e) := by
  cases r with
  | sendMessage peer' started messageUid content =>
      cases hr
      exact h.bind_error.bind_error
  | _ => cases hr

/-- Who takes no part in a conversation sends no message to it. -/
theorem refuses_of_sender (hr : r.guard = .sender peer)
    (hlimit : Evaluates (checkRateLimit Conversations.sendLimit peer c) d (.ok ((), d)))
    (h : Evaluates (Conversations.activeParticipant uid c) d (.error e)) :
    Evaluates (r.program cfg be now uid c) d (.error e) := by
  cases r with
  | sendMessage peer' started messageUid content =>
      cases hr
      exact (hlimit.bind_ok h.bind_error).bind_error
  | _ => cases hr

/-- Whom the limit of a route stops does not get to the group of an invite. -/
theorem refuses_of_createLimit (hr : r.guard = .inviter peer)
    (h : Evaluates (checkRateLimit Invites.createLimit peer c) d (.error e)) :
    Evaluates (r.program cfg be now uid c) d (.error e) := by
  cases r with
  | createInvite peer' inviteUid role =>
      cases hr
      exact h.bind_error.bind_error
  | _ => cases hr

/-- A caller who is refused as such does not get to the group of an invite. -/
theorem refuses_of_caller (hr : r.guard = .inviter peer)
    (hlimit : Evaluates (checkRateLimit Invites.createLimit peer c) d (.ok ((), d)))
    (h : Evaluates (getCurrentUser c) d (.error e)) :
    Evaluates (r.program cfg be now uid c) d (.error e) := by
  cases r with
  | createInvite peer' inviteUid role =>
      cases hr
      exact (hlimit.bind_ok h.bind_error).bind_error
  | _ => cases hr

/-- Who may not invite into a group creates no invite. -/
theorem refuses_of_inviter {user : User} (hr : r.guard = .inviter peer)
    (hlimit : Evaluates (checkRateLimit Invites.createLimit peer c) d (.ok ((), d)))
    (hc : caller? d c = some user) (h : Evaluates (Invites.checkInviter user uid) d (.error e)) :
    Evaluates (r.program cfg be now uid c) d (.error e) := by
  cases r with
  | createInvite peer' inviteUid role =>
      cases hr
      exact (hlimit.bind_ok ((evaluates_getCurrentUser hc).bind_ok h.bind_error)).bind_error
  | _ => cases hr

end Refusals

/-! ## Two requests -/

/-- Two refusals look alike, or they do not. -/
theorem respond_eq_iff {p q : App Unit} {e' : Exc} (hp : Evaluates p d (.error e))
    (hq : Evaluates q d (.error e')) : respond d p = respond d q ↔ e.response = e'.response := by
  rw [respond_of_evaluates hp, respond_of_evaluates hq]
  simp

/-- The refusal of a caller does not look like the absence of a group or a conversation. -/
theorem Unauthenticated.response_ne (h : Unauthenticated e) {e' : Exc}
    (he' : e' = spotGroupNotFound ∨ e' = conversationNotFound) : e.response ≠ e'.response := by
  obtain ⟨code, message, hcode, rfl⟩ := h
  rintro heq
  have hsame : code = e'.response.code := congrArg ErrorResponse.code heq
  rcases he' with rfl | rfl <;> rcases hcode with rfl | rfl <;> cases hsame

variable {uid missing : String}

/-- A request of a reader. -/
theorem reader_iff (hr : r.guard = .reader) (hhidden : HiddenGroup d uid c)
    (hmissing : d.groups.find? missing = none) :
    respond d (r.program cfg be now uid c) = respond d (r.program cfg be now missing c) ↔
      (c = .missing ∨ (caller? d c).isSome) := by
  obtain ⟨⟨group, hgroup, hvis⟩, hout⟩ := hhidden
  have hnone := refuses_of_reader cfg be now hr
    (refuses_readableGroup (c := c) hmissing)
  by_cases hc : c = .missing ∨ (caller? d c).isSome
  · have hsome := refuses_of_reader cfg be now hr
      (refuses_unreadable hgroup hvis hout hc)
    exact iff_of_true ((respond_eq_iff hsome hnone).2 rfl) hc
  · obtain ⟨hgiven, hnobody⟩ := not_or.1 hc
    obtain ⟨e, he, heval⟩ := refuses_credentials hgroup (by simpa using hnobody) hgiven
    have hsome := refuses_of_reader cfg be now hr heval
    exact iff_of_false (fun h => he.response_ne (.inl rfl) ((respond_eq_iff hsome hnone).1 h)) hc

/-- A request of a member. -/
theorem member_iff (hr : r.guard = .member) (hhidden : HiddenGroup d uid c)
    (hmissing : d.groups.find? missing = none) :
    respond d (r.program cfg be now uid c) = respond d (r.program cfg be now missing c) ↔
      (caller? d c).isSome := by
  obtain ⟨⟨group, hgroup, hvis⟩, hout⟩ := hhidden
  have hnone := refuses_of_member cfg be now hr
    (refuses_membershipOr404 (c := c) hmissing)
  cases hc : caller? d c with
  | some user =>
      have hsome := refuses_of_member cfg be now hr
        (refuses_outsider hgroup hc (hout user hc))
      exact iff_of_true ((respond_eq_iff hsome hnone).2 rfl) rfl
  | none =>
      obtain ⟨e, he, heval⟩ := refuses_caller hgroup hc
      have hsome := refuses_of_member cfg be now hr heval
      have hne := he.response_ne (.inl rfl)
      exact iff_of_false (fun h => hne ((respond_eq_iff hsome hnone).1 h)) (by simp)

/-- A request of a participant. -/
theorem participant_iff (hr : r.guard = .participant) (hhidden : HiddenConversation d uid c)
    (hmissing : d.conversations.find? missing = none) :
    respond d (r.program cfg be now uid c) = respond d (r.program cfg be now missing c) ↔
      (caller? d c).isSome := by
  obtain ⟨⟨conversation, hconversation⟩, hout⟩ := hhidden
  have hnone := refuses_of_participant cfg be now hr
    (refuses_activeParticipant (c := c) hmissing)
  cases hc : caller? d c with
  | some user =>
      have hsome := refuses_of_participant cfg be now hr
        (refuses_stranger hconversation hc (hout user hc))
      exact iff_of_true ((respond_eq_iff hsome hnone).2 rfl) rfl
  | none =>
      obtain ⟨e, he, heval⟩ := refuses_anonymous hconversation hc
      have hsome := refuses_of_participant cfg be now hr heval
      have hne := he.response_ne (.inr rfl)
      exact iff_of_false (fun h => hne ((respond_eq_iff hsome hnone).1 h)) (by simp)

/-- Two requests that are refused before they ask for what they are about. -/
theorem respond_eq_of_refused
    (h : ∃ e, ∀ any, Evaluates (r.program cfg be now any c) d (.error e)) :
    respond d (r.program cfg be now uid c) = respond d (r.program cfg be now missing c) := by
  obtain ⟨e, hrefused⟩ := h
  exact (respond_eq_iff (hrefused uid) (hrefused missing)).2 rfl

/-- A message. The limit of the route looks the caller up before the conversation, but only where
there are credentials. -/
theorem sender_iff {peer : Peer} (hr : r.guard = .sender peer)
    (hhidden : HiddenConversation d uid c) (hmissing : d.conversations.find? missing = none) :
    respond d (r.program cfg be now uid c) = respond d (r.program cfg be now missing c) ↔
      (c = .missing → peer.exceeds Conversations.sendLimit none = true) := by
  obtain ⟨⟨conversation, hconversation⟩, hout⟩ := hhidden
  cases hc : caller? d c with
  | some user =>
      have hgiven : c ≠ .missing := by
        rintro rfl
        cases hc
      refine iff_of_true ?_ fun h => absurd h hgiven
      rcases checkRateLimit_cases Conversations.sendLimit peer hc with
        ⟨e, -, hstops⟩ | ⟨-, hlimit⟩
      · exact respond_eq_of_refused cfg be now ⟨e, fun _ =>
          refuses_of_sendLimit cfg be now hr hstops⟩
      · have hsome := refuses_of_sender cfg be now hr hlimit
          (refuses_stranger hconversation hc (hout user hc))
        have hnone := refuses_of_sender cfg be now hr hlimit
          (refuses_activeParticipant (c := c) hmissing)
        exact (respond_eq_iff hsome hnone).2 rfl
  | none =>
      by_cases hgiven : c = .missing
      · subst hgiven
        have huser : Evaluates (getCurrentUserOptional .missing) d (.ok (none, d)) := .ret none d
        cases hexceeds : peer.exceeds Conversations.sendLimit none with
        | true =>
            have hstops := refuses_checkRateLimit huser hexceeds
            exact iff_of_true (respond_eq_of_refused cfg be now
              ⟨_, fun _ => refuses_of_sendLimit cfg be now hr hstops⟩) fun _ => rfl
        | false =>
            -- nobody has been looked up yet, and the conversation comes first
            have hlimit := evaluates_checkRateLimit huser hexceeds
            obtain ⟨e, he, heval⟩ := refuses_anonymous hconversation hc
            have hsome := refuses_of_sender cfg be now hr hlimit heval
            have hnone := refuses_of_sender cfg be now hr hlimit
              (refuses_activeParticipant (c := .missing) hmissing)
            refine iff_of_false (fun h => ?_) (by simp)
            exact he.response_ne (.inr rfl) ((respond_eq_iff hsome hnone).1 h)
      · refine iff_of_true ?_ fun h => absurd h hgiven
        obtain ⟨e, -, heval⟩ := refuses_getCurrentUserOptional hc hgiven
        exact respond_eq_of_refused cfg be now
          ⟨e, fun _ => refuses_of_sendLimit cfg be now hr heval.bind_error⟩

/-- An invite into a group. The caller comes first here, but the visibility before the
membership. -/
theorem inviter_iff {peer : Peer} (hr : r.guard = .inviter peer) (hhidden : HiddenGroup d uid c)
    (hmissing : d.groups.find? missing = none) :
    respond d (r.program cfg be now uid c) = respond d (r.program cfg be now missing c) ↔
      ∀ user ∈ caller? d c, peer.exceeds Invites.createLimit (some user) = false →
        ∀ group ∈ d.groups.find? uid, group.visibility ≠ .isPrivate := by
  obtain ⟨⟨group, hgroup, hvis⟩, hout⟩ := hhidden
  cases hc : caller? d c with
  | none =>
      refine iff_of_true (respond_eq_of_refused cfg be now ?_) (by simp)
      by_cases hgiven : c = .missing
      · subst hgiven
        have huser : Evaluates (getCurrentUserOptional .missing) d (.ok (none, d)) := .ret none d
        cases hexceeds : peer.exceeds Invites.createLimit none with
        | true =>
            exact ⟨_, fun _ =>
              refuses_of_createLimit cfg be now hr (refuses_checkRateLimit huser hexceeds)⟩
        | false =>
            obtain ⟨e, -, heval⟩ := refuses_getCurrentUser hc
            exact ⟨e, fun _ =>
              refuses_of_caller cfg be now hr (evaluates_checkRateLimit huser hexceeds) heval⟩
      · obtain ⟨e, -, heval⟩ := refuses_getCurrentUserOptional hc hgiven
        exact ⟨e, fun _ => refuses_of_createLimit cfg be now hr heval.bind_error⟩
  | some user =>
      rcases checkRateLimit_cases Invites.createLimit peer hc with
        ⟨e, hexceeds, hstops⟩ | ⟨hexceeds, hlimit⟩
      · refine iff_of_true (respond_eq_of_refused cfg be now
          ⟨e, fun _ => refuses_of_createLimit cfg be now hr hstops⟩) fun other hother hwithin => ?_
        cases hother
        rw [hexceeds] at hwithin
        cases hwithin
      have hnone := refuses_of_inviter cfg be now hr hlimit hc (refuses_noGroup hmissing)
      by_cases hprivate : group.visibility = .isPrivate
      · have hsome := refuses_of_inviter cfg be now hr hlimit hc (refuses_private hgroup hprivate)
        have hne : spotGroupInviteNotAllowed.response ≠ spotGroupNotFound.response := by decide
        refine iff_of_false (fun h => hne ((respond_eq_iff hsome hnone).1 h)) fun h => ?_
        exact h user rfl hexceeds group hgroup hprivate
      · have hsome := refuses_of_inviter cfg be now hr hlimit hc
          (refuses_notMember hgroup hprivate (hout user hc))
        refine iff_of_true ((respond_eq_iff hsome hnone).2 rfl) fun _ _ _ other hother => ?_
        rw [hgroup] at hother
        cases hother
        exact hprivate

/-- **A group or conversation hidden from a caller answers every request as a missing one does,
exactly where the request reaches the membership check.** -/
theorem concealed_iff (d : Db) (r : Request) (uid missing : String) (c : Credentials)
    (hhidden : r.guard.HiddenFrom d uid c) (hmissing : r.guard.Missing d missing) :
    respond d (r.program cfg be now uid c) = respond d (r.program cfg be now missing c) ↔
      r.guard.Reaches d uid c := by
  cases hr : r.guard with
  | reader =>
      rw [hr] at hhidden hmissing
      exact reader_iff cfg be now hr hhidden hmissing
  | member =>
      rw [hr] at hhidden hmissing
      exact member_iff cfg be now hr hhidden hmissing
  | inviter peer =>
      rw [hr] at hhidden hmissing
      exact inviter_iff cfg be now hr hhidden hmissing
  | participant =>
      rw [hr] at hhidden hmissing
      exact participant_iff cfg be now hr hhidden hmissing
  | sender peer =>
      rw [hr] at hhidden hmissing
      exact sender_iff cfg be now hr hhidden hmissing

end Endpoints

/-! ## A private group and a stranger -/

/-- A PRIVATE group of one user, and another user. -/
def ownersGroup : Db where
  __ := Db.empty
  users := ⟨[Sample.user "keeper", Sample.user "a"], by decide⟩
  groups := ⟨[{ uid := "g", name := "Camps" }], by decide⟩
  members := ⟨[{ groupUid := "g", userUid := "keeper", role := .owner }], by decide⟩

theorem hidden_ownersGroup : HiddenGroup ownersGroup "g" (.access "a") := by
  refine ⟨⟨_, rfl, by decide⟩, fun stranger hstranger => ?_⟩
  cases hstranger
  decide

/-- A member of no group deletes none, whether it is there or not. -/
theorem concealed_iff_stranger :
    respond ownersGroup (Request.deleteGroup.program Sample.settings Sample.backend 0 "g"
        (.access "a")) =
      respond ownersGroup (Request.deleteGroup.program Sample.settings Sample.backend 0
        "x" (.access "a")) :=
  (concealed_iff Sample.settings Sample.backend 0 ownersGroup .deleteGroup "g" "x"
    (.access "a") hidden_ownersGroup rfl).2 rfl

/-- An invite tells a stranger that there is a PRIVATE group. -/
theorem not_concealed :
    ¬∀ (cfg : Settings) (be : Backend) (now : Timestamp) (d : Db) (r : Request)
      (uid missing : String) (c : Credentials), r.guard.HiddenFrom d uid c →
        r.guard.Missing d missing →
        respond d (r.program cfg be now uid c) = respond d (r.program cfg be now missing c) := by
  intro h
  have hinvite := h Sample.settings Sample.backend 0 ownersGroup
    (.createInvite {} "i" .viewer) "g" "x" (.access "a") hidden_ownersGroup rfl
  cases hinvite

end Vivac.Access
