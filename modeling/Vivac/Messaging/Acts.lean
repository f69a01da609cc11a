import Vivac.Access.Callers
import Vivac.Endpoints.UserBlocks
import Vivac.Messaging.DirectPairs

/-!
# What may become of conversations and messages

`MessagingAct q d d'` is one act on conversations, their participants and messages, asked for by
`q`: to open a conversation, to store a message, to mark what is read, or to hide a message. An act
keeps what the block check relies on: a DIRECT conversation has two participants, who are different
users and have not left it, and no pair of users has two (`DirectInOrder`, `MessagingAct.inOrder`).
What an act stores or hides, it may (`MessagingAct.guarded`).
-/

set_option autoImplicit false

namespace Vivac.Messaging

open Lib

/-! ## Conversations of two -/

/-- The participants of a conversation, each with the time it left. -/
def partiesOf (conversationUid : String) (d : Db) : List (String × Option Timestamp) :=
  (d.participants.select fun p => p.conversationUid == conversationUid).map fun p =>
    (p.userUid, p.leftAt)

/-- The conversation is one of two different users, who have not left it. -/
def IsPair (conversationUid : String) (d : Db) : Prop :=
  ∃ a b, a ≠ b ∧ partiesOf conversationUid d = [(a, none), (b, none)]

/-- Every DIRECT conversation is one of two users, and no two users have two. -/
structure DirectInOrder (d : Db) : Prop where
  known : ParticipantsKnown d
  pairs : ∀ c ∈ d.conversations.rows, c.type = .direct → IsPair c.uid d
  unique : DirectUnique d

section Pairs

variable {d d' : Db} {conversationUid a b : String}

theorem activeParticipantUids_eq (conversationUid : String) (d : Db) :
    activeParticipantUids conversationUid d =
      ((partiesOf conversationUid d).filter fun p => p.2.isNone).map Prod.fst := by
  unfold activeParticipantUids partiesOf Table.select
  rw [List.filter_map, List.map_map, List.filter_filter]
  congr 1
  apply List.filter_congr
  intro p _
  exact Bool.and_comm _ _

/-- Both users of a pair take part in it. -/
theorem activeParticipantUids_of_pair
    (h : partiesOf conversationUid d = [(a, none), (b, none)]) :
    activeParticipantUids conversationUid d = [a, b] := by
  rw [activeParticipantUids_eq, h]
  rfl

theorem isSome_party (conversationUid userUid : String) (d : Db) :
    (d.participants.find? (conversationUid, userUid)).isSome = true ↔
      userUid ∈ (partiesOf conversationUid d).map Prod.fst := by
  unfold partiesOf
  rw [List.map_map, List.mem_map, Option.isSome_iff_exists]
  constructor
  · rintro ⟨p, hp⟩
    obtain ⟨hmem, hkey⟩ := Table.find?_eq_some.1 hp
    rw [Prod.mk.injEq] at hkey
    exact ⟨p, Table.mem_select.2 ⟨hmem, by simpa using hkey.1⟩, hkey.2⟩
  · rintro ⟨p, hp, rfl⟩
    obtain ⟨hmem, hconversation⟩ := Table.mem_select.1 hp
    exact ⟨p, Table.find?_eq_some.2 ⟨hmem, by simpa using hconversation⟩⟩

theorem blockBetween_comm (a b : String) (d : Db) : blockBetween a b d = blockBetween b a d := by
  unfold blockBetween
  congr 1
  funext x
  exact Bool.or_comm _ _

/-- No two DIRECT conversations are of one pair of users. -/
theorem DirectInOrder.eq_of_pair (h : DirectInOrder d) {c c' : Conversation}
    (hc : c ∈ d.conversations.rows) (hc' : c' ∈ d.conversations.rows) (hdirect : c.type = .direct)
    (hdirect' : c'.type = .direct)
    (hsame : ∀ u, u ∈ (partiesOf c.uid d).map Prod.fst ↔ u ∈ (partiesOf c'.uid d).map Prod.fst) :
    c = c' := by
  obtain ⟨a, b, hab, hpair⟩ := h.pairs c hc hdirect
  have ha : a ∈ (partiesOf c.uid d).map Prod.fst := by
    simp [hpair]
  have hb : b ∈ (partiesOf c.uid d).map Prod.fst := by
    simp [hpair]
  have hmem : ∀ x ∈ d.conversations.rows, x.type = .direct → a ∈ (partiesOf x.uid d).map Prod.fst →
      b ∈ (partiesOf x.uid d).map Prod.fst → x ∈ directConversations a b d := by
    intro x hx hxdirect hxa hxb
    refine Table.mem_select.2 ⟨hx, ?_⟩
    rw [(isSome_party x.uid a d).2 hxa, (isSome_party x.uid b d).2 hxb, hxdirect]
    rfl
  have hone := h.unique a b hab
  have hfound := hmem c hc hdirect ha hb
  have hfound' := hmem c' hc' hdirect' ((hsame a).1 ha) ((hsame b).1 hb)
  -- both are in a list of one element at most
  cases hlist : directConversations a b d with
  | nil =>
      rw [hlist] at hfound
      cases hfound
  | cons x xs =>
      rw [hlist] at hone hfound hfound'
      obtain rfl : xs = [] := List.eq_nil_of_length_eq_zero (by simpa using hone)
      rw [List.mem_singleton] at hfound hfound'
      rw [hfound, hfound']

end Pairs

/-! ## Acts -/

/-- The conversations stay, but for the times of their updates. -/
def SameConversations (d d' : Db) : Prop :=
  ∃ f : Conversation → Conversation, (∀ c, (f c).uid = c.uid) ∧ (∀ c, (f c).type = c.type) ∧
    d'.conversations.rows = d.conversations.rows.map f

/-- The sender takes part in the conversation, and if it is DIRECT no block stands between the
sender and the other participant that the check asks for. -/
structure MayStore (caller : Option String) (m : Message) (d : Db) : Prop where
  sender : caller = some m.senderUid
  active : m.senderUid ∈ activeParticipantUids m.conversationUid d
  unblocked : ∀ c, d.conversations.find? m.conversationUid = some c → c.type = .direct →
    ∀ other, ((activeParticipantUids m.conversationUid d).filter (· != m.senderUid)).head? =
      some other → blockBetween m.senderUid other d = false

/-- One act on conversations, participants and messages, by the caller. -/
inductive MessagingAct (caller : Option String) (d d' : Db) : Prop
  | stays (hconversations : d'.conversations = d.conversations)
      (hparticipants : d'.participants = d.participants) (hmessages : d'.messages = d.messages)
  | opens (now : Timestamp) (c : Conversation) (userUids : List String)
      (hnew : d.conversations.find? c.uid = none) (hnodup : userUids.Nodup)
      (hpair : c.type = .direct → ∃ a b, a ≠ b ∧ userUids = [a, b] ∧ directConversations a b d = [])
      (hd : d' = openConversation now c userUids d)
  | stores (m : Message) (hmay : MayStore caller m d) (hnew : d.messages.find? m.uid = none)
      (hlive : m.deletedAt = none) (hconversations : SameConversations d d')
      (hparticipants : d'.participants = d.participants)
      (hmessages : d'.messages = d.messages.insert m)
  | reads (conversationUid userUid : String) (now : Timestamp)
      (hconversations : d'.conversations = d.conversations)
      (hparticipants : d'.participants =
        (rewriteParticipant conversationUid userUid now d).participants)
      (hmessages : d'.messages = d.messages)
  | hides (m : Message) (now : Timestamp) (hfound : d.messages.find? m.uid = some m)
      (hsender : caller = some m.senderUid) (hconversations : d'.conversations = d.conversations)
      (hparticipants : d'.participants = d.participants)
      (hmessages : d'.messages = (hideMessage m.uid now d).messages)

/-! ## What every act keeps -/

section Order

variable {caller : Option String} {d d' : Db}

theorem SameConversations.of_eq (h : d'.conversations = d.conversations) : SameConversations d d' :=
  ⟨id, fun _ => rfl, fun _ => rfl, by rw [h, List.map_id]⟩

theorem partiesOf_of_eq (h : d'.participants = d.participants) (conversationUid : String) :
    partiesOf conversationUid d' = partiesOf conversationUid d := by
  rw [partiesOf, partiesOf, h]

theorem partiesOf_rewriteParticipant (conversationUid userUid : String) (now : Timestamp)
    (u : String) (d : Db) :
    partiesOf u (rewriteParticipant conversationUid userUid now d) = partiesOf u d := by
  unfold partiesOf rewriteParticipant
  apply Table.map_select_update
  · exact fun _ => rfl
  · exact fun _ => rfl
  · exact fun _ => rfl

/-- The rows of the participants of a new conversation. -/
theorem rows_addParticipants {now : Timestamp} {conversationUid : String} {userUids : List String}
    (hnew : ∀ u ∈ userUids, d.participants.find? (conversationUid, u) = none)
    (hnodup : userUids.Nodup) :
    (addParticipants now conversationUid userUids d).participants.rows =
      d.participants.rows ++ userUids.map (newParticipant now conversationUid) := by
  have hfold : ∀ t : Table fun p : ConversationParticipant => (p.conversationUid, p.userUid),
      (∀ u ∈ userUids, t.find? (conversationUid, u) = none) →
      (userUids.foldl (fun t u => t.insert (newParticipant now conversationUid u)) t).rows =
        t.rows ++ userUids.map (newParticipant now conversationUid) := by
    clear hnew
    induction userUids with
    | nil =>
        intro t _
        simp
    | cons u us ih =>
        intro t hnone
        rw [List.nodup_cons] at hnodup
        have hfresh : ∀ r ∈ t.rows, (r.conversationUid, r.userUid) ≠ (conversationUid, u) :=
          Table.find?_eq_none.1 (hnone u List.mem_cons_self)
        rw [List.foldl_cons, ih hnodup.2, Table.rows_insert_of_new hfresh, List.append_assoc]
        · rfl
        · intro v hv
          rw [Table.find?_insert_of_ne]
          · exact hnone v (List.mem_cons_of_mem _ hv)
          · intro hkey
            have huv : u = v := congrArg Prod.snd hkey
            exact hnodup.1 (huv ▸ hv)
  exact hfold d.participants hnew

/-- A new conversation has its own participants, and the others have theirs. -/
theorem partiesOf_open {now : Timestamp} {c : Conversation} {userUids : List String}
    (hknown : ParticipantsKnown d) (hnew : d.conversations.find? c.uid = none)
    (hnodup : userUids.Nodup) (u : String) :
    partiesOf u (openConversation now c userUids d) =
      partiesOf u d ++ if c.uid = u then userUids.map fun v => (v, none) else [] := by
  have hrows : (openConversation now c userUids d).participants.rows =
      d.participants.rows ++ userUids.map (newParticipant now c.uid) :=
    rows_addParticipants (fun v _ => hknown.find?_none hnew) hnodup
  unfold partiesOf Table.select
  rw [hrows, List.filter_append, List.map_append]
  congr 1
  by_cases hu : c.uid = u
  · rw [if_pos hu, List.filter_eq_self.2]
    · rw [List.map_map]
      rfl
    · intro p hp
      obtain ⟨v, -, rfl⟩ := List.mem_map.1 hp
      simpa [newParticipant] using hu
  · rw [if_neg hu, List.filter_eq_nil_iff.2]
    · rfl
    · intro p hp
      obtain ⟨v, -, rfl⟩ := List.mem_map.1 hp
      simpa [newParticipant] using hu

/-- Nobody takes part in a conversation that is not there. -/
theorem partiesOf_of_new (hknown : ParticipantsKnown d) {uid : String}
    (hnew : d.conversations.find? uid = none) : partiesOf uid d = [] := by
  rw [partiesOf, List.map_eq_nil_iff, List.eq_nil_iff_forall_not_mem]
  intro p hp
  obtain ⟨hmem, hconversation⟩ := Table.mem_select.1 hp
  have hknown := hknown p hmem
  rw [beq_iff_eq.1 hconversation, hnew] at hknown
  cases hknown

/-- Where conversations and participants stay as they are, so does their order. -/
theorem DirectInOrder.of_same (h : DirectInOrder d) (hconversations : SameConversations d d')
    (hparties : ∀ u, partiesOf u d' = partiesOf u d) : DirectInOrder d' := by
  obtain ⟨f, huid, htype, hrows⟩ := hconversations
  have hfind : ∀ u, (d'.conversations.find? u).isSome = (d.conversations.find? u).isSome := by
    intro u
    unfold Table.find?
    rw [hrows, List.find?_map, Option.isSome_map]
    congr 2
    funext c
    simp [huid]
  have hparty : ∀ u v, (d'.participants.find? (u, v)).isSome =
      (d.participants.find? (u, v)).isSome := by
    intro u v
    rw [Bool.eq_iff_iff, isSome_party, isSome_party, hparties]
  refine ⟨fun p hp => ?_, fun c hc hdirect => ?_, fun a b hab => ?_⟩
  · have hsome : (d.participants.find? (p.conversationUid, p.userUid)).isSome = true := by
      rw [← hparty, Table.find?_eq_some.2 ⟨hp, rfl⟩]
      rfl
    obtain ⟨p', hp'⟩ := Option.isSome_iff_exists.1 hsome
    obtain ⟨hmem, hkey⟩ := Table.find?_eq_some.1 hp'
    have hconversation : p'.conversationUid = p.conversationUid := congrArg Prod.fst hkey
    rw [hfind, ← hconversation]
    exact h.known p' hmem
  · rw [hrows] at hc
    obtain ⟨c', hc', rfl⟩ := List.mem_map.1 hc
    obtain ⟨a, b, hab, hpair⟩ := h.pairs c' hc' (by rwa [htype] at hdirect)
    exact ⟨a, b, hab, by rw [hparties, huid, hpair]⟩
  · have hsame : directConversations a b d' = (directConversations a b d).map f := by
      unfold directConversations Table.select
      rw [hrows, List.filter_map]
      congr 1
      apply List.filter_congr
      intro c _
      simp only [Function.comp_apply, hparty, huid, htype]
    rw [hsame, List.length_map]
    exact h.unique a b hab

/-- Every act keeps DIRECT conversations in order. -/
theorem MessagingAct.inOrder (h : MessagingAct caller d d') (hd : DirectInOrder d) :
    DirectInOrder d' := by
  cases h with
  | stays hconversations hparticipants hmessages =>
      exact hd.of_same (.of_eq hconversations) (partiesOf_of_eq hparticipants)
  | opens now c userUids hnew hnodup hpair hopen =>
      subst hopen
      refine ⟨hd.known.open, fun c' hc' hdirect => ?_, fun a b hab => ?_⟩
      · rcases Table.mem_insert hc' with hold | rfl
        · obtain ⟨a, b, hab, hparties⟩ := hd.pairs c' hold hdirect
          have hne : c.uid ≠ c'.uid := fun hsame =>
            Table.find?_eq_none.1 hnew c' hold hsame.symm
          refine ⟨a, b, hab, ?_⟩
          rw [partiesOf_open hd.known hnew hnodup, if_neg hne, List.append_nil, hparties]
        · obtain ⟨a, b, hab, husers, -⟩ := hpair hdirect
          refine ⟨a, b, hab, ?_⟩
          rw [partiesOf_open hd.known hnew hnodup, if_pos rfl,
            partiesOf_of_new hd.known hnew, husers]
          rfl
      · rw [directConversations_open hd.known hnew]
        split
        · rename_i hboth
          obtain ⟨u, v, -, rfl, hnone⟩ := hpair hboth.1
          -- the pair had no conversation before
          rw [directConversations_of_pair hab hboth.2.1 hboth.2.2, hnone]
          exact le_rfl
        · rw [List.append_nil]
          exact hd.unique a b hab
  | stores m hmay hnew hlive hconversations hparticipants hmessages =>
      exact hd.of_same hconversations (partiesOf_of_eq hparticipants)
  | reads conversationUid userUid now hconversations hparticipants hmessages =>
      refine hd.of_same (.of_eq hconversations) fun u => ?_
      rw [partiesOf_of_eq hparticipants, partiesOf_rewriteParticipant]
  | hides m now hfound hsender hconversations hparticipants hmessages =>
      exact hd.of_same (.of_eq hconversations) (partiesOf_of_eq hparticipants)

end Order

/-! ## What an act may -/

/-- A message that is new is stored by a sender who takes part, and past no block of a DIRECT
conversation; a message that was there stays, and only its sender hides it. -/
structure Guarded (caller : Option String) (d d' : Db) : Prop where
  stored : ∀ m ∈ d'.messages.rows, d.messages.find? m.uid = none →
    caller = some m.senderUid ∧ m.senderUid ∈ activeParticipantUids m.conversationUid d ∧
    m.deletedAt = none ∧
    ∀ c, d.conversations.find? m.conversationUid = some c → c.type = .direct →
      ∃ a b, partiesOf c.uid d = [(a, none), (b, none)] ∧ blockBetween a b d = false
  kept : ∀ m, d.messages.find? m.uid = some m → ∃ deletedAt,
    d'.messages.find? m.uid = some { m with deletedAt := deletedAt } ∧
    (deletedAt ≠ m.deletedAt → caller = some m.senderUid)

/-- The other participant of a pair is the one that the block check asks for. -/
theorem MayStore.unblocked_pair {caller : Option String} {m : Message} {d : Db}
    (h : MayStore caller m d) (hd : DirectInOrder d) {c : Conversation}
    (hc : d.conversations.find? m.conversationUid = some c) (hdirect : c.type = .direct) :
    ∃ a b, partiesOf c.uid d = [(a, none), (b, none)] ∧ blockBetween a b d = false := by
  obtain ⟨hmem, huid⟩ := Table.find?_eq_some.1 hc
  obtain ⟨a, b, hab, hpair⟩ := hd.pairs c hmem hdirect
  have hactive : activeParticipantUids m.conversationUid d = [a, b] := by
    rw [← huid]
    exact activeParticipantUids_of_pair hpair
  have hsender := h.active
  have hcheck := h.unblocked c hc hdirect
  rw [hactive] at hsender hcheck
  refine ⟨a, b, hpair, ?_⟩
  rcases List.mem_cons.1 hsender with ha | hsender
  · rw [ha] at hcheck
    exact hcheck b (by simp [hab.symm])
  · rw [List.mem_singleton.1 hsender] at hcheck
    rw [blockBetween_comm]
    exact hcheck a (by simp [hab])

/-- An act does what its caller may. -/
theorem MessagingAct.guarded {caller : Option String} {d d' : Db} (h : MessagingAct caller d d')
    (hd : DirectInOrder d) : Guarded caller d d' := by
  have hsame : d'.messages = d.messages → Guarded caller d d' := by
    intro hmessages
    refine ⟨fun m hm hnone => ?_, fun m hm => ⟨m.deletedAt, ?_, fun hne => absurd rfl hne⟩⟩
    · rw [hmessages] at hm
      exact absurd rfl (Table.find?_eq_none.1 hnone m hm)
    · rw [hmessages]
      exact hm
  cases h with
  | stays hconversations hparticipants hmessages => exact hsame hmessages
  | opens now c userUids hnew hnodup hpair hopen => exact hsame (by rw [hopen]; rfl)
  | stores m hmay hnew hlive hconversations hparticipants hmessages =>
      refine ⟨fun m' hm' hnone => ?_, fun m' hm' => ⟨m'.deletedAt, ?_, fun hne => absurd rfl hne⟩⟩
      · rw [hmessages] at hm'
        rcases Table.mem_insert hm' with hold | rfl
        · exact absurd rfl (Table.find?_eq_none.1 hnone m' hold)
        · exact ⟨hmay.sender, hmay.active, hlive, fun c hc hdirect =>
            hmay.unblocked_pair hd hc hdirect⟩
      · rw [hmessages]
        exact Table.find?_insert_of_some hm'
  | reads conversationUid userUid now hconversations hparticipants hmessages =>
      exact hsame hmessages
  | hides m now hfound hsender hconversations hparticipants hmessages =>
      have hfind : ∀ u, d'.messages.find? u = (d.messages.find? u).map fun r =>
          if r.uid == m.uid then { r with deletedAt := some now } else r := by
        intro u
        rw [hmessages]
        exact Table.find?_update d.messages _ (fun r => { r with deletedAt := some now })
          (fun _ => rfl) u
      refine ⟨fun m' hm' hnone => ?_, fun m' hm' => ?_⟩
      · have hthere := hfind m'.uid
        rw [Table.find?_eq_some.2 ⟨hm', rfl⟩, hnone] at hthere
        cases hthere
      · rw [hfind, hm', Option.map_some]
        by_cases huid : m'.uid = m.uid
        · rw [huid, hfound] at hm'
          cases hm'
          exact ⟨some now, by simp, fun _ => hsender⟩
        · refine ⟨m'.deletedAt, ?_, fun hne => absurd rfl hne⟩
          rw [if_neg (by simpa using huid)]

end Vivac.Messaging
