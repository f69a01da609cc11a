import Vivac.Core.Contracts
import Vivac.Core.SampleBackend
import Vivac.Crud.Conversation
import Mathlib.Data.Fintype.Basic

/-!
# DIRECT conversations of a pair

Any number of `get_or_create_direct_conversation` calls, interleaved statement by statement. A
call looks the pair's conversation up and makes one when it finds none; nothing in the tables
says that there is one at most, so two calls can both make one (`direct_pair_twice`), and the
lookup of every later call raises then.

When each call commits its conversation while what its lookup found is still so, a pair has at
most one DIRECT conversation, and a later call answers it (`direct_pair_unique`).
-/

set_option autoImplicit false

namespace Vivac

open Lib App

/-! ## A new conversation among the others -/

/-- Every participant is one of a conversation that is there: the tables' foreign key. -/
def ParticipantsKnown (d : Db) : Prop :=
  ∀ p ∈ d.participants.rows, (d.conversations.find? p.conversationUid).isSome = true

/-- The tables with a new conversation and its participants. -/
def openConversation (now : Timestamp) (c : Conversation) (userUids : List String) (d : Db) : Db :=
  addParticipants now c.uid userUids { d with conversations := d.conversations.insert c }

section Open

variable {now : Timestamp} {c : Conversation} {userUids : List String} {d : Db}

theorem isSome_addParticipants (conversationUid : String) (k : String × String) :
    ((addParticipants now conversationUid userUids d).participants.find? k).isSome =
      ((d.participants.find? k).isSome || decide (k.1 = conversationUid ∧ k.2 ∈ userUids)) := by
  have hfold : ∀ t : Table fun p : ConversationParticipant => (p.conversationUid, p.userUid),
      ((userUids.foldl (fun t u => t.insert (newParticipant now conversationUid u)) t).find?
        k).isSome = ((t.find? k).isSome || decide (k.1 = conversationUid ∧ k.2 ∈ userUids)) := by
    induction userUids with
    | nil =>
        intro t
        simp
    | cons u us ih =>
        intro t
        rw [List.foldl_cons, ih, Table.isSome_find?_insert, Bool.or_assoc]
        congr 1
        obtain ⟨conversation, user⟩ := k
        simp only [newParticipant, Prod.mk.injEq, List.mem_cons]
        grind
  exact hfold d.participants

theorem mem_addParticipants {conversationUid : String} {p : ConversationParticipant}
    (h : p ∈ (addParticipants now conversationUid userUids d).participants.rows) :
    p ∈ d.participants.rows ∨ p.conversationUid = conversationUid := by
  have hfold : ∀ t : Table fun p : ConversationParticipant => (p.conversationUid, p.userUid),
      p ∈ (userUids.foldl (fun t u => t.insert (newParticipant now conversationUid u)) t).rows →
      p ∈ t.rows ∨ p.conversationUid = conversationUid := by
    clear h
    induction userUids with
    | nil => exact fun t h => .inl h
    | cons u us ih =>
        intro t h
        rcases ih _ h with hmem | hnew
        · rcases Table.mem_insert hmem with hold | rfl
          · exact .inl hold
          · exact .inr rfl
        · exact .inr hnew
  exact hfold d.participants h

theorem ParticipantsKnown.open (h : ParticipantsKnown d) :
    ParticipantsKnown (openConversation now c userUids d) := by
  intro p hp
  have hfound : ((d.conversations.insert c).find? p.conversationUid).isSome = true := by
    rw [Table.isSome_find?_insert]
    rcases mem_addParticipants hp with hold | hnew
    · rw [h p hold]
      rfl
    · simp [hnew]
  exact hfound

/-- Nobody takes part in a conversation that is not there. -/
theorem ParticipantsKnown.find?_none (h : ParticipantsKnown d) {uid userUid : String}
    (hnew : d.conversations.find? uid = none) : d.participants.find? (uid, userUid) = none := by
  cases hp : d.participants.find? (uid, userUid) with
  | none => rfl
  | some p =>
      obtain ⟨hmem, hkey⟩ := Table.find?_eq_some.1 hp
      have huid : p.conversationUid = uid := congrArg Prod.fst hkey
      have hsome := h p hmem
      rw [huid, hnew] at hsome
      cases hsome

/-- A new conversation is one more of its own participants, and of nobody else. -/
theorem directConversations_open (hknown : ParticipantsKnown d)
    (hnew : d.conversations.find? c.uid = none) (a b : String) :
    directConversations a b (openConversation now c userUids d) =
      directConversations a b d ++
        if c.type = .direct ∧ a ∈ userUids ∧ b ∈ userUids then [c] else [] := by
  have hrows : (openConversation now c userUids d).conversations.rows =
      d.conversations.rows ++ [c] := Table.rows_insert_of_new (Table.find?_eq_none.1 hnew)
  unfold directConversations Table.select
  rw [hrows, List.filter_append]
  congr 1
  · apply List.filter_congr
    intro c' hc'
    have hne : c'.uid ≠ c.uid := Table.find?_eq_none.1 hnew c' hc'
    simp [openConversation, isSome_addParticipants, hne]
  · have hnone : ∀ u, d.participants.find? (c.uid, u) = none := fun u => hknown.find?_none hnew
    simp only [List.filter_cons, List.filter_nil, openConversation, isSome_addParticipants, hnone]
    simp [and_assoc]

theorem directConversations_comm (a b : String) (d : Db) :
    directConversations a b d = directConversations b a d := by
  apply List.filter_congr
  intro c' _
  rw [Bool.and_assoc, Bool.and_assoc, Bool.and_comm (Option.isSome _)]

/-- A user who takes part in one of two lookups of one pair takes part in the other. -/
theorem directConversations_of_pair {a b u v : String} (hab : a ≠ b) (ha : a ∈ [u, v])
    (hb : b ∈ [u, v]) (d : Db) : directConversations a b d = directConversations u v d := by
  simp only [List.mem_cons, List.not_mem_nil, or_false] at ha hb
  rcases ha with rfl | rfl
  · rcases hb with rfl | rfl
    · exact absurd rfl hab
    · rfl
  · rcases hb with rfl | rfl
    · exact directConversations_comm a b d
    · exact absurd rfl hab

end Open

/-! ## Calls -/

/-- A call: its two users, and the uid and the time of the conversation it may make. -/
structure DirectCall where
  userUid : String
  targetUid : String
  uid : String
  now : Timestamp

namespace DirectCall

variable (k : DirectCall)

/-- The program of a call, in its session. -/
def program : App Conversation :=
  withSession (getOrCreateDirectConversation k.now k.uid k.userUid k.targetUid)

/-- The conversation that a call makes. -/
def conversation : Conversation :=
  { uid := k.uid, type := .direct, name := none, createdAt := k.now, updatedAt := k.now }

/-- The DIRECT conversations of the call's pair. -/
def found (d : Db) : List Conversation := directConversations k.userUid k.targetUid d

end DirectCall

/-- What a call commits: once, its conversation, when its lookup had found none. The lookup is
the statement before the two that write. -/
structure OpensDirect (k : DirectCall) (w : Work Db RowKey Change) (seen : List Db)
    (commits : List (List Change)) : Prop where
  first : commits = []
  some : w.changes ≠ []
  distinct : k.userUid ≠ k.targetUid
  looked : ∃ d, seen[2]? = Option.some d ∧ k.found d = []
  write : w.write = openConversation k.now k.conversation [k.userUid, k.targetUid]

theorem warrants_createDirect (k : DirectCall) (hne : k.userUid ≠ k.targetUid)
    {w : Work Db RowKey Change} (hwrite : w.write = id) {d : Db} (hfound : k.found d = [])
    (seen : List Db) :
    Warrants (fun _ => True) (OpensDirect k) (Returns fun _ _ => True)
      (createConversation k.now k.uid .direct none [k.userUid, k.targetUid])
      ⟨some w, d :: seen, []⟩ := by
  apply Warrants.sql allows_returns
  rintro w' hw' locked d₁ - eff heff
  cases hw'
  simp only [insertConversationRow] at heff
  split at heff
  · cases heff
  cases heff
  apply Warrants.sql allows_returns
  rintro w' hw' locked d₂ - eff heff
  cases hw'
  simp only [insertParticipantRows] at heff
  split at heff
  · cases heff
  split at heff
  · cases heff
  cases heff
  apply Warrants.commit allows_returns rfl
  · refine ⟨rfl, ?_, hne, ⟨d, rfl, hfound⟩, ?_⟩
    · simp [Work.andThen]
    · simp only [Work.andThen, hwrite]
      rfl
  · apply Warrants.read allows_returns
    rintro w₃ - d₃ -
    split <;> trivial

/-- A call commits its conversation when its lookup has found none, and nothing else. -/
theorem warrants_directCall (k : DirectCall) :
    Warrants (fun _ => True) (OpensDirect k) (Returns fun _ _ => True) k.program {} := by
  apply warrants_request
  unfold getOrCreateDirectConversation
  split
  · trivial
  · rename_i hne
    apply Warrants.read allows_returns
    rintro w hw d₀ -
    cases hw
    split
    · trivial
    · apply Warrants.read allows_returns
      rintro w hw d -
      cases hw
      apply Warrants.ofExcept allows_returns
      intro found hfound
      cases found with
      | some c => trivial
      | none =>
          have hnone : k.found d = [] := by
            cases hrows : k.found d with
            | nil => rfl
            | cons c cs =>
                have hlookup : directConversations k.userUid k.targetUid d = c :: cs := hrows
                simp only [id, hlookup] at hfound
                cases cs <;> cases hfound
          exact warrants_createDirect k hne rfl hnone [d₀]

/-- A call that finds the pair's only conversation `x`, and no block, ends with it. -/
theorem warrants_later (k : DirectCall) (hne : k.userUid ≠ k.targetUid) {x : Conversation}
    {F : CommitFact Db RowKey Change} :
    Warrants (fun d => k.found d = [x] ∧ blockBetween k.userUid k.targetUid d = false) F
      (fun r _ => r = .ok x ∨ r = .error Faults.lostConnection) k.program {} := by
  apply warrants_withSession
  unfold getOrCreateDirectConversation
  rw [if_neg hne]
  apply Warrants.read_usable rfl (.inr rfl)
  rintro d₀ ⟨-, hnoblock⟩
  have hunblocked : blockBetween k.userUid k.targetUid (id d₀) = false := hnoblock
  rw [hunblocked, if_neg Bool.false_ne_true]
  apply Warrants.read_usable rfl (.inr rfl)
  rintro d ⟨hfound, -⟩
  have hlookup : directConversations k.userUid k.targetUid (id d) = [x] := hfound
  rw [hlookup]
  exact .inl rfl

/-! ## All calls -/

section Pool

variable {ι : Type} [DecidableEq ι]

/-- The step commits a conversation of call `i` only while the pair has no other DIRECT
conversations than its lookup saw. -/
def LookupFresh (calls : ι → DirectCall) (i : ι) (s s' : State ι) : Prop :=
  s'.commits i ≠ s.commits i → ∀ d ∈ (s.seen i)[2]?,
    ((calls i).found s.db).map Conversation.uid = ((calls i).found d).map Conversation.uid

/-- Every call makes its conversation under a uid of its own, which is not in use. -/
structure FreshUids (calls : ι → DirectCall) (d : Db) : Prop where
  distinct : ∀ i j, (calls i).uid = (calls j).uid → i = j
  unused : ∀ i, d.conversations.find? (calls i).uid = none

/-- At most one DIRECT conversation of each pair. -/
def DirectUnique (d : Db) : Prop := ∀ a b, a ≠ b → (directConversations a b d).length ≤ 1

/-- What the calls have committed, and the conversations. -/
structure DirectLaw (calls : ι → DirectCall) (d : Db) (commits : ι → List (List Change)) :
    Prop where
  known : ParticipantsKnown d
  unused : ∀ i, commits i = [] → d.conversations.find? (calls i).uid = none
  unique : DirectUnique d

/-- One commit keeps the law. -/
theorem DirectLaw.commit {calls : ι → DirectCall} {i : ι} {s s' : State ι}
    (hfact : OpensDirect (calls i) (s.tx i).work (s.seen i) (s.commits i))
    (hfresh : LookupFresh calls i s s') (hdistinct : ∀ i j, (calls i).uid = (calls j).uid → i = j)
    (hdb : s'.db = (s.tx i).work.write s.db)
    (hcommits : s'.commits = Function.update s.commits i (s.commits i ++ [(s.tx i).work.changes]))
    (h : DirectLaw calls s.db s.commits) :
    DirectLaw calls s'.db s'.commits ∧
      ∀ a b x, x ∈ directConversations a b s.db → x ∈ directConversations a b s'.db := by
  have hself : s'.commits i = s.commits i ++ [(s.tx i).work.changes] := by
    rw [hcommits, Function.update_self]
  have hnew : s.db.conversations.find? (calls i).uid = none := h.unused i hfact.first
  have hopen : ∀ a b, directConversations a b s'.db = directConversations a b s.db ++
      if a ∈ [(calls i).userUid, (calls i).targetUid] ∧
        b ∈ [(calls i).userUid, (calls i).targetUid] then [(calls i).conversation] else [] := by
    intro a b
    rw [hdb, hfact.write, directConversations_open h.known hnew]
    simp [DirectCall.conversation]
  -- what the lookup found is what is committed: the pair has no conversation yet
  have hnone : (calls i).found s.db = [] := by
    obtain ⟨d, hseen, hfound⟩ := hfact.looked
    have hchanged : s'.commits i ≠ s.commits i := by
      rw [hself]
      simp
    have hsame := hfresh hchanged d hseen
    rw [hfound, List.map_nil, List.map_eq_nil_iff] at hsame
    exact hsame
  refine ⟨⟨?_, ?_, ?_⟩, ?_⟩
  · rw [hdb, hfact.write]
    exact h.known.open
  · intro j hj
    have hji : j ≠ i := by
      rintro rfl
      rw [hself] at hj
      simp at hj
    rw [hcommits, Function.update_of_ne hji] at hj
    rw [hdb, hfact.write]
    show (s.db.conversations.insert (calls i).conversation).find? (calls j).uid = none
    rw [Table.find?_insert_of_ne]
    · exact h.unused j hj
    · intro huid
      exact hji (hdistinct i j huid).symm
  · intro a b hab
    rw [hopen]
    split
    · rename_i hpair
      have hempty : directConversations a b s.db = [] := by
        rw [directConversations_of_pair hab hpair.1 hpair.2]
        exact hnone
      rw [hempty]
      exact le_rfl
    · rw [List.append_nil]
      exact h.unique a b hab
  · intro a b x hx
    rw [hopen]
    exact List.mem_append_left _ hx

/-- No call blocks anybody. -/
theorem OpensDirect.blocks {k : DirectCall} {w : Work Db RowKey Change} {seen : List Db}
    {commits : List (List Change)} (h : OpensDirect k w seen commits) (d : Db) :
    (w.write d).blocks = d.blocks := by
  rw [h.write]
  rfl

/-- A call that has not begun, alone, ends with the pair's only conversation. -/
theorem exists_answer {calls : ι → DirectCall} {c : Config ι Exc Command (State ι) Conversation}
    {i : ι} {x : Conversation} (hthread : c.thread i = (calls i).program)
    (htx : c.state.tx i = {}) (hne : (calls i).userUid ≠ (calls i).targetUid)
    (hfound : (calls i).found c.state.db = [x])
    (hblock : blockBetween (calls i).userUid (calls i).targetUid c.state.db = false) :
    ∃ c', Run (sessions (LookupFresh calls)) c c' ∧ (c'.thread i).outcome = some (.ok x) := by
  have hquiet : ∀ s s' : State ι, s'.commits i = s.commits i → LookupFresh calls i s s' :=
    fun s s' hsame hchanged => absurd hsame hchanged
  unfold DirectCall.program getOrCreateDirectConversation at hthread
  rw [if_neg hne] at hthread
  obtain ⟨c₁, hfirst, hthread₁, htx₁, hdb₁⟩ := exists_read hthread htx (hquiet _)
  rw [hblock] at hthread₁
  obtain ⟨c₂, hsecond, hthread₂, htx₂, hdb₂⟩ := exists_read hthread₁ htx₁ (hquiet _)
  have hlookup : directConversations (calls i).userUid (calls i).targetUid c₁.state.db = [x] := by
    rw [hdb₁]
    exact hfound
  rw [hlookup] at hthread₂
  obtain ⟨c₃, hthird, hthread₃⟩ := exists_rollback hthread₂ (hquiet _)
  refine ⟨c₃, ((Relation.ReflTransGen.single hfirst).tail hsecond).tail hthird, ?_⟩
  rw [hthread₃]
  rfl

end Pool

/-- In every run in which each conversation is committed only while what its lookup found is
still so, a pair has at most one DIRECT conversation. A call that has not begun when the pair
has one ends with it, or by a lost connection; and by itself it does end. -/
theorem direct_pair_unique {ι : Type} [DecidableEq ι] (calls : ι → DirectCall)
    {c c' : Config ι Exc Command (State ι) Conversation} (hidle : Idle c.state)
    (hcalls : ∀ i, c.thread i = (calls i).program) (huids : FreshUids calls c.state.db)
    (hknown : ParticipantsKnown c.state.db) (hstart : DirectUnique c.state.db)
    (hrun : Run (sessions (LookupFresh calls)) c c') :
    DirectUnique c'.state.db ∧
    ∀ i x, c'.thread i = (calls i).program → (calls i).userUid ≠ (calls i).targetUid →
      x ∈ (calls i).found c'.state.db →
      blockBetween (calls i).userUid (calls i).targetUid c'.state.db = false →
      (∀ c'' r, Run (sessions (LookupFresh calls)) c' c'' → (c''.thread i).outcome = some r →
        r = .ok x ∨ r = .error Faults.lostConnection) ∧
      (c'.state.tx i = {} → ∃ c'', Run (sessions (LookupFresh calls)) c' c'' ∧
        (c''.thread i).outcome = some (.ok x)) := by
  have hwarrant : AllWarrant (fun i => OpensDirect (calls i)) (LookupFresh calls)
      (fun _ => Returns fun _ _ => True) c := by
    apply AllWarrant.of_idle (A := fun _ => True) (fun _ _ _ _ => trivial) hidle
    intro k
    rw [hcalls k]
    exact warrants_directCall (calls k)
  have hlaw : DirectLaw calls c'.state.db c'.state.commits := by
    apply hwarrant.induct (J := DirectLaw calls) ?_ hrun ⟨hknown, fun i _ => huids.unused i, hstart⟩
    intro k s s' hfact hok hdb hcommits hJ
    exact (hJ.commit hfact hok huids.distinct hdb hcommits).1
  refine ⟨hlaw.unique, fun i x hthread hne hx hblock => ?_⟩
  have honly : ∀ d commits, DirectLaw calls d commits → x ∈ (calls i).found d →
      (calls i).found d = [x] := by
    intro d commits hd hmem
    obtain ⟨y, hy⟩ := List.length_eq_one_iff.1
      (le_antisymm (hd.unique _ _ hne) (List.length_pos_of_mem hmem))
    have hfound : (calls i).found d = [y] := hy
    rw [hfound, List.mem_singleton] at hmem
    rw [hfound, hmem]
  constructor
  · intro c'' r hlater hended
    -- from `c'` on every statement meets the conversation, and no block
    have hmet : ∀ b, Run (sessions (LookupFresh calls)) c' b →
        (calls i).found b.state.db = [x] ∧
          blockBetween (calls i).userUid (calls i).targetUid b.state.db = false := by
      intro b hb
      obtain ⟨hd, hmem, hnoblock⟩ := (hwarrant.run hrun).induct
        (J := fun d commits => DirectLaw calls d commits ∧ x ∈ (calls i).found d ∧
          blockBetween (calls i).userUid (calls i).targetUid d = false)
        (fun k s s' hfact hok hdb hcommits hJ => by
          obtain ⟨hnext, hkept⟩ := hJ.1.commit hfact hok huids.distinct hdb hcommits
          refine ⟨hnext, hkept _ _ x hJ.2.1, ?_⟩
          rw [hdb, blockBetween, hfact.blocks]
          exact hJ.2.2) hb ⟨hlaw, hx, hblock⟩
      exact ⟨honly _ _ hd hmem, hnoblock⟩
    have hown : ({} : Own Db RowKey Change).Of i c'.state := by
      apply hrun.idle_own _ (hidle.of i)
      rw [hthread, hcalls i]
    have hstrong : Run (sessions fun _ s _ => (calls i).found s.db = [x] ∧
        blockBetween (calls i).userUid (calls i).targetUid s.db = false) c' c'' :=
      hlater.strengthen fun b hb _ _ _ => hmet b hb
    have hmeets := hstrong.meets_own (F := fun i => OpensDirect (calls i)) (i := i)
      (by
        rw [hthread]
        exact (warrants_later (calls i) hne).meets (fun _ _ _ h => h) hown)
    rw [Prog.outcome_eq_some.1 hended] at hmeets
    cases r with
    | ok a =>
        obtain ⟨-, -, hq⟩ := hmeets _ trivial ⟨.refl i _, trivial⟩
        exact hq
    | error e =>
        obtain ⟨-, -, hq⟩ := hmeets _ trivial ⟨.refl i _, trivial⟩
        exact hq
  · intro htx
    exact exists_answer hthread htx hne (honly _ _ hlaw hx) hblock

instance decidableLookupFresh {ι : Type} [DecidableEq ι] (calls : ι → DirectCall) (i : ι)
    (s s' : State ι) :
    Decidable (LookupFresh calls i s s') :=
  inferInstanceAs (Decidable (s'.commits i ≠ s.commits i → ∀ d ∈ (s.seen i)[2]?,
    ((calls i).found s.db).map Conversation.uid = ((calls i).found d).map Conversation.uid))

namespace Sample

/-- Two users, who have no conversation. -/
theorem nodup_twoUsers : ([user "a", user "b"].map User.uid).Nodup := by
  decide

def twoUsers : Db := { Db.empty with users := ⟨[user "a", user "b"], nodup_twoUsers⟩ }

/-- Calls for the two users, in both directions. -/
def bothWays : Fin 3 → DirectCall
  | 0 => ⟨"a", "b", "x", 0⟩
  | 1 => ⟨"b", "a", "y", 0⟩
  | 2 => ⟨"a", "b", "z", 0⟩

/-- A pool at its start. -/
def messaging : Config (Fin 3) Exc Command (State (Fin 3)) Conversation :=
  ⟨World.fresh twoUsers, fun i => (bothWays i).program⟩

theorem freshUids_bothWays : FreshUids bothWays twoUsers := ⟨by decide, by decide⟩

end Sample

/-- The first call makes the conversation, and the second one finds it. -/
theorem direct_pair_unique_two :
    ∃ c' x c'', Run (sessions (LookupFresh Sample.bothWays)) Sample.messaging c' ∧
      (directConversations "a" "b" c'.state.db).length ≤ 1 ∧
      Run (sessions (LookupFresh Sample.bothWays)) c' c'' ∧
      (c''.thread 1).outcome = some (.ok x) := by
  have hrun : (follow (guardExec (fun i => exec i) (LookupFresh Sample.bothWays))
      (List.replicate 7 0) Sample.messaging).any (fun c =>
        (directConversations "a" "b" c.state.db).length = 1 ∧
          blockBetween "b" "a" c.state.db = false ∧ (c.state.tx 1).status = .active) = true := by
    decide +kernel
  obtain ⟨c', hfollow, hmade⟩ := (Option.any_eq_true _ _).1 hrun
  have hguarded : Run (sessions (LookupFresh Sample.bothWays)) Sample.messaging c' :=
    Run.of_guardExec (run_of_follow hfollow)
  obtain ⟨hone, hnoblock, hactive⟩ : (directConversations "a" "b" c'.state.db).length = 1 ∧
      blockBetween "b" "a" c'.state.db = false ∧ (c'.state.tx 1).status = .active := by
    simpa using hmade
  have hthread : c'.thread 1 = (Sample.bothWays 1).program := thread_follow (by decide) hfollow
  have htx : c'.state.tx 1 = {} := by
    rcases (hguarded.idle_own hthread ((idle_fresh _).of 1)).tx with htx | hlost
    · exact htx
    · rw [hactive] at hlost
      cases hlost
  obtain ⟨x, hx⟩ := List.length_eq_one_iff.1 hone
  have hmem : x ∈ (Sample.bothWays 1).found c'.state.db := by
    rw [DirectCall.found, directConversations_comm]
    exact hx ▸ List.mem_singleton_self x
  obtain ⟨hunique, hlater⟩ := direct_pair_unique Sample.bothWays (c := Sample.messaging)
    (idle_fresh _) (fun _ => rfl)
    Sample.freshUids_bothWays (fun p hp => by cases hp) (fun a b _ => Nat.zero_le 1) hguarded
  obtain ⟨-, hanswer⟩ := hlater 1 x hthread (by decide) hmem hnoblock
  obtain ⟨c'', hrun', houtcome⟩ := hanswer htx
  exact ⟨c', x, c'', hguarded, hunique "a" "b" (by decide), hrun', houtcome⟩

/-- Two calls, one in each direction, find no conversation and both make one: the lookup of a
third call raises. -/
theorem direct_pair_twice :
    ∃ c', Run platform Sample.messaging c' ∧
      (directConversations "a" "b" c'.state.db).map Conversation.uid = ["x", "y"] ∧
      (c'.thread 2).outcome = some (.error (.database "MultipleResultsFound"
        "Multiple rows were found when one or none was required")) := by
  have hrun : (follow (fun i => exec i)
      ([0, 0, 1, 1] ++ List.replicate 5 0 ++ List.replicate 5 1 ++ List.replicate 3 2)
      Sample.messaging).any (fun c =>
        (directConversations "a" "b" c.state.db).map Conversation.uid = ["x", "y"] ∧
        ((c.thread 2).outcome.map fun r => r.map fun _ => ()) =
          some (.error (.database "MultipleResultsFound"
            "Multiple rows were found when one or none was required"))) = true := by
    decide +kernel
  obtain ⟨c', hrun', h⟩ := exists_run_of_schedule _ hrun
  obtain ⟨hpair, hthird⟩ : (directConversations "a" "b" c'.state.db).map Conversation.uid =
      ["x", "y"] ∧ ((c'.thread 2).outcome.map fun r => r.map fun _ => ()) =
        some (.error (.database "MultipleResultsFound"
          "Multiple rows were found when one or none was required")) := by simpa using h
  refine ⟨c', hrun', hpair, ?_⟩
  cases hout : (c'.thread 2).outcome with
  | none => simp [hout] at hthird
  | some r =>
      cases r with
      | ok a => simp [hout, Except.map] at hthird
      | error e =>
          rw [hout] at hthird
          cases hthird
          rfl

end Vivac
