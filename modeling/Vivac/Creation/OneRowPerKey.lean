import Vivac.Core.Contracts
import Vivac.Core.SampleBackend
import Vivac.Crud.Conversation
import Vivac.Crud.SpotGroup
import Vivac.Crud.SpotReview
import Mathlib.Data.Fintype.Basic

/-!
# Rows that are looked up before they are created

Any number of `block_user`, `add_member`, `add_spot` and `create_review` calls, interleaved
statement by statement. Each looks its row up and inserts it when there is none; behind the
lookup stands a unique constraint, whose violation no call handles. A call whose `INSERT` comes
after another call's commit, and its lookup before, ends with that error
(`create_once_overtaken`).

When no row of a call's key is committed between its lookup and its own commit, every call ends
as documented (`create_once`).
-/

set_option autoImplicit false

namespace Vivac.Creation

open Lib App

/-! ## Keys and rows -/

/-- The row that a call creates. -/
inductive CreatedRow where
  | block (b : UserBlock)
  | member (m : SpotGroupMember)
  | groupSpot (g : SpotGroupSpot)
  | review (r : SpotReview)

/-- The tables with one more row. -/
def CreatedRow.insert (d : Db) : CreatedRow → Db
  | .block b => { d with blocks := d.blocks.insert b }
  | .member m => { d with members := d.members.insert m }
  | .groupSpot g => { d with groupSpots := d.groupSpots.insert g }
  | .review r => insertReview r d

/-- What at most one live row is for. -/
inductive RowId where
  | block (blockerUid blockedUid : String)
  | member (groupUid userUid : String)
  | groupSpot (groupUid spotUid : String)
  | review (spotUid userUid : String)
  deriving DecidableEq

/-- The live rows of a key: every row, and of the reviews those that are not deleted. -/
def liveRows (d : Db) : RowId → List CreatedRow
  | .block blockerUid blockedUid =>
    (d.blocks.select fun b => b.blockerUid == blockerUid && b.blockedUid == blockedUid).map .block
  | .member groupUid userUid =>
    (d.members.select fun m => m.groupUid == groupUid && m.userUid == userUid).map .member
  | .groupSpot groupUid spotUid =>
    (d.groupSpots.select fun g => g.groupUid == groupUid && g.spotUid == spotUid).map .groupSpot
  | .review spotUid userUid =>
    (d.reviews.select fun r => r.activeOf spotUid && r.userId == userUid).map .review

/-- A call, and the time of its transaction. A review comes with the fresh uid of its row. -/
inductive CreateCall where
  | blockUser (blockerUid blockedUid : String) (now : Timestamp)
  | addMember (groupUid userUid : String) (role : GroupRole) (invitedByUid : String)
      (now : Timestamp)
  | addSpot (groupUid spotUid addedByUid : String) (now : Timestamp)
  | createReview (reviewUid spotUid userUid : String) (rating : ℤ) (content : Option String)
      (now : Timestamp)

namespace CreateCall

/-- The key of the row a call creates. -/
def key : CreateCall → RowId
  | .blockUser blockerUid blockedUid _ => .block blockerUid blockedUid
  | .addMember groupUid userUid _ _ _ => .member groupUid userUid
  | .addSpot groupUid spotUid _ _ => .groupSpot groupUid spotUid
  | .createReview _ spotUid userUid _ _ _ => .review spotUid userUid

/-- The row that a call creates. -/
def row : CreateCall → CreatedRow
  | .blockUser blockerUid blockedUid now =>
    .block { blockerUid := blockerUid, blockedUid := blockedUid, createdAt := now }
  | .addMember groupUid userUid role invitedByUid now =>
    .member { groupUid := groupUid, userUid := userUid, role := role,
              invitedByUid := some invitedByUid, createdAt := some now }
  | .addSpot groupUid spotUid addedByUid now =>
    .groupSpot { groupUid := groupUid, spotUid := spotUid, addedByUid := addedByUid,
                 createdAt := some now }
  | .createReview reviewUid spotUid userUid rating content now =>
    .review { uid := reviewUid, spotUid := spotUid, userId := userUid, rating := rating,
              content := content, createdAt := some now, updatedAt := some now }

/-- The program of a call, in its session. -/
def program (cfg : Settings) (be : Backend) : CreateCall → App CreatedRow
  | .blockUser blockerUid blockedUid now => withSession do
    let b ← Vivac.blockUser now blockerUid blockedUid
    return .block b
  | .addMember groupUid userUid role invitedByUid now => withSession do
    let m ← Vivac.addMember now groupUid userUid (some role) invitedByUid
    return .member m
  | .addSpot groupUid spotUid addedByUid now => withSession do
    let g ← Vivac.addSpot now groupUid spotUid addedByUid
    return .groupSpot g
  | .createReview reviewUid spotUid userUid rating content now => withSession do
    let r ← Vivac.createReview cfg be now reviewUid spotUid userUid rating content
    return .review r

/-- The outcome an operation documents for a row that exists: `block_user` returns it, the
others refuse. -/
def Documented (rows : List CreatedRow) (r : Except Exc CreatedRow) : CreateCall → Prop
  | .blockUser _ _ _ => ∃ row ∈ rows, r = .ok row
  | .addMember _ _ _ _ _ => rows ≠ [] ∧
    r = .error (.app .spotGroupMemberAlreadyExists "Already a member of this group")
  | .addSpot _ _ _ _ => rows ≠ [] ∧
    r = .error (.app .spotGroupSpotAlreadyExists "Spot already in this group")
  | .createReview _ _ _ _ _ _ => rows ≠ [] ∧
    r = .error (.app .reviewAlreadyExists "이미 이 spot에 작성한 리뷰가 있습니다")

theorem Documented.live_ne_nil {rows rows' : List CreatedRow} {r : Except Exc CreatedRow}
    {c : CreateCall} (h : c.Documented rows r) (hsub : ∀ row ∈ rows, row ∈ rows') : rows' ≠ [] := by
  have hne : rows ≠ [] := by
    cases c with
    | blockUser a b now =>
        obtain ⟨row, hrow, -⟩ := h
        exact List.ne_nil_of_mem hrow
    | _ => exact h.1
  obtain ⟨row, hrow⟩ := List.exists_mem_of_ne_nil rows hne
  exact List.ne_nil_of_mem (hsub row hrow)

/-- A row that an outcome was documented for may be among others. -/
theorem Documented.mono {rows rows' : List CreatedRow} {r : Except Exc CreatedRow}
    {c : CreateCall} (h : c.Documented rows r) (hsub : ∀ row ∈ rows, row ∈ rows') :
    c.Documented rows' r := by
  have hne := h.live_ne_nil hsub
  cases c with
  | blockUser a b now =>
      obtain ⟨row, hrow, hr⟩ := h
      exact ⟨row, hsub row hrow, hr⟩
  | _ => exact ⟨hne, h.2⟩

/-- What the callers have looked up before: the rows that the new row refers to, two different
users for a block, a rating in range, and a content that the database can store. -/
def Known (d : Db) : CreateCall → Prop
  | .blockUser blockerUid blockedUid _ => blockerUid ≠ blockedUid ∧
    (d.users.find? blockerUid).isSome = true ∧ (d.users.find? blockedUid).isSome = true
  | .addMember groupUid userUid _ invitedByUid _ => (d.groups.find? groupUid).isSome = true ∧
    (d.users.find? userUid).isSome = true ∧ (d.users.find? invitedByUid).isSome = true
  | .addSpot groupUid spotUid addedByUid _ => (d.groups.find? groupUid).isSome = true ∧
    (d.spots.find? spotUid).isSome = true ∧ (d.users.find? addedByUid).isSome = true
  | .createReview _ spotUid userUid rating content _ => (d.spots.find? spotUid).isSome = true ∧
    (d.users.find? userUid).isSome = true ∧ (0 ≤ rating ∧ rating ≤ 10) ∧
    content.all isStorable = true

/-- The fresh uid of a new review; the other rows have no uid of their own. -/
def reviewUid? : CreateCall → Option String
  | .createReview reviewUid _ _ _ _ _ => some reviewUid
  | _ => none

/-- The fresh uid is not in use. -/
def UidFree (d : Db) (c : CreateCall) : Prop := ∀ uid ∈ c.reviewUid?, d.reviews.find? uid = none

end CreateCall

/-! ## A new row among the others -/

section Rows

variable {d : Db}

theorem liveRows_block (a b : String) :
    liveRows d (.block a b) = ((d.blocks.find? (a, b)).map CreatedRow.block).toList := by
  have hp : ∀ r : UserBlock, (r.blockerUid == a && r.blockedUid == b) = true ↔
      (r.blockerUid, r.blockedUid) = (a, b) := by simp
  rw [liveRows, Table.select_eq_find? hp]
  cases d.blocks.find? (a, b) <;> rfl

theorem liveRows_member (g u : String) :
    liveRows d (.member g u) = ((d.members.find? (g, u)).map CreatedRow.member).toList := by
  have hp : ∀ m : SpotGroupMember, (m.groupUid == g && m.userUid == u) = true ↔
      (m.groupUid, m.userUid) = (g, u) := by simp
  rw [liveRows, Table.select_eq_find? hp]
  cases d.members.find? (g, u) <;> rfl

theorem liveRows_groupSpot (g s : String) :
    liveRows d (.groupSpot g s) =
      ((d.groupSpots.find? (g, s)).map CreatedRow.groupSpot).toList := by
  have hp : ∀ x : SpotGroupSpot, (x.groupUid == g && x.spotUid == s) = true ↔
      (x.groupUid, x.spotUid) = (g, s) := by simp
  rw [liveRows, Table.select_eq_find? hp]
  cases d.groupSpots.find? (g, s) <;> rfl

/-- A row under a key that is free is one more live row of its key, and of no other. -/
theorem liveRows_insert {c : CreateCall} (hfree : liveRows d c.key = []) (huid : c.UidFree d)
    (k : RowId) :
    liveRows (c.row.insert d) k = liveRows d k ++ if k = c.key then [c.row] else [] := by
  cases c with
  | blockUser a b now =>
      have hnone : d.blocks.find? (a, b) = none := by
        simpa [CreateCall.key, liveRows_block] using hfree
      cases k with
      | block a' b' =>
          simp only [liveRows, CreateCall.row, CreatedRow.insert, CreateCall.key,
            Table.select_insert (t := d.blocks) (r := ⟨a, b, now⟩) hnone, List.map_append]
          grind
      | _ => simp [liveRows, CreateCall.row, CreatedRow.insert, CreateCall.key]
  | addMember g u role inviter now =>
      have hnone : d.members.find? (g, u) = none := by
        simpa [CreateCall.key, liveRows_member] using hfree
      cases k with
      | member g' u' =>
          simp only [liveRows, CreateCall.row, CreatedRow.insert, CreateCall.key,
            Table.select_insert (t := d.members) (r := ⟨g, u, role, some inviter, some now⟩) hnone,
            List.map_append]
          grind
      | _ => simp [liveRows, CreateCall.row, CreatedRow.insert, CreateCall.key]
  | addSpot g s adder now =>
      have hnone : d.groupSpots.find? (g, s) = none := by
        simpa [CreateCall.key, liveRows_groupSpot] using hfree
      cases k with
      | groupSpot g' s' =>
          simp only [liveRows, CreateCall.row, CreatedRow.insert, CreateCall.key,
            Table.select_insert (t := d.groupSpots) (r := ⟨g, s, adder, some now⟩) hnone,
            List.map_append]
          grind
      | _ => simp [liveRows, CreateCall.row, CreatedRow.insert, CreateCall.key]
  | createReview uid s u rating content now =>
      have hnone : d.reviews.find? uid = none := huid uid rfl
      cases k with
      | review s' u' =>
          simp only [liveRows, CreateCall.row, CreatedRow.insert, insertReview, CreateCall.key,
            Table.select_insert (t := d.reviews)
              (r := ⟨uid, s, u, rating, content, some now, some now, none⟩) hnone,
            List.map_append]
          grind [SpotReview.activeOf]
      | _ => simp [liveRows, CreateCall.row, CreatedRow.insert, insertReview, CreateCall.key]

end Rows

/-! ## What a call knows -/

/-- The database takes the spots that it holds. -/
def SpotsTaken (be : Backend) (d : Db) : Prop := ∀ s ∈ d.spots.rows, refusesSpotRow be s = none

/-- The aggregates of its reviews are no reason to refuse a spot. -/
def TakesAggregates (be : Backend) : Prop :=
  ∀ (s : Spot) (avg : ℚ) (count : ℕ) (updatedAt : Timestamp), refusesSpotRow be s = none →
    refusesSpotRow be
      { s with ratingAvg := avg, reviewCount := count, updatedAt := some updatedAt } =
      none

/-- The committed database that a statement of a call meets. -/
structure Meets (be : Backend) (c : CreateCall) (seen : List Db) (commits : List (List Change))
    (d : Db) : Prop where
  still : ∀ d₀ ∈ seen.getLast?, liveRows d₀ c.key = [] → commits = [] → liveRows d c.key = []
  known : c.Known d
  free : commits = [] → c.UidFree d
  made : commits ≠ [] → liveRows d c.key = [c.row]
  taken : SpotsTaken be d

/-- What a call commits: once, its row, when its lookup has found none; a review with the
aggregates of its spot. -/
structure Creates (be : Backend) (c : CreateCall) (w : Work Db RowKey Change) (seen : List Db)
    (commits : List (List Change)) : Prop where
  first : commits = []
  changed : w.changes ≠ []
  looked : ∃ d₀ ∈ seen.getLast?, liveRows d₀ c.key = []
  write : ∀ d, w.write d = { c.row.insert d with spots := (w.write d).spots }
  spotKeys : ∀ d uid, ((w.write d).spots.find? uid).isSome = (d.spots.find? uid).isSome
  taken : ∀ d, SpotsTaken be d → SpotsTaken be (w.write d)

/-- A call ends with its own row, or as documented for the rows of its lookup. -/
def Ends (c : CreateCall) (r : Except Exc CreatedRow) (o : Own Db RowKey Change) : Prop :=
  (o.commits ≠ [] ∧ r = .ok c.row) ∨
    o.commits = [] ∧ ∃ d ∈ o.seen, c.Documented (liveRows d c.key) r

section Program

variable {ι : Type} [DecidableEq ι] {cfg : Settings} {be : Backend} {calls : ι → CreateCall}
  {i : ι}

/-- The step of a call meets what is known of it. -/
def Strict (be : Backend) (calls : ι → CreateCall) (i : ι) (s _ : State ι) : Prop :=
  Meets be (calls i) (s.seen i) (s.commits i) s.db

/-- The logic of the calls. -/
abbrev creationLogic (be : Backend) (calls : ι → CreateCall) :
    KnowledgeLogic (calm (Strict be calls) : System ι Exc Command (State ι))
      (Own Db RowKey Change) :=
  sessionLogic (attended_calm _) (fun i => Meets be (calls i)) (fun _ _ _ h => h)
    fun i => Creates be (calls i)

omit [DecidableEq ι] in
/-- At the `INSERT` there is still no row. -/
theorem Meets.live_nil {c : CreateCall} {d₀ d : Db} (h : Meets be c [d₀] [] d)
    (hlook : liveRows d₀ c.key = []) : liveRows d c.key = [] :=
  h.still d₀ rfl hlook rfl

/-- How the program of a call ends, before its session does. -/
def Made {ρ : Type} (wrap : ρ → CreatedRow) (c : CreateCall) (r : Except Exc ρ)
    (o : Own Db RowKey Change) : Prop := Ends c (r.map wrap) (o.withWork {})

theorem knows_created {ρ : Type} {wrap : ρ → CreatedRow} {c : CreateCall} {p : App ρ}
    {o : Own Db RowKey Change} (h : Knows (creationLogic be calls) i (Made wrap c) p o) :
    Knows (creationLogic be calls) i (Ends c) (withSession (p.bind fun r => .ret (wrap r))) o := by
  apply knows_withSession
  apply Knows.bind
  refine h.mono fun r o' hmade => ?_
  cases r with
  | ok x => exact hmade
  | error e => exact hmade

/-- Look a row up, and insert it when there is none. -/
def lookupThenInsert {ρ : Type} (find : Db → Option ρ) (found : ρ → Except Exc ρ)
    (insert : Statement Unit) : App ρ := do
  match ← select find with
  | some r => Prog.ofExcept (found r)
  | none => do
    execute insert
    commit
    match ← select find with
    | some r => return r
    | none => .raise (.database "InvalidRequestError" "Could not refresh instance")

/-- A call that looks its row up and inserts it ends with its own row, or as documented. -/
theorem knows_lookupThenInsert {ρ : Type} {c : CreateCall} (hc : calls i = c)
    (find : Db → Option ρ) (found : ρ → Except Exc ρ) (insert : Statement Unit)
    (wrap : ρ → CreatedRow) (x : ρ) (hwrap : Function.Injective wrap) (hrow : c.row = wrap x)
    (hlive : ∀ d, liveRows d c.key = ((find d).map wrap).toList)
    (hfound : ∀ d r, find d = some r → c.Documented (liveRows d c.key) ((found r).map wrap))
    (hinsert : ∀ locked d, c.Known d → find d = none → ∃ locks change,
      insert locked d = .ok ⟨(), fun d => c.row.insert d, locks, [change]⟩)
    (hspots : ∀ d, (c.row.insert d).spots = d.spots) :
    Knows (creationLogic be calls) i (Made wrap c) (lookupThenInsert find found insert) {} := by
  apply Knows.read rfl False.elim
  rintro d -
  split
  · rename_i r hr
    apply Knows.ofExcept
    exact .inr ⟨rfl, d, List.mem_singleton_self d, hfound d r hr⟩
  · rename_i hnone
    have hlook : liveRows d c.key = [] := by
      have hnone' : find d = none := hnone
      simp [hlive, hnone']
    have hdone : ∀ locked d₁, Meets be (calls i) [d] [] d₁ → ∃ locks change,
        insert locked d₁ = .ok ⟨(), fun d => c.row.insert d, locks, [change]⟩ := by
      intro locked d₁ hd₁
      rw [hc] at hd₁
      apply hinsert locked d₁ hd₁.known
      have hfree := hd₁.live_nil hlook
      rw [hlive] at hfree
      simpa using hfree
    apply Knows.sql rfl False.elim
    · rintro locked d₁ hd₁ eff heff -
      obtain ⟨locks, change, hins⟩ := hdone locked d₁ hd₁
      cases hins.symm.trans heff
      apply Knows.commit rfl False.elim
      · rw [hc]
        refine ⟨rfl, List.cons_ne_nil _ _, ⟨d, rfl, hlook⟩, fun d' => ?_, fun d' uid => ?_,
          fun d' hd' => ?_⟩
        · rfl
        · show ((c.row.insert d').spots.find? uid).isSome = _
          rw [hspots]
        · show ∀ s ∈ (c.row.insert d').spots.rows, _
          rw [hspots]
          exact hd'
      apply Knows.read rfl False.elim
      intro d₂ hd₂
      rw [hc] at hd₂
      have hmade : find d₂ = some x := by
        have hone := hd₂.made (List.cons_ne_nil _ _)
        rw [hlive, hrow] at hone
        cases hfind : find d₂ with
        | none => simp [hfind] at hone
        | some y =>
            have hy : wrap y = wrap x := by simpa [hfind] using hone
            rw [hwrap hy]
      split
      · rename_i y hy
        have hsame : some y = some x := hy.symm.trans hmade
        cases hsame
        exact .inl ⟨List.cons_ne_nil _ _, congrArg Except.ok hrow.symm⟩
      · rename_i hgone
        have hnot : find d₂ = none := hgone
        rw [hmade] at hnot
        cases hnot
    · intro locked d₁ hd₁ e he
      obtain ⟨locks, change, hins⟩ := hdone locked d₁ hd₁
      cases hins.symm.trans he

theorem blockUser_eq (a b : String) (now : Timestamp) :
    blockUser now a b = lookupThenInsert (fun d => d.blocks.find? (a, b)) .ok
      (insertBlockRow ⟨a, b, now⟩) := by
  apply Prog.bind_congr
  intro found
  cases found with
  | some existing => rfl
  | none =>
      refine Prog.bind_congr fun _ => Prog.bind_congr fun _ => Prog.bind_congr fun made => ?_
      cases made <;> rfl

theorem addMember_eq (g u : String) (role : GroupRole) (inviter : String) (now : Timestamp) :
    addMember now g u (some role) inviter = lookupThenInsert (fun d => d.members.find? (g, u))
      (fun _ => .error (.app .spotGroupMemberAlreadyExists "Already a member of this group"))
      (insertMemberRow ⟨g, u, role, some inviter, some now⟩) := by
  apply Prog.bind_congr
  intro found
  cases found with
  | some m => rfl
  | none =>
      refine Prog.bind_congr fun _ => Prog.bind_congr fun _ => Prog.bind_congr fun made => ?_
      cases made <;> rfl

theorem addSpot_eq (g s adder : String) (now : Timestamp) :
    addSpot now g s adder = lookupThenInsert (fun d => d.groupSpots.find? (g, s))
      (fun _ => .error (.app .spotGroupSpotAlreadyExists "Spot already in this group"))
      (insertGroupSpotRow ⟨g, s, adder, some now⟩) := by
  apply Prog.bind_congr
  intro found
  cases found with
  | some item => rfl
  | none =>
      refine Prog.bind_congr fun _ => Prog.bind_congr fun _ => Prog.bind_congr fun made => ?_
      cases made <;> rfl

theorem knows_blockUser {a b : String} {now : Timestamp} (hc : calls i = .blockUser a b now) :
    Knows (creationLogic be calls) i (Ends (calls i)) ((calls i).program cfg be) {} := by
  rw [hc, CreateCall.program, blockUser_eq]
  apply knows_created
  apply knows_lookupThenInsert hc _ _ _ _ ⟨a, b, now⟩
  · intro x y h
    cases h
    rfl
  · rfl
  · exact fun d => liveRows_block a b
  · intro d r hr
    exact ⟨.block r, by simp [CreateCall.key, liveRows_block, hr], rfl⟩
  · rintro locked d ⟨hne, ha, hb⟩ hnone
    refine ⟨[.block a b], .block a b, ?_⟩
    simp [insertBlockRow, hne, hnone, Option.isSome_iff_ne_none.1 ha,
      Option.isSome_iff_ne_none.1 hb, CreateCall.row, CreatedRow.insert]
  · exact fun _ => rfl

theorem knows_addMember {g u : String} {role : GroupRole} {inviter : String} {now : Timestamp}
    (hc : calls i = .addMember g u role inviter now) :
    Knows (creationLogic be calls) i (Ends (calls i)) ((calls i).program cfg be) {} := by
  rw [hc, CreateCall.program, addMember_eq]
  apply knows_created
  apply knows_lookupThenInsert hc _ _ _ _ ⟨g, u, role, some inviter, some now⟩
  · intro x y h
    cases h
    rfl
  · rfl
  · exact fun d => liveRows_member g u
  · intro d m hm
    exact ⟨by simp [CreateCall.key, liveRows_member, hm], rfl⟩
  · rintro locked d ⟨hg, hu, hinviter⟩ hnone
    refine ⟨[.member g u], .member g u, ?_⟩
    simp [insertMemberRow, hnone, Option.isSome_iff_ne_none.1 hg, Option.isSome_iff_ne_none.1 hu,
      Option.isSome_iff_ne_none.1 hinviter, CreateCall.row, CreatedRow.insert]
  · exact fun _ => rfl

theorem knows_addSpot {g s adder : String} {now : Timestamp}
    (hc : calls i = .addSpot g s adder now) :
    Knows (creationLogic be calls) i (Ends (calls i)) ((calls i).program cfg be) {} := by
  rw [hc, CreateCall.program, addSpot_eq]
  apply knows_created
  apply knows_lookupThenInsert hc _ _ _ _ ⟨g, s, adder, some now⟩
  · intro x y h
    cases h
    rfl
  · rfl
  · exact fun d => liveRows_groupSpot g s
  · intro d x hx
    exact ⟨by simp [CreateCall.key, liveRows_groupSpot, hx], rfl⟩
  · rintro locked d ⟨hg, hs, hadder⟩ hnone
    refine ⟨[.groupSpot g s], .groupSpot g s, ?_⟩
    simp [insertGroupSpotRow, hnone, Option.isSome_iff_ne_none.1 hg,
      Option.isSome_iff_ne_none.1 hs, Option.isSome_iff_ne_none.1 hadder, CreateCall.row,
      CreatedRow.insert]
  · exact fun _ => rfl

/-! ### Reviews -/

omit [DecidableEq ι] in
/-- No row is refused, so their update is not. -/
theorem refusal_eq_none {f : Rewrite Spot.uid} {rows : List Spot}
    (h : ∀ s ∈ rows, ∃ s', f.apply s = some s' ∧ refusesSpotRow be s' = none) :
    refusal be f rows = none := by
  induction rows with
  | nil => rfl
  | cons s rows ih =>
      obtain ⟨s', happly, hnot⟩ := h s (List.mem_cons_self ..)
      simp only [refusal, happly, hnot]
      exact ih fun t ht => h t (List.mem_cons_of_mem _ ht)

omit [DecidableEq ι] in
theorem updateSpots_eq {p : Spot → Bool} {f : Rewrite Spot.uid} {columns : List String}
    {locked : RowKey → Bool} {d : Db} (h : refusal be f (d.spots.select p) = none) :
    updateSpots be p f columns locked d = .ok
      ⟨(d.spots.select p).map Spot.uid, rewriteSpots ((d.spots.select p).map Spot.uid) f,
        ((d.spots.select p).map Spot.uid).map .spot,
        ((d.spots.select p).map Spot.uid).map fun u => .spot u columns⟩ := by
  simp only [updateSpots, h]

theorem uid_aggregated (now : Timestamp) (avg : ℚ) (count : ℕ) (s : Spot) :
    ({ s with ratingAvg := avg, reviewCount := count, updatedAt := some now } : Spot).uid = s.uid :=
  rfl

/-- The aggregates of a spot, and the time they were written. -/
def aggregated (now : Timestamp) (avg : ℚ) (count : ℕ) : Rewrite Spot.uid :=
  .total (fun s => { s with ratingAvg := avg, reviewCount := count, updatedAt := some now })
    (uid_aggregated now avg count)

omit [DecidableEq ι] in
/-- Writing the aggregates of a spot goes through where the database takes its spots. -/
theorem setAggregates_eq (haccepts : TakesAggregates be) {now : Timestamp} {spotUid : String}
    {avg : ℚ} {count : ℕ} {locked : RowKey → Bool} {d : Db} (hd : SpotsTaken be d) :
    ∃ uids changes, setAggregates be now spotUid avg count locked d =
      .ok ⟨uids, rewriteSpots uids (aggregated now avg count), uids.map .spot, changes⟩ := by
  have hnone : refusal be (aggregated now avg count)
      (d.spots.select fun s => s.uid == spotUid) = none := by
    apply refusal_eq_none
    intro s hs
    exact ⟨_, rfl, haccepts s avg count now (hd s (Table.mem_select.1 hs).1)⟩
  exact ⟨_, _, updateSpots_eq hnone⟩

omit [DecidableEq ι] in
theorem SpotsTaken.aggregated (haccepts : TakesAggregates be) {now : Timestamp}
    {uids : List String} {avg : ℚ} {count : ℕ} {d : Db} (hd : SpotsTaken be d) :
    SpotsTaken be (rewriteSpots uids (aggregated now avg count) d) := by
  intro s hs
  obtain ⟨s₀, hs₀, rfl⟩ := List.mem_map.1 hs
  by_cases huid : s₀.uid ∈ uids
  · rw [if_pos (decide_eq_true huid)]
    exact haccepts s₀ avg count now (hd s₀ hs₀)
  · rw [if_neg (by simpa using huid)]
    exact hd s₀ hs₀

/-- A review is one of the live ones of its key that a lookup may find. -/
theorem liveRows_review_eq_nil {s u : String} {d : Db} (h : d.reviews.rows.find?
    (fun r => r.activeOf s && r.userId == u) = none) : liveRows d (.review s u) = [] := by
  simp only [liveRows, List.map_eq_nil_iff]
  exact List.filter_eq_nil_iff.2 (List.find?_eq_none.1 h)

/-- A review with the aggregates of its spot is what `create_review` commits. -/
theorem creates_review (haccepts : TakesAggregates be) {uid s u : String} {rating : ℤ}
    {content : Option String} {now : Timestamp} {w : Work Db RowKey Change}
    (hwrite : w.write = insertReview ⟨uid, s, u, rating, content, some now, some now, none⟩)
    (hchanged : w.changes ≠ []) {seen : List Db}
    (hlook : ∃ d₀ ∈ seen.getLast?, liveRows d₀ (.review s u) = []) {uids : List String} {avg : ℚ}
    {count : ℕ} {locks : List RowKey} {changes : List Change} :
    Creates be (.createReview uid s u rating content now)
      (w.andThen ⟨uids, rewriteSpots uids (aggregated now avg count), locks, changes⟩) seen [] := by
  have hboth : (w.andThen ⟨uids, rewriteSpots uids (aggregated now avg count), locks,
      changes⟩).write = fun d => rewriteSpots uids (aggregated now avg count)
        (insertReview ⟨uid, s, u, rating, content, some now, some now, none⟩ d) := by
    simp only [Work.andThen, hwrite]
    rfl
  refine ⟨rfl, ?_, hlook, fun d => ?_, fun d k => ?_, fun d hd => ?_⟩
  · simp [Work.andThen, hchanged]
  · rw [hboth]
    rfl
  · rw [hboth]
    show ((d.spots.rewrite _ _).find? k).isSome = _
    rw [Table.find?_rewrite, Option.isSome_map]
  · rw [hboth]
    exact SpotsTaken.aggregated haccepts hd

/-- A review that is inserted is committed with the aggregates of its spot, and returned. -/
theorem knows_insertedReview (haccepts : TakesAggregates be) {uid s u : String} {rating : ℤ}
    {content : Option String} {now : Timestamp}
    (hc : calls i = .createReview uid s u rating content now) {w : Work Db RowKey Change}
    (hwrite : w.write = insertReview ⟨uid, s, u, rating, content, some now, some now, none⟩)
    (hchanged : w.changes ≠ []) {d d₁ : Db} (hlook : liveRows d (.review s u) = []) :
    Knows (creationLogic be calls) i (Made .review (.createReview uid s u rating content now))
      (do
        recalculateSpotRating be now s
        commit
        let review ← refreshReview uid
        Cache.invalidateSpotDetail cfg s
        return review) ⟨some w, [d₁, d], []⟩ := by
  apply Knows.bind
  apply Knows.read rfl False.elim
  rintro d₂ -
  apply Knows.sql rfl False.elim
  · rintro locked d₃ hd₃ eff heff -
    rw [hc] at hd₃
    have htaken : SpotsTaken be (w.write d₃) := by
      rw [hwrite]
      exact hd₃.taken
    obtain ⟨uids, changes, hset⟩ := setAggregates_eq haccepts htaken
    cases hset.symm.trans heff
    apply Knows.commit rfl False.elim
    · rw [hc]
      exact creates_review haccepts hwrite hchanged ⟨d, rfl, hlook⟩
    apply Knows.bind
    apply Knows.read rfl False.elim
    intro d₄ hd₄
    rw [hc] at hd₄
    have hrow : d₄.reviews.find? uid =
        some ⟨uid, s, u, rating, content, some now, some now, none⟩ := by
      have hone := hd₄.made (List.cons_ne_nil _ _)
      simp only [liveRows, CreateCall.key] at hone
      have hmem := hone ▸ List.mem_singleton_self (CreateCall.row
        (.createReview uid s u rating content now))
      obtain ⟨r, hr, hsame⟩ := List.mem_map.1 hmem
      cases hsame
      exact Table.find?_eq_some.2 ⟨(Table.mem_select.1 hr).1, rfl⟩
    split
    · rename_i r hr
      have hsame : some r = some _ := hr.symm.trans hrow
      cases hsame
      apply knows_bump
      exact .inl ⟨List.cons_ne_nil _ _, rfl⟩
    · rename_i hgone
      have hnot : d₄.reviews.find? uid = none := hgone
      rw [hrow] at hnot
      cases hnot
  · intro locked d₃ hd₃ e he
    rw [hc] at hd₃
    have htaken : SpotsTaken be (w.write d₃) := by
      rw [hwrite]
      exact hd₃.taken
    obtain ⟨uids, changes, hset⟩ := setAggregates_eq haccepts htaken
    cases hset.symm.trans he

theorem knows_createReview (haccepts : TakesAggregates be) {uid s u : String} {rating : ℤ}
    {content : Option String} {now : Timestamp}
    (hc : calls i = .createReview uid s u rating content now) :
    Knows (creationLogic be calls) i (Ends (calls i)) ((calls i).program cfg be) {} := by
  rw [hc]
  apply knows_created
  apply Knows.read rfl False.elim
  rintro d -
  split
  · rename_i r hr
    have hfound : d.reviews.rows.find? (fun r => r.activeOf s && r.userId == u) = some r := hr
    refine .inr ⟨rfl, d, List.mem_singleton_self d, ?_, rfl⟩
    intro hnil
    simp only [liveRows, CreateCall.key, List.map_eq_nil_iff] at hnil
    have hmeets : (r.activeOf s && r.userId == u) = true :=
      List.find?_some (p := fun r : SpotReview => r.activeOf s && r.userId == u) hfound
    exact List.filter_eq_nil_iff.1 hnil r (List.mem_of_find?_eq_some hfound) hmeets
  · rename_i hr
    have hlook : liveRows d (.review s u) = [] := liveRows_review_eq_nil hr
    apply Knows.sql rfl False.elim
    · rintro locked d₁ - eff heff hfree
      rcases insertReviewRow_eq_ok heff with ⟨held, hlocked, rfl⟩ | ⟨-, rfl⟩
      · -- another session holds the row: the statement waits
        exact absurd (hfree _ (List.mem_singleton_self _)) (by simp [hlocked])
      exact knows_insertedReview haccepts hc rfl (List.cons_ne_nil _ _) hlook
    · intro locked d₁ hd₁ e he
      rw [hc] at hd₁
      obtain ⟨hs, hu, ⟨hlow, hhigh⟩, hstorable⟩ := hd₁.known
      have huid : d₁.reviews.find? uid = none := hd₁.free rfl uid rfl
      have hfree : d₁.reviews.rows.find? (fun r => r.activeOf s && r.userId == u) = none := by
        have hnil := hd₁.live_nil hlook
        simp only [liveRows, CreateCall.key, List.map_eq_nil_iff] at hnil
        exact List.find?_eq_none.2 (List.filter_eq_nil_iff.1 hnil)
      have hdone :
          insertReviewRow ⟨uid, s, u, rating, content, some now, some now, none⟩ locked d₁ =
          .error e := he
      simp [insertReviewRow, huid, Option.isSome_iff_ne_none.1 hs, Option.isSome_iff_ne_none.1 hu,
        SpotReview.checkRating, hlow, hhigh, hfree, hstorable] at hdone

theorem knows_program (haccepts : TakesAggregates be) (i : ι) :
    Knows (creationLogic be calls) i (Ends (calls i)) ((calls i).program cfg be) {} := by
  cases hc : calls i with
  | blockUser a b now => exact hc ▸ knows_blockUser hc
  | addMember g u role inviter now => exact hc ▸ knows_addMember hc
  | addSpot g s adder now => exact hc ▸ knows_addSpot hc
  | createReview uid s u rating content now => exact hc ▸ knows_createReview haccepts hc

end Program

/-! ## All calls -/

section Pool

variable {ι : Type} [DecidableEq ι] {be : Backend} {calls : ι → CreateCall} {start : Db}

/-- A call takes a step before its commit only while its lookup is right that there is no row. -/
def LookupStands (calls : ι → CreateCall) (i : ι) (s _ : State ι) : Prop :=
  ∀ d ∈ (s.seen i).getLast?, liveRows d (calls i).key = [] → s.commits i = [] →
    liveRows s.db (calls i).key = []

/-- What the calls have committed, and the live rows. -/
structure CreationLaw (be : Backend) (calls : ι → CreateCall) (start d : Db)
    (commits : ι → List (List Change)) : Prop where
  known : ∀ i, (calls i).Known d
  free : ∀ i, commits i = [] → (calls i).UidFree d
  made : ∀ i, commits i ≠ [] → liveRows d (calls i).key = [(calls i).row]
  absent : ∀ i, commits i ≠ [] → liveRows start (calls i).key = []
  once : ∀ i j, commits i ≠ [] → commits j ≠ [] → (calls i).key = (calls j).key → i = j
  others : ∀ k, liveRows d k = liveRows start k ∨ ∃ i, (calls i).key = k ∧ commits i ≠ []
  taken : SpotsTaken be d

/-- No row that was live is gone. -/
def Kept (d d' : Db) : Prop := ∀ k, ∀ row ∈ liveRows d k, row ∈ liveRows d' k

theorem CreationLaw.meets {s s' : State ι} {i : ι} (h : CreationLaw be calls start s.db s.commits)
    (hstands : LookupStands calls i s s') :
    Meets be (calls i) (s.seen i) (s.commits i) s.db :=
  ⟨hstands, h.known i, h.free i, h.made i, h.taken⟩

omit [DecidableEq ι] in
/-- What a call commits leaves the rows that the others refer to. -/
theorem Creates.known {c c' : CreateCall} {w : Work Db RowKey Change} {seen : List Db}
    {commits : List (List Change)} (h : Creates be c w seen commits) {d : Db} (hc : c'.Known d) :
    c'.Known (w.write d) := by
  have hspots : ∀ uid, ((w.write d).spots.find? uid).isSome = (d.spots.find? uid).isSome :=
    h.spotKeys d
  have htables : (w.write d).users = d.users ∧ (w.write d).groups = d.groups := by
    rw [h.write]
    cases c <;> exact ⟨rfl, rfl⟩
  cases c' with
  | blockUser a b now => simpa only [CreateCall.Known, htables.1] using hc
  | addMember g u role inviter now =>
      simpa only [CreateCall.Known, htables.1, htables.2] using hc
  | addSpot g s adder now => simpa only [CreateCall.Known, htables.1, htables.2, hspots] using hc
  | createReview uid s u rating content now =>
      simpa only [CreateCall.Known, htables.1, hspots] using hc

omit [DecidableEq ι] in
/-- It takes no uid but its own. -/
theorem Creates.free {c c' : CreateCall} {w : Work Db RowKey Change} {seen : List Db}
    {commits : List (List Change)} (h : Creates be c w seen commits)
    (hne : ∀ uid ∈ c'.reviewUid?, c.reviewUid? ≠ some uid) {d : Db} (hc : c'.UidFree d) :
    c'.UidFree (w.write d) := by
  intro uid huid
  have hold : d.reviews.find? uid = none := hc uid huid
  rw [h.write]
  cases c with
  | createReview uid' s u rating content now =>
      have hdiff : uid' ≠ uid := by
        rintro rfl
        exact hne uid' huid rfl
      show (d.reviews.insert _).find? uid = none
      rw [Table.find?_insert_of_ne hdiff]
      exact hold
  | _ => exact hold

/-- One commit keeps the law. -/
theorem CreationLaw.commit {i : ι} {s s' : State ι}
    (hdistinct : ∀ i j, (calls i).reviewUid? = (calls j).reviewUid? →
      (calls i).reviewUid? ≠ none → i = j)
    (hfact : Creates be (calls i) (s.tx i).work (s.seen i) (s.commits i))
    (hstands : LookupStands calls i s s') (hdb : s'.db = (s.tx i).work.write s.db)
    (hcommits : s'.commits = Function.update s.commits i (s.commits i ++ [(s.tx i).work.changes]))
    (h : CreationLaw be calls start s.db s.commits) :
    CreationLaw be calls start s'.db s'.commits ∧ Kept s.db s'.db := by
  obtain ⟨d₀, hd₀, hlook⟩ := hfact.looked
  have hfree : liveRows s.db (calls i).key = [] := hstands d₀ hd₀ hlook hfact.first
  have hlive : ∀ k, liveRows s'.db k =
      liveRows s.db k ++ if k = (calls i).key then [(calls i).row] else [] := by
    intro k
    have hrows : liveRows s'.db k = liveRows ((calls i).row.insert s.db) k := by
      rw [hdb, hfact.write]
      cases k <;> rfl
    rw [hrows, liveRows_insert hfree (h.free i hfact.first)]
  have hself : s'.commits i ≠ [] := by
    rw [hcommits, Function.update_self]
    simp
  have hother : ∀ j, j ≠ i → s'.commits j = s.commits j := by
    intro j hj
    rw [hcommits, Function.update_of_ne hj]
  -- a call of the same key that had committed before would have left its row
  have hfirst : ∀ j, j ≠ i → s'.commits j ≠ [] → (calls j).key ≠ (calls i).key := by
    intro j hj hjc hkey
    rw [hother j hj] at hjc
    have hrow := h.made j hjc
    rw [hkey, hfree] at hrow
    cases hrow
  refine ⟨⟨?_, ?_, ?_, ?_, ?_, ?_, ?_⟩, ?_⟩
  · intro j
    rw [hdb]
    exact hfact.known (h.known j)
  · intro j hj
    have hji : j ≠ i := by
      rintro rfl
      exact hself hj
    rw [hother j hji] at hj
    rw [hdb]
    apply hfact.free _ (h.free j hj)
    intro uid huid hsame
    have huid' : (calls j).reviewUid? = some uid := huid
    exact hji (hdistinct j i (huid'.trans hsame.symm) (by simp [huid']))
  · intro j hj
    by_cases hji : j = i
    · rw [hji, hlive, hfree, if_pos rfl]
      rfl
    · have hne := hfirst j hji hj
      rw [hother j hji] at hj
      rw [hlive, if_neg hne, List.append_nil]
      exact h.made j hj
  · intro j hj
    by_cases hji : j = i
    · rw [hji]
      rcases h.others (calls i).key with hsame | ⟨m, hkey, hm⟩
      · rw [← hsame]
        exact hfree
      · have hrow := h.made m hm
        rw [hkey, hfree] at hrow
        cases hrow
    · rw [hother j hji] at hj
      exact h.absent j hj
  · intro j m hj hm hkey
    by_cases hji : j = i
    · by_cases hmi : m = i
      · rw [hji, hmi]
      · exact absurd (hji ▸ hkey).symm (hfirst m hmi hm)
    · by_cases hmi : m = i
      · exact absurd (hmi ▸ hkey) (hfirst j hji hj)
      · rw [hother j hji] at hj
        rw [hother m hmi] at hm
        exact h.once j m hj hm hkey
  · intro k
    by_cases hk : k = (calls i).key
    · exact .inr ⟨i, hk.symm, hself⟩
    · rw [hlive, if_neg hk, List.append_nil]
      rcases h.others k with hsame | ⟨m, hkey, hm⟩
      · exact .inl hsame
      · have hmi : m ≠ i := fun hmi => hk (hmi ▸ hkey.symm)
        exact .inr ⟨m, hkey, hother m hmi ▸ hm⟩
  · rw [hdb]
    exact hfact.taken _ h.taken
  · intro k row hrow
    rw [hlive]
    exact List.mem_append_left _ hrow

/-- The law holds of every run in which the lookups stand, and no live row goes. -/
theorem creationLaw_run {cfg : Settings} (haccepts : TakesAggregates be)
    (hdistinct : ∀ i j, (calls i).reviewUid? = (calls j).reviewUid? →
      (calls i).reviewUid? ≠ none → i = j)
    {c c' : Config ι Exc Command (State ι) CreatedRow} (hidle : Idle c.state)
    (hstart : ∀ i, c.thread i = (calls i).program cfg be)
    (hknown : ∀ i, (calls i).Known c.state.db) (hfree : ∀ i, (calls i).UidFree c.state.db)
    (htaken : SpotsTaken be c.state.db) (hrun : Run (calm (LookupStands calls)) c c') :
    CreationLaw be calls c.state.db c'.state.db c'.state.commits ∧
      AllKnow (creationLogic be calls) (fun i => Ends (calls i)) c' ∧
      ∀ i, ∀ d ∈ c'.state.seen i, Kept d c'.state.db := by
  have hknows : AllKnow (creationLogic be calls) (fun i => Ends (calls i)) c := by
    apply AllKnow.of_idle hidle
    intro i
    rw [hstart]
    exact knows_program haccepts i
  have hlaw₀ : CreationLaw be calls c.state.db c.state.db c.state.commits := by
    have hnone : ∀ i, ¬c.state.commits i ≠ [] := fun i => not_not.2 (hidle.commits i)
    exact ⟨hknown, fun i _ => hfree i, fun i hi => absurd hi (hnone i), fun i hi =>
      absurd hi (hnone i), fun i j hi => absurd hi (hnone i), fun k => .inl rfl, htaken⟩
  have hlaw : ∀ b, Run (calm (Strict be calls)) c b →
      CreationLaw be calls c.state.db b.state.db b.state.commits := by
    intro b hb
    apply hknows.own_induct (J := CreationLaw be calls c.state.db) _ hb hlaw₀
    intro i s s' hfact hmeets hdb hcommits h
    exact (h.commit hdistinct hfact hmeets.still hdb hcommits).1
  have hstrict : Run (calm (Strict be calls)) c c' := by
    refine Run.guarded_strengthen (fun b _ hb i s' hstands => ?_) hrun
    exact (hlaw b hb).meets hstands
  refine ⟨hlaw c' hstrict, hknows.run hstrict, ?_⟩
  apply Run.seen_before (T := Kept) (attended_calm _) (fun _ _ _ h => h)
    (fun hab hbc k row hrow => hbc k row (hab k row hrow)) _ hstrict hidle.seen_before
  intro b b' hb hstep
  cases (hknows.run hb).poolStep hstep with
  | quiet hdb hcommits =>
      rw [hdb]
      exact fun _ _ h => h
  | commit i hfact hmeets hdb hcommits =>
      exact ((hlaw b hb).commit hdistinct hfact hmeets.still hdb hcommits).2

end Pool

/-- In every run in which no row of a call's key is committed between the call's lookup and its
own commit: every key has at most one live row; a call that has ended has returned the row it
has committed itself, or ends as documented for the row that is there; and one call has
committed the row of a key that had none. -/
theorem create_once {ι : Type} [DecidableEq ι] (cfg : Settings) (be : Backend)
    (calls : ι → CreateCall) (haccepts : TakesAggregates be)
    (hdistinct : ∀ i j, (calls i).reviewUid? = (calls j).reviewUid? →
      (calls i).reviewUid? ≠ none → i = j)
    {c c' : Config ι Exc Command (State ι) CreatedRow} (hidle : Idle c.state)
    (hstart : ∀ i, c.thread i = (calls i).program cfg be)
    (hknown : ∀ i, (calls i).Known c.state.db) (hfree : ∀ i, (calls i).UidFree c.state.db)
    (htaken : SpotsTaken be c.state.db) (hunique : ∀ k, (liveRows c.state.db k).length ≤ 1)
    (hrun : Run (calm (LookupStands calls)) c c') :
    (∀ k, (liveRows c'.state.db k).length ≤ 1) ∧
      ∀ i r, (c'.thread i).outcome = some r →
        (liveRows c'.state.db (calls i).key).length = 1 ∧
        (c'.state.commits i ≠ [] ∧ r = .ok (calls i).row ∨
          c'.state.commits i = [] ∧
            (calls i).Documented (liveRows c'.state.db (calls i).key) r) ∧
        (liveRows c.state.db (calls i).key = [] →
          ∃! j, (calls j).key = (calls i).key ∧ c'.state.commits j ≠ []) := by
  obtain ⟨hlaw, hknows, hkept⟩ :=
    creationLaw_run haccepts hdistinct hidle hstart hknown hfree htaken hrun
  have hone : ∀ k, (liveRows c'.state.db k).length ≤ 1 := by
    intro k
    rcases hlaw.others k with hsame | ⟨i, rfl, hi⟩
    · rw [hsame]
      exact hunique k
    · rw [hlaw.made i hi]
      exact le_rfl
  refine ⟨hone, fun i r hended => ?_⟩
  obtain ⟨o, ho, hend⟩ := hknows.ended hended
  have hcommits : c'.state.commits i = o.commits := ho.commits
  -- there is a live row, and who found it or made it
  have hlive : liveRows c'.state.db (calls i).key ≠ [] ∧
      (c'.state.commits i ≠ [] ∧ r = .ok (calls i).row ∨ c'.state.commits i = [] ∧
        (calls i).Documented (liveRows c'.state.db (calls i).key) r) := by
    rcases hend with ⟨hcom, hr⟩ | ⟨hcom, d, hd, hdoc⟩
    · rw [← hcommits] at hcom
      refine ⟨?_, .inl ⟨hcom, hr⟩⟩
      rw [hlaw.made i hcom]
      exact List.cons_ne_nil _ _
    · have hsub : ∀ row ∈ liveRows d (calls i).key, row ∈ liveRows c'.state.db (calls i).key :=
        hkept i d (ho.seen ▸ hd) (calls i).key
      exact ⟨hdoc.live_ne_nil hsub, .inr ⟨hcommits.trans hcom, hdoc.mono hsub⟩⟩
  refine ⟨?_, hlive.2, fun hnone => ?_⟩
  · have hpos := List.length_pos_iff.2 hlive.1
    exact le_antisymm (hone _) hpos
  · rcases hlaw.others (calls i).key with hsame | ⟨j, hkey, hj⟩
    · exact absurd (hsame.trans hnone) hlive.1
    · refine ⟨j, ⟨hkey, hj⟩, fun m hm => ?_⟩
      exact hlaw.once m j hm.2 hj (hm.1.trans hkey.symm)

instance decidableLookupStands {ι : Type} [DecidableEq ι] (calls : ι → CreateCall) (i : ι)
    (s s' : State ι) : Decidable (LookupStands calls i s s') :=
  inferInstanceAs (Decidable (∀ d ∈ (s.seen i).getLast?, liveRows d (calls i).key = [] →
    s.commits i = [] → liveRows s.db (calls i).key = []))

instance CreateCall.decidableKnown (d : Db) : (c : CreateCall) → Decidable (c.Known d)
  | .blockUser _ _ _ => inferInstanceAs (Decidable (_ ∧ _ ∧ _))
  | .addMember _ _ _ _ _ => inferInstanceAs (Decidable (_ ∧ _ ∧ _))
  | .addSpot _ _ _ _ => inferInstanceAs (Decidable (_ ∧ _ ∧ _))
  | .createReview _ _ _ _ _ _ => inferInstanceAs (Decidable (_ ∧ _ ∧ _ ∧ _))

instance CreateCall.decidableUidFree (d : Db) (c : CreateCall) : Decidable (c.UidFree d) :=
  inferInstanceAs (Decidable (∀ uid ∈ c.reviewUid?, d.reviews.find? uid = none))

namespace Sample

/-- Two users, a group and a spot. -/
def beforeCreation : Db where
  __ := Db.empty
  users := ⟨[Vivac.Sample.user "a", Vivac.Sample.user "b"], by decide⟩
  groups := ⟨[{ uid := "g", name := "G" }], by decide⟩
  spots := ⟨[Vivac.Sample.spot "s"], by decide⟩

/-- Two calls of each operation. -/
def twiceEach : Fin 8 → CreateCall
  | 0 => .blockUser "a" "b" 0
  | 1 => .blockUser "a" "b" 1
  | 2 => .addMember "g" "b" .viewer "a" 0
  | 3 => .addMember "g" "b" .editor "a" 1
  | 4 => .addSpot "g" "s" "a" 0
  | 5 => .addSpot "g" "s" "b" 1
  | 6 => .createReview "x" "s" "a" 8 none 0
  | 7 => .createReview "y" "s" "a" 9 none 1

/-- A pool at its start. -/
def creating : Config (Fin 8) Exc Command (State (Fin 8)) CreatedRow :=
  ⟨World.fresh beforeCreation, fun i =>
    (twiceEach i).program Vivac.Sample.settings Vivac.Sample.backend⟩

/-- How a call has ended, but for its row. -/
def endedWith (c : Config (Fin 8) Exc Command (State (Fin 8)) CreatedRow) (i : Fin 8) :
    Option (Except Exc Unit) := (c.thread i).outcome.map fun r => r.map fun _ => ()

theorem spotsTaken_beforeCreation : SpotsTaken Vivac.Sample.backend beforeCreation := by
  intro s hs
  cases List.mem_singleton.1 hs
  rfl

theorem unique_beforeCreation (k : RowId) : (liveRows beforeCreation k).length ≤ 1 := by
  cases k <;> exact Nat.zero_le 1

end Sample

/-- The second call of each operation finds the row that the first one has made. -/
theorem create_once_in_turn :
    ∃ c', Run (calm (LookupStands Sample.twiceEach)) Sample.creating c' ∧
      (∀ k, (liveRows c'.state.db k).length ≤ 1) ∧
      ∀ i, (c'.thread i).outcome.isSome = true ∧
        (liveRows c'.state.db (Sample.twiceEach i).key).length = 1 := by
  have hrun : (follow (guardExec (fun i => exec i) (LookupStands Sample.twiceEach))
      ((List.replicate 5 0 ++ List.replicate 2 1) ++ (List.replicate 5 2 ++ List.replicate 2 3) ++
        (List.replicate 5 4 ++ List.replicate 2 5) ++ (List.replicate 8 6 ++ List.replicate 2 7))
      Sample.creating).any (fun c => decide (∀ i, (c.thread i).outcome.isSome = true)) = true := by
    decide +kernel
  obtain ⟨c', hrun', hended⟩ := exists_run_of_follow (E := fun _ _ => False) _ hrun
  have hguarded : Run (calm (LookupStands Sample.twiceEach)) Sample.creating c' :=
    Run.of_guardExec hrun'
  obtain ⟨hunique, houtcome⟩ :=
      create_once Vivac.Sample.settings Vivac.Sample.backend Sample.twiceEach
    (fun _ _ _ _ h => h) (by decide) (idle_fresh _) (fun _ => rfl) (by decide) (by decide)
    Sample.spotsTaken_beforeCreation Sample.unique_beforeCreation hguarded
  refine ⟨c', hguarded, hunique, fun i => ?_⟩
  have hsome : (c'.thread i).outcome.isSome = true := (of_decide_eq_true hended) i
  obtain ⟨r, hr⟩ := Option.isSome_iff_exists.1 hsome
  exact ⟨hsome, (houtcome i r hr).1⟩

/-- Two calls of each operation look their row up, then both insert it: the second one of each
ends with the violation of a constraint. -/
theorem create_once_overtaken :
    ∃ c', Run (calm fun _ _ _ => True) Sample.creating c' ∧
      Sample.endedWith c' 1 = some (.error (integrityError "user_blocks_pkey")) ∧
      Sample.endedWith c' 3 = some (.error (integrityError "spot_group_members_pkey")) ∧
      Sample.endedWith c' 5 = some (.error (integrityError "spot_group_spots_pkey")) ∧
      Sample.endedWith c' 7 = some (.error (integrityError "uq_spot_user_review_active")) := by
  have hrun : (follow (guardExec (fun i => exec i) fun _ _ _ => True)
      ([0, 1, 2, 3, 4, 5, 6, 7] ++ [0, 0, 2, 2, 4, 4] ++ List.replicate 4 6 ++
        [1, 1, 3, 3, 5, 5, 7, 7]) Sample.creating).any (fun c =>
        Sample.endedWith c 1 = some (.error (integrityError "user_blocks_pkey")) ∧
        Sample.endedWith c 3 = some (.error (integrityError "spot_group_members_pkey")) ∧
        Sample.endedWith c 5 = some (.error (integrityError "spot_group_spots_pkey")) ∧
        Sample.endedWith c 7 = some (.error (integrityError "uq_spot_user_review_active"))) =
      true := by
    decide +kernel
  obtain ⟨c', hrun', hended⟩ := exists_run_of_follow (E := fun _ _ => False) _ hrun
  exact ⟨c', Run.of_guardExec hrun', of_decide_eq_true hended⟩

end Vivac.Creation
