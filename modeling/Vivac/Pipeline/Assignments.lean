import Vivac.Core.Contracts
import Vivac.Core.SampleBackend
import Vivac.Pipeline.SpotRows
import Mathlib.Algebra.BigOperators.Group.Finset.Piecewise

/-!
# The assignment queue

`assign_spots` and `transfer_spot_assignments` pick rows with `FOR UPDATE SKIP LOCKED` and
write them in a second statement. Any number of such calls, each in its own session,
interleaved command by command: each takes only rows it wants and nobody else takes, returns
their number, and the number of assigned spots adds up (`queue_assignment`).
-/

set_option autoImplicit false

namespace Vivac

open Lib App

/-! ## Calls -/

/-- A call that takes spots from the queue. -/
inductive QueueCall where
  | assign (userUid : String) (count : ℕ)
  | transfer (fromUserUid toUserUid : String) (count : ℕ)

namespace QueueCall

def program (be : Backend) (now : Timestamp) : QueueCall → App ℕ
  | .assign userUid count => assignSpots be now userUid count
  | .transfer fromUserUid toUserUid count =>
    transferSpotAssignments be now fromUserUid toUserUid count

/-- The spots the call picks. -/
def wanted : QueueCall → Spot → Bool
  | .assign _ _ => fun s => s.pipelineStatus == .enriched && s.assignedToUid.isNone
  | .transfer fromUserUid _ _ => fun s =>
    s.pipelineStatus == .enriched && s.assignedToUid == some fromUserUid

/-- Who gets them. -/
def target : QueueCall → String
  | .assign userUid _ => userUid
  | .transfer _ toUserUid _ => toUserUid

def count : QueueCall → ℕ
  | .assign _ count => count
  | .transfer _ _ count => count

def isAssign : QueueCall → Bool
  | .assign _ _ => true
  | .transfer _ _ _ => false

/-- What the call makes of a spot it takes. -/
def assigned (call : QueueCall) (now : Timestamp) (s : Spot) : Spot :=
  { s with assignedToUid := some call.target, updatedAt := some now }

theorem program_eq (be : Backend) (now : Timestamp) (call : QueueCall) :
    call.program be now = assignPicked be now call.wanted call.target call.count := by
  cases call <;> rfl

end QueueCall

/-! ## What a call has taken -/

/-- The spot a change names. -/
def Change.spotUid? : Change → Option String
  | .spot uid _ => some uid
  | _ => none

section

variable {ι : Type} [DecidableEq ι]

/-- The spots session `i` has committed changes of. -/
def takenBy (i : ι) (s : State ι) : List String := (s.commits i).flatten.filterMap Change.spotUid?

/-- The number of assigned spots. -/
def assignedCount (d : Db) : ℕ := d.spots.rows.countP fun s => s.assignedToUid.isSome

/-- One step of session `i`: it locks only rows the call wants, and the rows it changes, all at
its commit, are rows the call wants, of which it changes what `assigned` says. -/
structure QueueStep (call : QueueCall) (now : Timestamp) (i : ι) (s s' : State ι) : Prop where
  locks : ∀ uid, s'.holder (.spot uid) = some i → s.holder (.spot uid) = some i ∨
    ∃ r, s.db.spots.find? uid = some r ∧ call.wanted r = true
  others : { s'.db with spots := s.db.spots } = s.db
  takes : ∃ us : List String, us.Nodup ∧ us.length ≤ call.count ∧
    takenBy i s' = takenBy i s ++ us ∧
    (∀ uid ∈ us, s.holder (.spot uid) = some i ∧ ∃ r, s.db.spots.find? uid = some r ∧
      call.wanted r = true ∧ s'.db.spots.find? uid = some (call.assigned now r)) ∧
    ∀ uid, uid ∉ us → s'.db.spots.find? uid = s.db.spots.find? uid

/-- What the assign calls have taken adds up, and stays taken. -/
structure QueueInvariant [Fintype ι] (calls : ι → QueueCall) (start : ℕ) (s : State ι) : Prop where
  total : assignedCount s.db =
    start + ∑ i, if (calls i).isAssign then (takenBy i s).length else 0
  taken : ∀ i, (calls i).isAssign = true → ∀ uid ∈ takenBy i s,
    ∃ r, s.db.spots.find? uid = some r ∧ r.assignedToUid.isSome = true
  once : ∀ i j, i ≠ j → (calls i).isAssign = true → (calls j).isAssign = true →
    ∀ uid ∈ takenBy i s, uid ∉ takenBy j s

/-! ## What one step does to the count -/

variable {call : QueueCall} {now : Timestamp} {i : ι} {s s' : State ι}

/-- A count of elements of which each is counted by exactly one of two others. -/
theorem countP_eq_add {α : Type} {p q r : α → Bool} {l : List α}
    (h : ∀ a ∈ l, (p a).toNat = (q a).toNat + (r a).toNat) :
    l.countP p = l.countP q + l.countP r := by
  induction l with
  | nil => rfl
  | cons a l ih =>
      have ha := h a (List.mem_cons_self ..)
      have hl := ih fun b hb => h b (List.mem_cons_of_mem _ hb)
      simp only [List.countP_cons, hl]
      cases hp : p a <;> cases hq : q a <;> cases hr : r a <;> simp [hp, hq, hr] at ha ⊢ <;> omega

omit [DecidableEq ι] in
/-- Taking the rows `us` assigns each of them; an assign call counts every one of them, as it
was unassigned, and a transfer none. -/
theorem assignedCount_of_takes {us : List String} (hnodup : us.Nodup)
    (hin : ∀ uid ∈ us, ∃ r, s.db.spots.find? uid = some r ∧ call.wanted r = true ∧
      s'.db.spots.find? uid = some (call.assigned now r))
    (hout : ∀ uid, uid ∉ us → s'.db.spots.find? uid = s.db.spots.find? uid) :
    assignedCount s'.db = assignedCount s.db + if call.isAssign then us.length else 0 := by
  let g : Spot → Spot := fun r => if r.uid ∈ us then call.assigned now r else r
  have hperm : s'.db.spots.rows.Perm (s.db.spots.rows.map g) := by
    apply Table.perm_of_find?
    · intro r
      by_cases hr : r.uid ∈ us <;> simp [g, hr, QueueCall.assigned]
    · intro uid
      by_cases hu : uid ∈ us
      · obtain ⟨r, hr, -, hr'⟩ := hin uid hu
        have huid : r.uid = uid := (Table.find?_eq_some.1 hr).2
        rw [hr', hr]
        simp [g, huid, hu]
      · rw [hout uid hu]
        cases hr : s.db.spots.find? uid with
        | none => rfl
        | some r =>
            have huid : r.uid = uid := (Table.find?_eq_some.1 hr).2
            simp [g, huid, hu]
  have hwanted : ∀ r ∈ s.db.spots.rows, r.uid ∈ us → call.wanted r = true := by
    intro r hr hu
    obtain ⟨r', hr', hw, -⟩ := hin r.uid hu
    obtain ⟨hmem, huid⟩ := Table.find?_eq_some.1 hr'
    rwa [s.db.spots.eq_of_key_eq hr hmem huid.symm]
  have hcount : assignedCount s'.db =
      s.db.spots.rows.countP fun r => (g r).assignedToUid.isSome := by
    unfold assignedCount
    rw [hperm.countP_eq, List.countP_map]
    rfl
  rw [hcount]
  cases call with
  | assign user count =>
      have hus : s.db.spots.rows.countP (fun r => r.uid ∈ us) = us.length := by
        apply Table.countP_keys hnodup
        intro uid hu
        obtain ⟨r, hr, -⟩ := hin uid hu
        exact ⟨r, hr⟩
      rw [← hus]
      apply countP_eq_add
      intro r hr
      by_cases hu : r.uid ∈ us
      · have hw := hwanted r hr hu
        simp only [QueueCall.wanted, Bool.and_eq_true, Option.isNone_iff_eq_none] at hw
        simp [g, hu, hw.2, QueueCall.assigned]
      · simp [g, hu]
  | transfer fromUser toUser count =>
      simp only [QueueCall.isAssign, Bool.false_eq_true, if_false, Nat.add_zero, assignedCount]
      apply List.countP_congr
      intro r hr
      by_cases hu : r.uid ∈ us
      · have hw := hwanted r hr hu
        simp only [QueueCall.wanted, Bool.and_eq_true, beq_iff_eq] at hw
        simp [g, hu, QueueCall.assigned, hw.2]
      · simp [g, hu]

/-- A step of a call keeps the count. -/
theorem QueueInvariant.step [Fintype ι] {calls : ι → QueueCall} {start : ℕ}
    (h : QueueInvariant calls start s) (hstep : QueueStep (calls i) now i s s')
    (hothers : ∀ j, j ≠ i → takenBy j s' = takenBy j s) : QueueInvariant calls start s' := by
  obtain ⟨us, hnodup, -, htaken, hin, hout⟩ := hstep.takes
  have hrows : ∀ uid ∈ us, ∃ r, s.db.spots.find? uid = some r ∧ (calls i).wanted r = true ∧
      s'.db.spots.find? uid = some ((calls i).assigned now r) := fun uid hu => (hin uid hu).2
  -- what was assigned stays assigned
  have hstays : ∀ uid, (∃ r, s.db.spots.find? uid = some r ∧ r.assignedToUid.isSome = true) →
      ∃ r, s'.db.spots.find? uid = some r ∧ r.assignedToUid.isSome = true := by
    intro uid hassigned
    by_cases hu : uid ∈ us
    · obtain ⟨r, -, -, hr'⟩ := hrows uid hu
      exact ⟨_, hr', rfl⟩
    · rw [hout uid hu]
      exact hassigned
  -- what an assign call takes was unassigned
  have hfresh : (calls i).isAssign = true → ∀ uid ∈ us,
      ¬∃ r, s.db.spots.find? uid = some r ∧ r.assignedToUid.isSome = true := by
    intro hassign uid hu hassigned
    obtain ⟨r, hr, hw, -⟩ := hrows uid hu
    obtain ⟨r', hr', hsome⟩ := hassigned
    cases hr.symm.trans hr'
    cases hcall : calls i with
    | assign user count =>
        rw [hcall] at hw
        simp only [QueueCall.wanted, Bool.and_eq_true, Option.isNone_iff_eq_none] at hw
        rw [hw.2] at hsome
        cases hsome
    | transfer fromUser toUser count =>
        rw [hcall] at hassign
        cases hassign
  have hcases : ∀ j uid, uid ∈ takenBy j s' → uid ∈ takenBy j s ∨ j = i ∧ uid ∈ us := by
    intro j uid hu
    by_cases hj : j = i
    · subst hj
      rw [htaken] at hu
      rcases List.mem_append.1 hu with hold | hnew
      · exact .inl hold
      · exact .inr ⟨rfl, hnew⟩
    · rw [hothers j hj] at hu
      exact .inl hu
  constructor
  · rw [assignedCount_of_takes hnodup hrows hout, h.total, Nat.add_assoc]
    congr 1
    have hterm : ∀ j, (if (calls j).isAssign then (takenBy j s').length else 0) =
        (if (calls j).isAssign then (takenBy j s).length else 0) +
          if j = i then (if (calls i).isAssign then us.length else 0) else 0 := by
      intro j
      by_cases hj : j = i
      · subst hj
        by_cases hassign : (calls j).isAssign = true <;> simp [hassign, htaken]
      · simp [hj, hothers j hj]
    simp only [hterm, Finset.sum_add_distrib, Finset.sum_ite_eq', Finset.mem_univ, if_true]
  · intro j hassign uid hu
    rcases hcases j uid hu with hold | ⟨rfl, hnew⟩
    · exact hstays uid (h.taken j hassign uid hold)
    · obtain ⟨r, -, -, hr'⟩ := hrows uid hnew
      exact ⟨_, hr', rfl⟩
  · intro j k hjk hj hk uid hu hu'
    rcases hcases j uid hu with hold | ⟨rfl, hnew⟩
    · rcases hcases k uid hu' with hold' | ⟨rfl, hnew'⟩
      · exact h.once j k hjk hj hk uid hold hold'
      · exact hfresh hk uid hnew' (h.taken j hj uid hold)
    · rcases hcases k uid hu' with hold' | ⟨rfl, -⟩
      · exact hfresh hj uid hnew (h.taken k hk uid hold')
      · exact hjk rfl

/-! ## The program of a call -/

omit [DecidableEq ι] in
/-- A step that commits nothing and locks only what the call wants. -/
theorem QueueStep.of_quiet [DecidableEq ι] (hdb : s'.db = s.db)
    (hcommits : s'.commits i = s.commits i)
    (hlocks : ∀ uid, s'.holder (.spot uid) = some i → s.holder (.spot uid) = some i ∨
      ∃ r, s.db.spots.find? uid = some r ∧ call.wanted r = true) :
    QueueStep call now i s s' where
  locks := hlocks
  others := by rw [hdb]
  takes := by
    refine ⟨[], List.nodup_nil, Nat.zero_le _, ?_, by simp, fun uid _ => by rw [hdb]⟩
    simp [takenBy, hcommits]

/-- Session `i` has committed nothing; unless the server has ended its transaction, its pending
work is `w`, and it holds the rows of `us`, which meet `p`. -/
structure Holding (i : ι) (w : Work Db RowKey Change) (p : Spot → Bool) (us : List String)
    (s : State ι) : Prop where
  none_taken : s.commits i = []
  tx : s.tx i = { status := .lost } ∨ s.tx i = { work := w } ∧ ∀ uid ∈ us,
    s.holder (.spot uid) = some i ∧ ∃ r, s.db.spots.find? uid = some r ∧ p r = true

variable {inv : State ι → Prop} {own : ι → State ι → State ι → Prop}
  {w : Work Db RowKey Change} {p : Spot → Bool} {us : List String}

theorem stable_holding :
    Stable (lockTerms spotUnder inv own).contract i (Holding i w p us) := by
  rintro s s' - ⟨hund, hkeep⟩ h
  refine ⟨hund.commits.trans h.none_taken, ?_⟩
  rcases hund.tx with ⟨htx, hheld⟩ | hlost
  · rcases h.tx with hlost | ⟨hwork, hrows⟩
    · exact .inl (htx.trans hlost)
    · rcases hkeep with hlost | hsame
      · exact .inl hlost
      · refine .inr ⟨htx.trans hwork, fun uid hu => ?_⟩
        obtain ⟨hholder, r, hr, hp⟩ := hrows uid hu
        have hrow : s'.db.spots.find? uid = s.db.spots.find? uid := hsame _ hholder
        exact ⟨hheld _ hholder, r, hrow.trans hr, hp⟩
  · exact .inl hlost

theorem stable_commits (chs : List (List Change)) :
    Stable (lockTerms spotUnder inv own).contract i fun s => s.commits i = chs := by
  rintro s s' - ⟨hund, -⟩ h
  exact hund.commits.trans h

/-- A session whose transaction is usable holds its rows. -/
theorem Holding.rows (h : Holding i w p us s) (htx : s.tx i = { work := w }) :
    ∀ uid ∈ us, s.holder (.spot uid) = some i ∧
      ∃ r, s.db.spots.find? uid = some r ∧ p r = true := by
  rcases h.tx with hlost | ⟨-, hrows⟩
  · have hstatus := congrArg Tx.status (hlost.symm.trans htx)
    cases hstatus
  · exact hrows

/-- What a session holds after a statement it was able to run. -/
theorem Holding.of_sql {R : Type} {st : Statement R} {r : Except Exc R}
    (h : Holding i w p us s) (hexec : exec i (.sql st) s = some (r, s')) :
    ((∃ e, r = .error e) ∧ s'.holder = s.holder) ∨ s.tx i = { work := w } ∧ ∃ eff,
      st (s.heldByOther i) (w.write s.db) = .ok eff ∧ r = .ok eff.result ∧
      (∀ k, s'.holder k = if k ∈ eff.locks then some i else s.holder k) ∧
      s'.tx i =
        { work := ⟨eff.write ∘ w.write, w.locks ++ eff.locks, w.changes ++ eff.changes⟩ } := by
  rcases exec_sql_cases hexec with ⟨-, he, rfl⟩ | ⟨-, e, -, he, rfl⟩ | ⟨hst, eff, heff, -, hr, rfl⟩
  · exact .inl ⟨he, rfl⟩
  · exact .inl ⟨⟨e, he⟩, rfl⟩
  · rcases h.tx with hlost | ⟨hwork, -⟩
    · rw [hlost] at hst
      cases hst
    · have hview : s.view i = w.write s.db := by
        unfold World.view
        rw [hwork]
      rw [hview] at heff
      refine .inr ⟨hwork, eff, heff, hr, fun k => rfl, ?_⟩
      rw [hwork]
      exact Function.update_self ..

end

section Calls

variable {ι : Type} [DecidableEq ι] [Fintype ι] (calls : ι → QueueCall) (now : ι → Timestamp)
  (start : ℕ)

/-- Every session takes steps of its call, and the count is kept. -/
abbrev queueTerms : Terms ι Db RowKey Change Body :=
  lockTerms spotUnder (QueueInvariant calls start) fun i => QueueStep (calls i) (now i) i

variable {calls now start} {ok : ι → State ι → State ι → Prop} {i : ι} {s s' : State ι}

theorem queueTerms_fair : (queueTerms calls now start).Fair := by
  apply lockTerms_fair
  intro s s' henv h
  cases henv with
  | expire key hk => exact ⟨h.total, h.taken, h.once⟩
  | lose i => exact ⟨h.total, h.taken, h.once⟩

/-- One command of a call. -/
theorem triple_queueAct {β : Type} {c : Command β} {P : State ι → Prop}
    {M : Except Exc β → State ι → Prop} (hc : c.Confined spotUnder)
    (hP : Stable (queueTerms calls now start).contract i P)
    (hM : ∀ r, Stable (queueTerms calls now start).contract i (M r))
    (hstep : ∀ s r s', P s → exec i c s = some (r, s') →
      QueueStep (calls i) (now i) i s s' ∧ M r s') :
    Triple (sessions ok) (queueTerms calls now start).contract i P (Prog.perform c) M := by
  apply Triple.lockAct (locking_sessions spotUnder ok) hc hP hM
  rintro s r s' _ hinv hp ⟨hexec, -⟩
  obtain ⟨hown, hm⟩ := hstep s r s' hp hexec
  refine ⟨hinv.step hown fun j hj => ?_, hown, hm⟩
  unfold takenBy
  rw [(exec_undisturbed hj hexec).commits]

/-- The outcome of a part of a call: a value with `M`, or an exception with nothing taken. -/
def Outcome {α : Type} (i : ι) (M : α → State ι → Prop) : Except Exc α → State ι → Prop
  | .ok a, s => M a s
  | .error _, s => s.commits i = []

omit [Fintype ι] in
theorem stable_outcome {α : Type} {inv : State ι → Prop} {own : ι → State ι → State ι → Prop}
    {M : α → State ι → Prop} (hM : ∀ a, Stable (lockTerms spotUnder inv own).contract i (M a))
    (r : Except Exc α) : Stable (lockTerms spotUnder inv own).contract i (Outcome i M r) := by
  cases r with
  | ok a => exact hM a
  | error e => exact stable_commits []

theorem Triple.bind_outcome {α β : Type} {P : State ι → Prop} {p : App α} {f : α → App β}
    {N : β → State ι → Prop} (M : α → State ι → Prop)
    (hp : Triple (sessions ok) (queueTerms calls now start).contract i P p (Outcome i M))
    (hf : ∀ a, Triple (sessions ok) (queueTerms calls now start).contract i (M a) (f a)
      (Outcome i N)) :
    Triple (sessions ok) (queueTerms calls now start).contract i P (p.bind f) (Outcome i N) := by
  apply Triple.bind (queueTerms_fair.fits (framed_sessions _)) M (hp.conseq (fun _ _ h => h) _) hf
  intro r s _ h
  cases r with
  | ok a => exact h
  | error e => exact h

theorem triple_answer {α : Type} {P : State ι → Prop} {M : α → State ι → Prop} {a : α}
    (hP : Stable (queueTerms calls now start).contract i P) (hM : ∀ s, P s → M a s) :
    Triple (sessions ok) (queueTerms calls now start).contract i P (.ret a) (Outcome i M) :=
  fun s _ hp s' hi hr => hM s' (hP s s' hi hr hp)

/-- The snapshot: any spots, each once. -/
theorem triple_snapshot (p : Spot → Bool) :
    Triple (sessions ok) (queueTerms calls now start).contract i
      (Holding i {} (calls i).wanted []) (select fun d => (d.spots.select p).map Spot.uid)
      (Outcome i fun uids s => uids.Nodup ∧ Holding i {} (calls i).wanted [] s) := by
  have hstable : ∀ uids : List String, Stable (queueTerms calls now start).contract i fun s =>
      uids.Nodup ∧ Holding i {} (calls i).wanted [] s := by
    intro uids s s' hi hr h
    exact ⟨h.1, stable_holding s s' hi hr h.2⟩
  apply triple_queueAct (Cmd.confined_sql (Stmt.confined_read _)) stable_holding
    (stable_outcome hstable)
  intro s r s' h hexec
  obtain ⟨hdb, hcommits⟩ := exec_sql_db hexec
  rcases h.of_sql hexec with ⟨⟨e, rfl⟩, hholder⟩ | ⟨-, eff, heff, rfl, hholder, htx⟩
  · refine ⟨.of_quiet hdb hcommits fun uid hu => .inl (hholder ▸ hu), ?_⟩
    exact hcommits.trans h.none_taken
  · cases heff
    refine ⟨.of_quiet hdb hcommits fun uid hu => .inl ?_, nodup_select_uids _ _, ?_⟩
    · simpa [hholder] using hu
    · exact ⟨hcommits.trans h.none_taken, .inr ⟨htx, by simp⟩⟩

/-- Locking one more row. -/
theorem triple_lockSpot {us : List String} (uid : String) :
    Triple (sessions ok) (queueTerms calls now start).contract i
      (Holding i ⟨id, us.map RowKey.spot, []⟩ (calls i).wanted us)
      (execute (lockSpot (calls i).wanted uid))
      (Outcome i fun locked => Holding i
        ⟨id, (if locked then us ++ [uid] else us).map RowKey.spot, []⟩ (calls i).wanted
        (if locked then us ++ [uid] else us)) := by
  apply triple_queueAct (Cmd.confined_sql (confined_lockSpot _ _)) stable_holding
    (stable_outcome fun _ => stable_holding)
  intro s r s' h hexec
  obtain ⟨hdb, hcommits⟩ := exec_sql_db hexec
  have hnone : s'.commits i = [] := hcommits.trans h.none_taken
  rcases h.of_sql hexec with ⟨⟨e, rfl⟩, hholder⟩ | ⟨htx, eff, heff, rfl, hholder, htx'⟩
  · exact ⟨.of_quiet hdb hcommits fun uid hu => .inl (hholder ▸ hu), hnone⟩
  · have hrows := h.rows htx
    rcases lockSpot_eq_ok heff with ⟨rfl, hwanted⟩ | rfl
    · obtain ⟨row, hrow, hp⟩ := (Option.any_eq_true _ _).1 hwanted
      refine ⟨.of_quiet hdb hcommits fun u hu => ?_, hnone, .inr ⟨?_, fun u hu => ?_⟩⟩
      · by_cases heq : u = uid
        · exact .inr ⟨row, heq ▸ hrow, hp⟩
        · refine .inl ?_
          simpa [hholder, heq] using hu
      · rw [htx']
        simp
      · simp only [if_true, List.mem_append, List.mem_singleton] at hu
        rw [hdb, hholder]
        rcases hu with hu | rfl
        · obtain ⟨hheld, hfind⟩ := hrows u hu
          exact ⟨by simp [hheld], hfind⟩
        · exact ⟨by simp, row, hrow, hp⟩
    · refine ⟨.of_quiet hdb hcommits fun u hu => .inl ?_, hnone, .inr ⟨?_, fun u hu => ?_⟩⟩
      · simpa [hholder] using hu
      · rw [htx']
        simp
      · rw [hdb, hholder]
        simpa using hrows u hu

/-- Going over the rows of the snapshot. -/
theorem triple_lockSpots (us : List String) (n : ℕ) (uids : List String) :
    Triple (sessions ok) (queueTerms calls now start).contract i
      (Holding i ⟨id, us.map RowKey.spot, []⟩ (calls i).wanted us)
      (lockSpots (calls i).wanted n uids)
      (Outcome i fun got s => got.length ≤ n ∧ got.Sublist uids ∧
        Holding i ⟨id, (us ++ got).map RowKey.spot, []⟩ (calls i).wanted (us ++ got) s) := by
  induction uids generalizing us n with
  | nil =>
      have hnil : lockSpots (calls i).wanted n [] = .ret [] := by cases n <;> rfl
      rw [hnil]
      apply triple_answer stable_holding
      intro s h
      exact ⟨Nat.zero_le _, List.Sublist.refl _, by simpa using h⟩
  | cons uid uids ih =>
      cases n with
      | zero =>
          apply triple_answer stable_holding
          intro s h
          exact ⟨Nat.le_refl _, List.nil_sublist _, by simpa using h⟩
      | succ n =>
          apply Triple.bind_outcome _ (triple_lockSpot uid)
          intro locked
          cases locked with
          | true =>
              apply Triple.bind_outcome _ (ih _ n)
              intro got
              apply triple_answer
              · rintro s s' hi hr ⟨hlen, hsub, h⟩
                exact ⟨hlen, hsub, stable_holding s s' hi hr h⟩
              · rintro s ⟨hlen, hsub, h⟩
                refine ⟨Nat.succ_le_succ hlen, hsub.cons_cons uid, ?_⟩
                simpa using h
          | false =>
              refine (ih _ (n + 1)).conseq (fun _ _ h => h) fun r s _ h => ?_
              cases r with
              | ok got => exact ⟨h.1, h.2.1.cons uid, h.2.2⟩
              | error e => exact h

/-- The rows the statement hits: those that were picked, in the table's order. -/
structure Hits (us us' : List String) : Prop where
  mem_iff : ∀ u, u ∈ us' ↔ u ∈ us
  nodup : us'.Nodup

theorem Hits.length_eq {us us' : List String} (h : Hits us us') (hnodup : us.Nodup) :
    us'.length = us.length :=
  ((List.perm_ext_iff_of_nodup h.nodup hnodup).2 h.mem_iff).length_eq

/-- The pending work of a call that has written the rows of `us`. -/
def writing (call : QueueCall) (now : Timestamp) (us us' : List String) :
    Work Db RowKey Change where
  write := rewriteSpots us' (.total (call.assigned now) fun _ => rfl)
  locks := us.map RowKey.spot ++ us'.map RowKey.spot
  changes := us'.map fun u => Change.spot u ["assigned_to_uid"]

/-- The update writes the rows the session holds. -/
theorem triple_setAssigned (be : Backend) {us : List String} :
    Triple (sessions ok) (queueTerms calls now start).contract i
      (Holding i ⟨id, us.map RowKey.spot, []⟩ (calls i).wanted us)
      (execute (setAssigned be (now i) us (calls i).target))
      (Outcome i fun _ s => ∃ us', Hits us us' ∧
        Holding i (writing (calls i) (now i) us us') (calls i).wanted us s) := by
  apply triple_queueAct (Cmd.confined_sql (confined_updateSpots _ _ _ _)) stable_holding
  · apply stable_outcome
    rintro uids s s' hi hr ⟨us', hhits, h⟩
    exact ⟨us', hhits, stable_holding s s' hi hr h⟩
  intro s r s' h hexec
  obtain ⟨hdb, hcommits⟩ := exec_sql_db hexec
  have hnone : s'.commits i = [] := hcommits.trans h.none_taken
  rcases h.of_sql hexec with ⟨⟨e, rfl⟩, hholder⟩ | ⟨htx, eff, heff, rfl, hholder, htx'⟩
  · exact ⟨.of_quiet hdb hcommits fun uid hu => .inl (hholder ▸ hu), hnone⟩
  · have hrows := h.rows htx
    have hmem := mem_select_uids fun u hu =>
      let ⟨_, r, hr, _⟩ := hrows u hu
      ⟨r, hr⟩
    rw [updateSpots_eq_ok heff] at htx' hholder
    refine ⟨.of_quiet hdb hcommits fun u hu => .inl ?_, _, ⟨hmem, nodup_select_uids _ _⟩, hnone,
      .inr ⟨htx', fun u hu => ?_⟩⟩
    · rw [hholder] at hu
      split at hu
      · rename_i hlocked
        obtain ⟨v, hv, heq⟩ := List.mem_map.1 hlocked
        cases heq
        exact (hrows u ((hmem u).1 hv)).1
      · exact hu
    · obtain ⟨hheld, hfind⟩ := hrows u hu
      rw [hdb, hholder, hheld]
      exact ⟨ite_self _, hfind⟩

omit [Fintype ι] in
theorem takenBy_append {us : List String}
    (h : s'.commits i = s.commits i ++ [us.map fun u => Change.spot u ["assigned_to_uid"]]) :
    takenBy i s' = takenBy i s ++ us := by
  have hus :
      (us.map fun u => Change.spot u ["assigned_to_uid"]).filterMap Change.spotUid? = us := by
    rw [List.filterMap_map]
    exact List.filterMap_some
  simp [takenBy, h, hus]

/-- The commit changes the rows the session holds, as the call wants them. -/
theorem triple_commit_queue {us : List String} (hnodup : us.Nodup)
    (hcount : us.length ≤ (calls i).count) :
    Triple (sessions ok) (queueTerms calls now start).contract i
      (fun s => ∃ us', Hits us us' ∧
        Holding i (writing (calls i) (now i) us us') (calls i).wanted us s)
      commit (Outcome i fun _ s => (takenBy i s).length = us.length) := by
  have hstable : Stable (queueTerms calls now start).contract i fun s =>
      ∃ us', Hits us us' ∧ Holding i (writing (calls i) (now i) us us') (calls i).wanted us s := by
    rintro s s' hi hr ⟨us', hhits, h⟩
    exact ⟨us', hhits, stable_holding s s' hi hr h⟩
  apply triple_queueAct (c := .commit) trivial hstable
  · apply stable_outcome
    rintro _ s s' - ⟨hund, -⟩ h
    unfold takenBy
    rw [hund.commits]
    exact h
  rintro s r s' ⟨us', hhits, h⟩ hexec
  have hquiet : ∀ t : State ι, t.db = s.db → t.commits i = s.commits i → t.holder = s.holder →
      QueueStep (calls i) (now i) i s t := fun t hdb hcommits hholder =>
    .of_quiet hdb hcommits fun uid hu => .inl (hholder ▸ hu)
  rcases exec_commit_cases hexec with ⟨hst, rfl, rfl⟩ | ⟨hst, -, -⟩ | ⟨-, ⟨e, rfl⟩, rfl⟩
  · have htx : s.tx i = { work := writing (calls i) (now i) us us' } := by
      rcases h.tx with hlost | ⟨hwork, -⟩
      · rw [hlost] at hst
        cases hst
      · exact hwork
    have hrows := h.rows htx
    have hdb : (execCommit i s (s.tx i)).db =
        rewriteSpots us' (.total ((calls i).assigned (now i)) fun _ => rfl) s.db := by
      rw [htx]
      rfl
    have htaken : takenBy i (execCommit i s (s.tx i)) = takenBy i s ++ us' := by
      apply takenBy_append
      rw [commits_execCommit, htx]
      rfl
    have hlength : us'.length = us.length := hhits.length_eq hnodup
    refine ⟨⟨fun uid hu => ?_, ?_, us', hhits.nodup, hlength ▸ hcount, htaken, fun uid hu => ?_,
      fun uid hu => ?_⟩, ?_⟩
    · -- the locks are given up
      by_cases hheld : s.holder (.spot uid) = some i
      · exact .inl hheld
      · have hsame : (execCommit i s (s.tx i)).holder (.spot uid) = s.holder (.spot uid) :=
          if_neg fun h => hheld h.1
        exact .inl (hsame ▸ hu)
    · rw [hdb]
      rfl
    · obtain ⟨hheld, r, hr, hp⟩ := hrows uid ((hhits.mem_iff uid).1 hu)
      refine ⟨hheld, r, hr, hp, ?_⟩
      rw [hdb, find?_rewriteSpots, hr]
      simp [hu, Rewrite.total]
    · rw [hdb]
      exact find?_rewriteSpots_of_not_mem hu
    · show (takenBy i (execCommit i s (s.tx i))).length = us.length
      rw [htaken, ← hlength]
      simp [takenBy, h.none_taken]
  · rcases h.tx with hlost | ⟨hwork, -⟩
    · rw [hlost] at hst
      cases hst
    · rw [hwork] at hst
      cases hst
  · exact ⟨hquiet _ rfl rfl rfl, h.none_taken⟩

/-- What a call leaves: it returns how many rows it took, and an exception leaves none. -/
def CallLeaves (call : QueueCall) (i : ι) : Except Exc ℕ → State ι → Prop :=
  Outcome i fun n s => (takenBy i s).length = n ∧ n ≤ call.count

omit [Fintype ι] in
theorem stable_callLeaves {inv : State ι → Prop} {own : ι → State ι → State ι → Prop}
    {call : QueueCall} (r : Except Exc ℕ) :
    Stable (lockTerms spotUnder inv own).contract i (CallLeaves call i r) := by
  apply stable_outcome
  rintro n s s' - ⟨hund, -⟩ h
  unfold takenBy
  rw [hund.commits]
  exact h

/-- A call meets its contract. -/
theorem triple_queueCall (be : Backend) :
    Triple (sessions ok) (queueTerms calls now start).contract i
      (Holding i {} (calls i).wanted []) ((calls i).program be (now i))
      (CallLeaves (calls i) i) := by
  rw [QueueCall.program_eq]
  have hpick : Triple (sessions ok) (queueTerms calls now start).contract i
      (Holding i {} (calls i).wanted []) (pickSpots (calls i).wanted (calls i).count)
      (Outcome i fun us s => (us.Nodup ∧ us.length ≤ (calls i).count) ∧
        Holding i ⟨id, us.map RowKey.spot, []⟩ (calls i).wanted us s) := by
    apply Triple.bind_outcome _ (triple_snapshot _)
    intro uids s hi hp
    refine (triple_lockSpots [] (calls i).count uids s hi hp.2).mono fun r s _ h => ?_
    cases r with
    | ok us =>
        obtain ⟨hlen, hsub, h⟩ := h
        exact ⟨⟨hsub.nodup hp.1, hlen⟩, by simpa using h⟩
    | error e => exact h
  apply Triple.bind_outcome _ hpick
  intro us
  split
  · rename_i hempty
    apply triple_answer
    · rintro s s' hi hr ⟨hpure, h⟩
      exact ⟨hpure, stable_holding s s' hi hr h⟩
    · rintro s ⟨-, h⟩
      refine ⟨?_, Nat.zero_le _⟩
      simp [takenBy, h.none_taken]
  · intro s hi hp
    obtain ⟨⟨hnodup, hcount⟩, hp⟩ := hp
    refine Triple.bind_outcome _ (triple_setAssigned be) (fun _ => ?_) s hi hp
    apply Triple.bind_outcome _ (triple_commit_queue hnodup hcount)
    intro _
    apply triple_answer
    · rintro s s' - ⟨hund, -⟩ h
      unfold takenBy
      rw [hund.commits]
      exact h
    · intro s h
      exact ⟨h, hcount⟩

end Calls

/-! ## Runs -/

/-- Every call in a session of its own. -/
def queueCalls {ι : Type} (be : Backend) (calls : ι → QueueCall) (now : ι → Timestamp) (i : ι) :
    App ℕ := withSession ((calls i).program be (now i))

/-- What a call has returned so far. -/
def returnedCount : App ℕ → ℕ
  | .ret n => n
  | _ => 0

/-- What holds in every configuration `c` that calls reach from the tables `d₀`. -/
structure QueueOutcome {ι : Type} [DecidableEq ι] [Fintype ι] (calls : ι → QueueCall)
    (now : ι → Timestamp) (d₀ : Db) (c : Config ι Exc Command (State ι) ℕ) : Prop where
  step : ∀ c', Step platform c c' →
    (∃ i, QueueStep (calls i) (now i) i c.state c'.state) ∨ c'.state.db = c.state.db
  returned : ∀ i n, c.thread i = .ret n →
    (takenBy i c.state).length = n ∧ n ≤ (calls i).count
  raised : ∀ i e, c.thread i = .raise e → takenBy i c.state = []
  once : ∀ i j, i ≠ j → (calls i).isAssign = true → (calls j).isAssign = true →
    ∀ uid ∈ takenBy i c.state, uid ∉ takenBy j c.state
  total : (∀ i, ∃ r, c.thread i = .ofExcept r) →
    assignedCount c.state.db =
      assignedCount d₀ + ∑ i, if (calls i).isAssign then returnedCount (c.thread i) else 0

section Runs

variable {ι : Type} [DecidableEq ι] [Fintype ι]

/-- From idle sessions every call meets its contract. -/
theorem allMeet_queueCalls (be : Backend) (calls : ι → QueueCall) (now : ι → Timestamp)
    {ok : ι → State ι → State ι → Prop} {s₀ : State ι}
    (hidle : ∀ i, s₀.tx i = {} ∧ s₀.commits i = []) :
    AllMeet (sessions ok) (queueTerms calls now (assignedCount s₀.db)).contract
      (fun i => CallLeaves (calls i) i) ⟨s₀, queueCalls be calls now⟩ := by
  have hnone : ∀ i, takenBy i s₀ = [] := fun i => by simp [takenBy, (hidle i).2]
  have hinv : LocksHold spotUnder s₀ ∧ QueueInvariant calls (assignedCount s₀.db) s₀ := by
    refine ⟨locksHold_of_idle fun i => (hidle i).1, ?_, ?_, ?_⟩
    · simp [hnone]
    · intro i _ uid hu
      simp [hnone] at hu
    · intro i j _ _ _ uid hu
      simp [hnone] at hu
  refine ⟨hinv, fun i => ?_⟩
  have hcall : Triple (sessions ok) (queueTerms calls now (assignedCount s₀.db)).contract i
      (Holding i {} (calls i).wanted []) (queueCalls be calls now i) (CallLeaves (calls i) i) := by
    apply triple_session (framed_sessions ok) queueTerms_fair stable_callLeaves
      (triple_queueCall be)
    intro r
    apply triple_rollback stable_callLeaves r
    intro s hi hm _
    have hexec : exec i .rollback s =
        some ((.ok () : Except Exc Unit), endTx i (s.log i .rollback)) := rfl
    have hown : QueueStep (calls i) (now i) i s (endTx i (s.log i .rollback)) := by
      refine QueueStep.of_quiet (by rfl) commits_rollback fun uid hu => ?_
      by_cases hheld : s.holder (.spot uid) = some i
      · exact .inl hheld
      · have hsame : (endTx i (s.log i .rollback)).holder (.spot uid) = s.holder (.spot uid) :=
          if_neg fun h => hheld h.1
        exact .inl (hsame ▸ hu)
    refine ⟨⟨hi.1.of_exec (by exact trivial) hexec, hi.2.step hown fun j hj => ?_⟩, hown,
      fun j hj => hi.1.keepsRows hexec hj, ?_⟩
    · simp only [takenBy, commits_rollback]
    · cases r with
      | ok n =>
          simp only [CallLeaves, Outcome, takenBy, commits_rollback]
          exact hm
      | error e => exact commits_rollback.trans hm
  exact hcall s₀ hinv ⟨(hidle i).2, .inr ⟨(hidle i).1, by simp⟩⟩

/-- Any number of calls, interleaved in any way: each takes spots it wants, which nobody else
takes or changes meanwhile, and returns their number; the number of assigned spots grows by
what the assign calls return. -/
theorem queue_assignment (be : Backend) (calls : ι → QueueCall) (now : ι → Timestamp)
    {s₀ : State ι} (hidle : ∀ i, s₀.tx i = {} ∧ s₀.commits i = [])
    {c : Config ι Exc Command (State ι) ℕ}
    (h : Run platform ⟨s₀, queueCalls be calls now⟩ c) : QueueOutcome calls now s₀.db c := by
  let free : ι → State ι → State ι → Prop := fun _ _ _ => True
  have hrun : Run (sessions free) ⟨s₀, queueCalls be calls now⟩ c := h.guarded fun _ _ _ => trivial
  have hall := hrun.allMeet (queueTerms_fair.fits (framed_sessions _))
      (allMeet_queueCalls be calls now hidle)
  have hleaves : ∀ i r, c.thread i = .ofExcept r → CallLeaves (calls i) i r c.state := by
    intro i r hdone
    have hmeets := hall.meets i
    rw [hdone] at hmeets
    cases r with
    | ok n => exact hmeets _ hall.inv ⟨.refl i _, queueTerms_fair.refl i _⟩
    | error e => exact hmeets _ hall.inv ⟨.refl i _, queueTerms_fair.refl i _⟩
  constructor
  · intro c' hstep
    have hguarded : Step (sessions free) c c' := hstep.guarded fun _ _ _ => trivial
    rcases hall.own (framed_sessions free) queueTerms_fair hguarded with hown | henv
    · exact .inl hown
    · exact .inr henv.db_eq
  · intro i n hdone
    exact hleaves i (.ok n) hdone
  · intro i e hdone
    have hnone : c.state.commits i = [] := hleaves i (.error e) hdone
    simp [takenBy, hnone]
  · exact hall.inv.2.once
  · intro hfinished
    rw [hall.inv.2.total]
    congr 1
    apply Finset.sum_congr rfl
    intro i _
    congr 1
    obtain ⟨r, hr⟩ := hfinished i
    have hleft := hleaves i r hr
    rw [hr]
    cases r with
    | ok n => exact hleft.1
    | error e =>
        have hnone : c.state.commits i = [] := hleft
        simp [takenBy, hnone, returnedCount, Prog.ofExcept]

end Runs

namespace Sample

/-- One spot in the queue. -/
def enrichedSpot : Spot := { spot "a" with pipelineStatus := .enriched, updatedAt := some 0 }

def oneEnriched : Db := { Db.empty with spots := ⟨[enrichedSpot], by decide⟩ }

/-- One call assigns the spot, another moves it on. -/
def assignAndTransfer : Bool → QueueCall
  | true => .assign "u" 1
  | false => .transfer "u" "v" 5

def queueStart : Config Bool Exc Command (State Bool) ℕ :=
  ⟨World.fresh oneEnriched, queueCalls backend assignAndTransfer fun _ => 1⟩

end Sample

/-- The assignment and then the transfer take the one spot, and each returns 1. -/
theorem queue_assignment_both :
    ∃ c, Run platform Sample.queueStart c ∧ (∀ i, c.thread i = .ret 1) ∧
      QueueOutcome Sample.assignAndTransfer (fun _ => 1) Sample.oneEnriched c := by
  obtain ⟨c, hrun, hdone⟩ := exists_run_of_schedule (c := Sample.queueStart)
    (List.replicate 5 true ++ List.replicate 5 false)
    (p := fun c => (c.thread true).outcome.bind Except.toOption = some 1 ∧
      (c.thread false).outcome.bind Except.toOption = some 1) (by decide +kernel)
  have hreturned : ∀ i, c.thread i = .ret 1 := by
    intro i
    have hi : (c.thread i).outcome.bind Except.toOption = some 1 := by
      cases i with
      | true => exact (of_decide_eq_true hdone).1
      | false => exact (of_decide_eq_true hdone).2
    obtain ⟨r, hr, hone⟩ := Option.bind_eq_some_iff.1 hi
    cases r with
    | error e => cases hone
    | ok n =>
        cases hone
        exact Prog.outcome_eq_some.1 hr
  exact ⟨c, hrun, hreturned,
    queue_assignment Sample.backend Sample.assignAndTransfer _ (fun _ => ⟨rfl, rfl⟩) hrun⟩

/-- An assignment writes `updated_at`, too. -/
theorem queue_assignment_updatedAt :
    ∃ c, Run platform Sample.queueStart c ∧ takenBy true c.state = ["a"] ∧
      (Sample.oneEnriched.spots.find? "a").map Spot.updatedAt ≠
        (c.state.db.spots.find? "a").map Spot.updatedAt := by
  obtain ⟨c, hrun, hdone⟩ := exists_run_of_schedule (c := Sample.queueStart)
    (List.replicate 5 true)
    (p := fun c => takenBy true c.state = ["a"] ∧
      (Sample.oneEnriched.spots.find? "a").map Spot.updatedAt ≠
        (c.state.db.spots.find? "a").map Spot.updatedAt) (by decide +kernel)
  exact ⟨c, hrun, of_decide_eq_true hdone⟩

end Vivac
