import Vivac.Pipeline.Decay
import Vivac.Pipeline.StaffTransitions
import Vivac.Updates.RowUpdates

/-!
# Writers of disjoint columns

The operations that write columns of a spot, side by side at READ COMMITTED. An update loads the row
and flushes what it has changed of it; the others are one `UPDATE`, or two. A flush writes the
columns that differ from the loaded row, and no others: a stale copy overwrites nothing else.

Where the operations write different columns of a row, none loses its update, whatever the order of
their statements and commits: a column has the value that its operation has written, or the one it
had at the start (`disjoint_columns_kept`).
-/

set_option autoImplicit false

namespace Vivac

open Lib App

/-! ## The operations -/

/-- An update dictionary: each key once. -/
structure SpotDict where
  data : List SpotAttr
  nodup : (data.map SpotAttr.key).Nodup

/-- An operation that writes columns of spots. Before an update its session may have loaded the
spot. -/
inductive ColumnCall where
  | updateSpot (loaded : Bool) (uid : String) (dict : SpotDict)
  | deleteSpot (spot : Spot)
  | restoreSpot (spot : Spot)
  | updatePipelineStatusBulk (uids : List String) (status : PipelineStatus)
  | assignSpotsBulk (spotUids : List String) (userUid : String)
  | decayStaleTrustTiers (thresholdDays : ℤ)
  | recalculateSpotRating (spotUid : String)

/-- The row of the spot in one of the databases. -/
def FoundIn (u : String) (dbs : List Db) (s : Spot) : Prop := ∃ d ∈ dbs, d.spots.find? u = some s

/-- The rows have the same values in these columns. -/
def AgreeOn (columns : List SpotColumn) (s t : Spot) : Prop := ∀ c ∈ columns, s.get c = t.get c

/-- What the decay makes of a row which its first statement has met as `first`, and of which its
second has met `second`, changed by the first. -/
def decayedFrom (now cutoff : Timestamp) (first second s : Spot) : Spot :=
  let lowered := fun t : Spot => if isDowngradable cutoff first then t.downgraded now else t
  if isRequeueable cutoff (lowered second) then (lowered s).requeued now else lowered s

namespace ColumnCall

/-- The operation in a session; its caller commits a recalculation. -/
def program (cfg : Settings) (be : Backend) (now : Timestamp) : ColumnCall → App Unit
  | .updateSpot loaded uid dict =>
    (if loaded then getSpotByUid cfg uid else .ret none).bind fun identity =>
      (Vivac.updateSpot cfg be now identity uid dict.data).bind fun _ => .ret ()
  | .deleteSpot spot => Vivac.deleteSpot cfg be now spot
  | .restoreSpot spot => (Vivac.restoreSpot cfg be now spot).bind fun _ => .ret ()
  | .updatePipelineStatusBulk uids status =>
    (Vivac.updatePipelineStatusBulk cfg be now uids status).bind fun _ => .ret ()
  | .assignSpotsBulk spotUids userUid =>
    (Vivac.assignSpotsBulk be now spotUids userUid).bind fun _ => .ret ()
  | .decayStaleTrustTiers thresholdDays =>
    (Vivac.decayStaleTrustTiers cfg be now thresholdDays).bind fun _ => .ret ()
  | .recalculateSpotRating spotUid =>
    (Vivac.recalculateSpotRating be now spotUid).bind fun _ => commit

/-- The operation is about the row of this spot. -/
def names (u : String) : ColumnCall → Bool
  | .updateSpot _ uid _ => uid == u
  | .deleteSpot spot => spot.uid == u
  | .restoreSpot spot => spot.uid == u
  | .updatePipelineStatusBulk uids _ => uids.contains u
  | .assignSpotsBulk spotUids _ => spotUids.contains u
  | .decayStaleTrustTiers _ => true
  | .recalculateSpotRating spotUid => spotUid == u

/-- The columns it sets, besides `updated_at`. -/
def written : ColumnCall → List SpotColumn
  | .updateSpot _ _ dict => dict.data.map SpotAttr.key
  | .deleteSpot _ => [.deletedAt]
  | .restoreSpot _ => [.deletedAt]
  | .updatePipelineStatusBulk _ _ => [.pipelineStatus]
  | .assignSpotsBulk _ _ => [.assignedToUid]
  | .decayStaleTrustTiers _ => [.trustTier, .lastVerifiedAt, .assignedToUid]
  | .recalculateSpotRating _ => [.ratingAvg, .reviewCount]

/-- The columns that the operation writes in the row of this spot. -/
def columns (u : String) (call : ColumnCall) : List SpotColumn :=
  if call.names u then call.written else []

/-- The row, `start` at first, has the values that the operation has written, whose statements have
met these databases. A row that the decay does not look at keeps its values. -/
def Wrote (now : Timestamp) (u : String) (start : Spot) (seen : List Db) (s : Spot) :
    ColumnCall → Prop
  | .updateSpot _ _ dict => ∀ a ∈ dict.data, s.get a.key = a.value
  | .deleteSpot _ => s.get .deletedAt = .timestamp now
  | .restoreSpot _ => s.get .deletedAt = .null
  | .updatePipelineStatusBulk _ status => s.get .pipelineStatus = .text status.value
  | .assignSpotsBulk _ userUid => s.get .assignedToUid = .text userUid
  | .decayStaleTrustTiers thresholdDays => ∃ first second, FoundIn u seen first ∧
      FoundIn u seen second ∧ AgreeOn [.trustTier, .lastVerifiedAt, .assignedToUid] s
        (decayedFrom now (now - daysMicros thresholdDays) first second start)
  | .recalculateSpotRating _ => ∃ d ∈ seen,
      s.get .ratingAvg = .number ((aggregateReviews u d).1.getD 0) ∧
      s.get .reviewCount = .integer (aggregateReviews u d).2

variable {u : String} {start s t : Spot} {now : Timestamp} {seen : List Db} {call : ColumnCall}

/-- What has been written is told by the columns of the operation. -/
theorem Wrote.congr (h : call.Wrote now u start seen s) (hst : AgreeOn call.written t s) :
    call.Wrote now u start seen t := by
  cases call with
  | updateSpot loaded uid dict =>
      intro a ha
      rw [hst a.key (List.mem_map_of_mem ha)]
      exact h a ha
  | decayStaleTrustTiers thresholdDays =>
      obtain ⟨first, second, hfirst, hsecond, hs⟩ := h
      exact ⟨first, second, hfirst, hsecond, fun c hc => (hst c hc).trans (hs c hc)⟩
  | recalculateSpotRating spotUid =>
      obtain ⟨d, hd, havg, hcount⟩ := h
      refine ⟨d, hd, (hst _ ?_).trans havg, (hst _ ?_).trans hcount⟩
      · exact List.mem_cons_self
      · exact List.mem_cons_of_mem _ List.mem_cons_self
  | deleteSpot | restoreSpot | updatePipelineStatusBulk | assignSpotsBulk =>
      exact (hst _ List.mem_cons_self).trans h

theorem Wrote.mono {more : List Db} (h : call.Wrote now u start seen s) (hmore : seen ⊆ more) :
    call.Wrote now u start more s := by
  cases call with
  | decayStaleTrustTiers thresholdDays =>
      obtain ⟨first, second, ⟨d, hd, hfirst⟩, ⟨e, he, hsecond⟩, hs⟩ := h
      exact ⟨first, second, ⟨d, hmore hd, hfirst⟩, ⟨e, hmore he, hsecond⟩, hs⟩
  | recalculateSpotRating spotUid =>
      obtain ⟨d, hd, hs⟩ := h
      exact ⟨d, hmore hd, hs⟩
  | updateSpot | deleteSpot | restoreSpot | updatePipelineStatusBulk | assignSpotsBulk => exact h

end ColumnCall

/-! ## What an operation commits -/

section Commits

variable (u : String) (start : Spot) (now : Timestamp) (call : ColumnCall)

/-- In every database that the statements have met the spot has a row, in the columns of the
operation as at the start. -/
def MetFresh (seen : List Db) : Prop :=
  ∀ d ∈ seen, ∃ s, d.spots.find? u = some s ∧ AgreeOn call.written s start

/-- The operation commits once: other columns stay, and its own are written. -/
structure CommitsColumns (w : Work Db RowKey Change) (seen : List Db)
    (commits : List (List Change)) : Prop where
  first : commits = []
  row : ∀ d s, d.spots.find? u = some s → ∃ t, (w.write d).spots.find? u = some t ∧
    (∀ c ∉ call.columns u, c ≠ .updatedAt → t.get c = s.get c) ∧
    (call.names u = true → MetFresh u start call seen → AgreeOn call.written s start →
      call.Wrote now u start seen t)

variable {u start now call} {o : Own Db RowKey Change} {α : Type}

/-- Rows that an `UPDATE` has hit have a new version. -/
theorem isSome_of_refusal {be : Backend} {f : Rewrite Spot.uid} {rows : List Spot}
    (h : refusal be f rows = none) : ∀ s ∈ rows, (f.apply s).isSome = true := by
  induction rows with
  | nil =>
      intro s hs
      cases hs
  | cons r rows ih =>
      unfold refusal at h
      split at h
      · cases h
      · rename_i r' hr
        split at h
        · cases h
        · intro s hs
          rcases List.mem_cons.1 hs with rfl | hs
          · rw [hr]
            rfl
          · exact ih h s hs

theorem isSome_of_hit {be : Backend} {p : Spot → Bool} {f : Rewrite Spot.uid}
    {columns : List String} {locked : RowKey → Bool} {d : Db}
    {eff : Effect Db RowKey Change (List String)}
    (h : updateSpots be p f columns locked d = .ok eff) :
    ∀ s ∈ d.spots.select p, (f.apply s).isSome = true := by
  simp only [updateSpots] at h
  split at h
  · cases h
  · rename_i hrefusal
    exact isSome_of_refusal hrefusal

/-- One `UPDATE`, and the commit. -/
theorem warrants_update {be : Backend} {p : Spot → Bool} {f : Rewrite Spot.uid}
    {names : List String} {k : List String → App α} (hnew : Unwritten o) (hfirst : o.commits = [])
    (hnamed : ∀ s, s.uid = u → p s = true → call.names u = true)
    (hhits : call.names u = true → MetFresh u start call o.seen → ∀ s, s.uid = u → p s = true)
    (hadmits : ∀ s t, (f.apply s).isSome = true → (f.apply t).isSome = true)
    (hkeeps : ∀ s t, f.apply s = some t → ∀ c ∉ call.written, c ≠ .updatedAt → t.get c = s.get c)
    (hwrites : call.names u = true → ∀ d s t, MetFresh u start call (d :: o.seen) →
      AgreeOn call.written s start → f.apply s = some t → call.Wrote now u start (d :: o.seen) t)
    (hk : ∀ uids, (k uids).Uses Command.Quiet ∨
      ∃ rest, k uids = commit.bind rest ∧ ∀ r, (rest r).Uses Command.Quiet) :
    Warrants (fun _ => True) (CommitsColumns u start now call) (Returns fun _ _ => True)
      ((execute (updateSpots be p f names)).bind k) o := by
  apply Warrants.sql allows_returns
  rintro w hw locked d - eff heff
  rcases hk eff.result with hquiet | ⟨rest, hrest, hquiet⟩
  · exact warrants_of_quiet hquiet
  rw [hrest]
  refine Warrants.commit allows_returns rfl ⟨hfirst, fun d' s hs => ?_⟩
    (warrants_of_quiet (hquiet ()))
  rw [hnew w hw] at heff
  have hwrite : ((w.andThen eff).write d').spots.find? u = some
      (if u ∈ (d.spots.select p).map Spot.uid then (f.apply s).getD s else s) := by
    show (eff.write (w.write d')).spots.find? u = _
    rw [hnew w hw, updateSpots_eq_ok heff, find?_rewriteSpots]
    show (d'.spots.find? u).map _ = _
    rw [hs]
    rfl
  refine ⟨_, hwrite, ?_⟩
  split
  · rename_i hhit
    obtain ⟨y, hy, hyu⟩ := List.mem_map.1 hhit
    have hnames : call.names u = true := hnamed y hyu (Table.mem_select.1 hy).2
    obtain ⟨t, ht⟩ := Option.isSome_iff_exists.1 (hadmits y s (isSome_of_hit heff y hy))
    rw [ht, Option.getD_some]
    refine ⟨fun c hc hstamp => hkeeps s t ht c ?_ hstamp,
      fun _ hmet hagree => hwrites hnames d s t hmet hagree ht⟩
    rw [ColumnCall.columns, if_pos hnames] at hc
    exact hc
  · rename_i hmiss
    refine ⟨fun _ _ _ => rfl, fun hnames hmet _ => absurd ?_ hmiss⟩
    obtain ⟨y, hy, -⟩ := hmet d List.mem_cons_self
    have hrow := Table.find?_eq_some.1 hy
    have hp : p y = true :=
      hhits hnames (fun e he => hmet e (List.mem_cons_of_mem _ he)) y hrow.2
    exact List.mem_map.2 ⟨y, Table.mem_select.2 ⟨hrow.1, hp⟩, hrow.2⟩

/-- An `UPDATE` that sets the same columns of every row it hits, and what follows the commit. -/
theorem warrants_updateTotal {be : Backend} {p : Spot → Bool} {g : Spot → Spot}
    {hg : ∀ s, (g s).uid = s.uid} {names : List String} {k : List String → Unit → App α}
    (hnew : Unwritten o) (hfirst : o.commits = [])
    (hnamed : ∀ s, s.uid = u → p s = true → call.names u = true)
    (hhits : call.names u = true → MetFresh u start call o.seen → ∀ s, s.uid = u → p s = true)
    (hkeeps : ∀ s, ∀ c ∉ call.written, c ≠ .updatedAt → (g s).get c = s.get c)
    (hwrites : call.names u = true → ∀ d s, call.Wrote now u start (d :: o.seen) (g s))
    (hk : ∀ uids r, (k uids r).Uses Command.Quiet) :
    Warrants (fun _ => True) (CommitsColumns u start now call) (Returns fun _ _ => True)
      ((execute (updateSpots be p (.total g hg) names)).bind fun uids => commit.bind (k uids))
      o := by
  apply warrants_update hnew hfirst hnamed hhits
  · exact fun _ _ _ => rfl
  · rintro s _ ⟨⟩
    exact hkeeps s
  · rintro hnames d s _ - - ⟨⟩
    exact hwrites hnames d s
  · exact fun uids => .inr ⟨_, rfl, hk uids⟩

/-- What follows the commit of a deletion, a restoration or an update. -/
theorem quiet_raises (cfg : Settings) (uid : String) {β : Type} {p : App β}
    (hp : p.Uses Command.Quiet) :
    ((Cache.bumpSpotsVersion cfg).bind fun _ => (Cache.invalidateSpotDetail cfg uid).bind fun _ =>
      p).Uses Command.Quiet :=
  (quiet_bump cfg _).bind fun _ => (quiet_bump cfg _).bind fun _ => hp

theorem quiet_invalidateSpots (cfg : Settings) (uids : List String) :
    (invalidateSpots cfg uids).Uses Command.Quiet := by
  apply (quiet_bump cfg _).bind
  intro _
  induction uids with
  | nil => trivial
  | cons uid uids ih => exact (quiet_bump cfg _).bind fun _ => ih

variable (cfg : Settings) (be : Backend)

theorem unwritten_start : Unwritten ({} : Own Db RowKey Change) := by
  rintro w ⟨⟩
  rfl

theorem warrants_deleteSpot (spot : Spot) :
    Warrants (fun _ => True) (CommitsColumns u start now (.deleteSpot spot))
      (Returns fun _ _ => True) ((ColumnCall.deleteSpot spot).program cfg be now) {} := by
  simp only [ColumnCall.program, Vivac.deleteSpot, setDeletedAt, Prog.bind_eq_bind]
  apply warrants_updateTotal unwritten_start rfl
  · rintro s rfl hs
    exact beq_iff_eq.2 (beq_iff_eq.1 hs).symm
  · rintro hnames - s rfl
    exact beq_iff_eq.2 (beq_iff_eq.1 hnames).symm
  · intro s c hc hstamp
    cases c <;> first
      | rfl
      | exact absurd rfl hstamp
      | exact absurd List.mem_cons_self hc
  · exact fun _ d s => rfl
  · exact fun _ _ => (quiet_bump cfg _).bind fun _ => quiet_bump cfg _

theorem warrants_restoreSpot (spot : Spot) :
    Warrants (fun _ => True) (CommitsColumns u start now (.restoreSpot spot))
      (Returns fun _ _ => True) ((ColumnCall.restoreSpot spot).program cfg be now) {} := by
  simp only [ColumnCall.program, Vivac.restoreSpot, setDeletedAt, Prog.bind_eq_bind,
    Prog.bind_assoc]
  apply warrants_updateTotal unwritten_start rfl
  · rintro s rfl hs
    exact beq_iff_eq.2 (beq_iff_eq.1 hs).symm
  · rintro hnames - s rfl
    exact beq_iff_eq.2 (beq_iff_eq.1 hnames).symm
  · intro s c hc hstamp
    cases c <;> first
      | rfl
      | exact absurd rfl hstamp
      | exact absurd List.mem_cons_self hc
  · exact fun _ d s => rfl
  · intro _ _
    apply (quiet_refreshSpot _).bind
    intro _
    exact quiet_raises cfg _ trivial

theorem warrants_updatePipelineStatusBulk (uids : List String) (status : PipelineStatus) :
    Warrants (fun _ => True) (CommitsColumns u start now (.updatePipelineStatusBulk uids status))
      (Returns fun _ _ => True)
      ((ColumnCall.updatePipelineStatusBulk uids status).program cfg be now) {} := by
  simp only [ColumnCall.program, Vivac.updatePipelineStatusBulk, Prog.bind_eq_bind,
    Prog.bind_assoc]
  apply Warrants.read allows_returns
  rintro w hw d -
  cases hw
  split
  · trivial
  · simp only [Prog.bind_assoc]
    have hnew : Unwritten (⟨some {}, [d], []⟩ : Own Db RowKey Change) := by
      rintro w ⟨⟩
      rfl
    apply warrants_updateTotal hnew rfl
    · rintro s rfl hs
      obtain ⟨y, hy, hyu⟩ := List.mem_map.1 (of_decide_eq_true hs)
      rw [← hyu]
      exact List.contains_iff_mem.2 (of_decide_eq_true (Table.mem_select.1 hy).2)
    · -- a row that the `SELECT` has met is among those it has found
      rintro hnames hmet s rfl
      obtain ⟨y, hy, -⟩ := hmet d List.mem_cons_self
      obtain ⟨hmem, hyu⟩ := Table.find?_eq_some.1 hy
      refine decide_eq_true (List.mem_map.2 ⟨y, Table.mem_select.2 ⟨hmem, ?_⟩, hyu⟩)
      rw [hyu]
      exact decide_eq_true (List.contains_iff_mem.1 hnames)
    · intro s c hc hstamp
      cases c <;> first
        | rfl
        | exact absurd rfl hstamp
        | exact absurd List.mem_cons_self hc
    · exact fun _ d s => rfl
    · intro _ _
      apply (quiet_invalidateSpots cfg _).bind
      exact fun _ => trivial

theorem warrants_assignSpotsBulk (spotUids : List String) (userUid : String) :
    Warrants (fun _ => True) (CommitsColumns u start now (.assignSpotsBulk spotUids userUid))
      (Returns fun _ _ => True)
      ((ColumnCall.assignSpotsBulk spotUids userUid).program cfg be now) {} := by
  simp only [ColumnCall.program, Vivac.assignSpotsBulk, setAssigned, Prog.bind_eq_bind,
    Prog.bind_assoc]
  apply warrants_updateTotal unwritten_start rfl
  · rintro s rfl hs
    exact List.contains_iff_mem.2 (of_decide_eq_true hs)
  · rintro hnames - s rfl
    exact decide_eq_true (List.contains_iff_mem.1 hnames)
  · intro s c hc hstamp
    cases c <;> first
      | rfl
      | exact absurd rfl hstamp
      | exact absurd List.mem_cons_self hc
  · exact fun _ d s => rfl
  · exact fun _ _ => trivial

theorem warrants_recalculateSpotRating (spotUid : String) :
    Warrants (fun _ => True) (CommitsColumns u start now (.recalculateSpotRating spotUid))
      (Returns fun _ _ => True)
      ((ColumnCall.recalculateSpotRating spotUid).program cfg be now) {} := by
  simp only [ColumnCall.program, Vivac.recalculateSpotRating, setAggregates, Prog.bind_eq_bind,
    Prog.bind_assoc, Prog.pure_eq_ret, Prog.bind_ret]
  rw [← Prog.bind_ret_right commit]
  apply Warrants.read allows_returns
  rintro w hw d -
  cases hw
  have hnew : Unwritten (⟨some {}, [d], []⟩ : Own Db RowKey Change) := by
    rintro w ⟨⟩
    rfl
  apply warrants_updateTotal hnew rfl
  · rintro s rfl hs
    exact beq_iff_eq.2 (beq_iff_eq.1 hs).symm
  · rintro hnames - s rfl
    exact beq_iff_eq.2 (beq_iff_eq.1 hnames).symm
  · intro s c hc hstamp
    cases c <;> first
      | rfl
      | exact absurd rfl hstamp
      | exact absurd List.mem_cons_self hc
      | exact absurd (List.mem_cons_of_mem _ List.mem_cons_self) hc
  · intro hnames d' s
    obtain rfl : spotUid = u := beq_iff_eq.1 hnames
    exact ⟨d, List.mem_cons_of_mem _ List.mem_cons_self, rfl, rfl⟩
  · exact fun _ _ => trivial

/-! ### Updates -/

/-- Whether pairs can be set does not depend on the row. -/
theorem SpotAttr.isSome_setAll {data : List SpotAttr} {s t : Spot}
    (h : (setAll data s).isSome = true) : (setAll data t).isSome = true := by
  induction data generalizing s t with
  | nil => rfl
  | cons a as ih =>
      obtain ⟨s', hs⟩ := Option.isSome_iff_exists.1 h
      obtain ⟨r, hr, hrest⟩ := Option.bind_eq_some_iff.1 hs
      have hset : ∃ r', a.set t = some r' := by
        cases a with
        | title v | pipelineStatus v =>
            obtain ⟨x, rfl, -⟩ := Option.map_eq_some_iff.1 hr
            exact ⟨_, rfl⟩
        | _ => exact ⟨_, rfl⟩
      obtain ⟨r', hr'⟩ := hset
      rw [setAll, hr', Option.bind_some]
      exact ih (Option.isSome_iff_exists.2 ⟨s', hrest⟩)

/-- Besides `updated_at`, the new version of a row is the row with the pairs set. -/
theorem get_of_setSpot {data : List SpotAttr} {s t : Spot}
    (h : (setSpot now data).apply s = some t) : ∃ r, spotColumns.setAll data s = some r ∧
      ∀ c, c ≠ .updatedAt → t.get c = r.get c := by
  obtain ⟨r, hr, rfl⟩ := Option.map_eq_some_iff.1 h
  refine ⟨r, SpotAttr.setAll_eq data s ▸ hr, fun c hc => ?_⟩
  cases c <;> first
    | rfl
    | exact absurd rfl hc

/-- A row that a database has under its uid is the one that was met there. -/
theorem FoundIn.agrees {seen : List Db} {s : Spot} (h : FoundIn u seen s)
    (hmet : MetFresh u start call seen) : AgreeOn call.written s start := by
  obtain ⟨d, hd, hs⟩ := h
  obtain ⟨t, ht, hagree⟩ := hmet d hd
  obtain rfl := Option.some.inj (hs.symm.trans ht)
  exact hagree

/-- An update, by a session that may have loaded the spot. -/
theorem warrants_updateFrom {identity : Option Spot} {loaded : Bool} {uid : String}
    {dict : SpotDict} (hnew : Unwritten o) (hfirst : o.commits = [])
    (hidentity : ∀ s ∈ identity, FoundIn uid o.seen s) :
    Warrants (fun _ => True) (CommitsColumns u start now (.updateSpot loaded uid dict))
      (Returns fun _ _ => True)
      ((Vivac.updateSpot cfg be now identity uid dict.data).bind fun _ => .ret ()) o := by
  have htail : ∀ r : Unit, ((refreshSpot uid).bind fun spot => (Cache.bumpSpotsVersion cfg).bind
      fun _ => (Cache.invalidateSpotDetail cfg uid).bind fun _ =>
        (Prog.ret (some spot) : App (Option Spot)).bind fun _ => (.ret () : App Unit)).Uses
          Command.Quiet := by
    intro _
    apply (quiet_refreshSpot uid).bind
    exact fun _ => quiet_raises cfg uid trivial
  unfold Vivac.updateSpot getSpotByUid
  simp only [Prog.bind_eq_bind, Prog.bind_assoc]
  apply Warrants.read allows_returns
  rintro w hw d -
  rw [hnew w hw]
  split
  · trivial
  · rename_i row hrow
    have hfound : FoundIn uid (d :: o.seen) (identity.getD row) := by
      cases identity with
      | none => exact ⟨d, List.mem_cons_self, (Option.filter_eq_some_iff.1 hrow).1⟩
      | some s =>
          obtain ⟨e, he, hs⟩ := hidentity s rfl
          exact ⟨e, List.mem_cons_of_mem _ he, hs⟩
    have huid : (identity.getD row).uid = uid := by
      obtain ⟨e, -, hs⟩ := hfound
      exact (Table.find?_eq_some.1 hs).2
    -- what the flush leaves out the row has already: as it was loaded, and as it was at the start
    have hsame : ∀ {seen s}, uid = u → d :: o.seen ⊆ seen →
        MetFresh u start (.updateSpot loaded uid dict) seen →
        AgreeOn (dict.data.map SpotAttr.key) s start → ∀ a ∈ dict.data,
          a.unchanged (identity.getD row) = true → s.get a.key = a.value := by
      rintro seen s rfl hseen hmet hagree a ha hunchanged
      obtain ⟨e, he, hs⟩ := hfound
      have hloaded := FoundIn.agrees ⟨e, hseen he, hs⟩ hmet
      have hkey : a.key ∈ dict.data.map SpotAttr.key := List.mem_map_of_mem ha
      rw [hagree _ hkey, ← hloaded _ hkey]
      exact SpotAttr.get_of_unchanged hunchanged
    have hnew' : Unwritten (⟨some w, d :: o.seen, o.commits⟩ : Own Db RowKey Change) := by
      rintro w' ⟨⟩
      exact hnew w hw
    simp only [flushSpot, Prog.bind_assoc]
    split
    · -- nothing has changed, and the commit is empty
      rename_i hempty
      refine Warrants.commit allows_returns rfl ⟨hfirst, fun d' s hs => ⟨s, ?_, fun _ _ _ => rfl,
        fun hnames hmet hagree a ha => ?_⟩⟩ (warrants_of_quiet (htail ()))
      · rw [hnew w hw]
        exact hs
      · apply hsame (beq_iff_eq.1 hnames) (List.Subset.refl _) hmet hagree a ha
        by_contra hchanged
        have hmem : a ∈ dict.data.filter fun a => !a.unchanged (identity.getD row) :=
          List.mem_filter.2 ⟨ha, by simpa using hchanged⟩
        rw [List.isEmpty_iff.1 hempty] at hmem
        cases hmem
    · simp only [Prog.bind_eq_bind, Prog.bind_assoc]
      apply warrants_update hnew' hfirst
      · rintro s rfl hs
        rw [huid] at hs
        exact beq_iff_eq.2 (beq_iff_eq.1 hs).symm
      · rintro hnames - s rfl
        rw [huid]
        exact beq_iff_eq.2 (beq_iff_eq.1 hnames).symm
      · intro s t hs
        simp only [setSpot, Option.isSome_map] at hs ⊢
        exact SpotAttr.isSome_setAll hs
      · intro s t hst c hc hstamp
        obtain ⟨r, hr, hget⟩ := get_of_setSpot hst
        have hsets := Columns.sets_setAll hr ((List.filter_sublist.map _).nodup dict.nodup)
        rw [hget c hstamp]
        refine hsets.kept c not_false fun a ha heq => hc ?_
        rw [← heq]
        exact List.mem_map_of_mem (List.mem_filter.1 ha).1
      · intro hnames e s t hmet hagree hst a ha
        obtain ⟨r, hr, hget⟩ := get_of_setSpot hst
        have hsets := Columns.sets_of_filter hr dict.nodup fun b hb hchanged =>
          hsame (beq_iff_eq.1 hnames) (List.subset_cons_self ..) hmet hagree b hb
            (by simpa using hchanged)
        rw [hget _ a.key_ne_updatedAt]
        exact hsets.supplied a ha
      · intro uids
        cases uids.isEmpty with
        | true => exact .inl trivial
        | false => exact .inr ⟨_, rfl, htail⟩

theorem warrants_updateColumns (loaded : Bool) (uid : String) (dict : SpotDict) :
    Warrants (fun _ => True) (CommitsColumns u start now (.updateSpot loaded uid dict))
      (Returns fun _ _ => True)
      ((ColumnCall.updateSpot loaded uid dict).program cfg be now) {} := by
  have hrest : ∀ identity o, Unwritten o → o.commits = [] → (∀ s ∈ identity, FoundIn uid o.seen s) →
      Warrants (fun _ => True) (CommitsColumns u start now (.updateSpot loaded uid dict))
        (Returns fun _ _ => True)
        ((Vivac.updateSpot cfg be now identity uid dict.data).bind fun _ => .ret ()) o :=
    fun _ _ hnew hfirst hidentity => warrants_updateFrom cfg be hnew hfirst hidentity
  cases loaded with
  | false =>
      apply hrest none {} unwritten_start rfl
      intro s hs
      cases hs
  | true =>
      show Warrants _ _ _ ((getSpotByUid cfg uid).bind _) _
      unfold getSpotByUid
      simp only [Prog.bind_eq_bind]
      apply Warrants.read allows_returns
      rintro w hw d -
      cases hw
      apply hrest _ _ ?_ rfl
      · intro s hs
        exact ⟨d, List.mem_cons_self, (Option.filter_eq_some_iff.1 hs).1⟩
      · rintro w ⟨⟩
        rfl

/-! ### The decay -/

/-- The columns of the decay. -/
abbrev decayColumns : List SpotColumn := [.trustTier, .lastVerifiedAt, .assignedToUid]

theorem AgreeOn.downgraded {s t : Spot} (h : AgreeOn decayColumns s t) :
    AgreeOn decayColumns (s.downgraded now) (t.downgraded now) := by
  have htier : s.trustTier = t.trustTier :=
    SqlValue.nullable_injective (f := .integer) (fun _ _ h => by cases h; rfl) nofun
      (h .trustTier (by decide))
  intro c hc
  cases c <;> first
    | exact absurd hc (by decide)
    | exact h _ hc
    | rfl
    | exact congrArg (fun tier => SqlValue.nullable .integer (Option.map (· + 1) tier)) htier

theorem AgreeOn.requeued {s t : Spot} (h : AgreeOn decayColumns s t) :
    AgreeOn decayColumns (s.requeued now) (t.requeued now) := by
  intro c hc
  cases c <;> first
    | exact absurd hc (by decide)
    | exact h _ hc
    | rfl

theorem get_downgraded {s : Spot} {c : SpotColumn} (hc : c ∉ decayColumns)
    (hstamp : c ≠ .updatedAt) : (s.downgraded now).get c = s.get c := by
  cases c <;> first
    | rfl
    | exact absurd (by decide) hc
    | exact absurd rfl hstamp

theorem get_requeued {s : Spot} {c : SpotColumn} (hc : c ∉ decayColumns)
    (hstamp : c ≠ .updatedAt) : (s.requeued now).get c = s.get c := by
  cases c <;> first
    | rfl
    | exact absurd (by decide) hc
    | exact absurd rfl hstamp

/-- What an `UPDATE` that hits the rows of `d` makes of the row of a spot in another database. -/
theorem find?_written {p : Spot → Bool} {g : Spot → Spot} {hg : ∀ s, (g s).uid = s.uid}
    {names : List String} {locked : RowKey → Bool} {d d' : Db}
    {eff : Effect Db RowKey Change (List String)} {s : Spot}
    (h : updateSpots be p (.total g hg) names locked d = .ok eff)
    (hs : d'.spots.find? u = some s) : (eff.write d').spots.find? u =
      some (if u ∈ (d.spots.select p).map Spot.uid then g s else s) := by
  rw [updateSpots_eq_ok h, find?_rewriteSpots, hs]
  rfl

/-- An `UPDATE` hits the row of a spot when its condition holds of it. -/
theorem mem_hit_iff {d : Db} {p : Spot → Bool} {s : Spot} (hs : d.spots.find? u = some s) :
    u ∈ (d.spots.select p).map Spot.uid ↔ p s = true := by
  obtain ⟨hmem, rfl⟩ := Table.find?_eq_some.1 hs
  exact mem_hit_uids hmem

theorem warrants_decayStaleTrustTiers (thresholdDays : ℤ) :
    Warrants (fun _ => True) (CommitsColumns u start now (.decayStaleTrustTiers thresholdDays))
      (Returns fun _ _ => True)
      ((ColumnCall.decayStaleTrustTiers thresholdDays).program cfg be now) {} := by
  let cutoff := now - daysMicros thresholdDays
  simp only [ColumnCall.program, Vivac.decayStaleTrustTiers, Prog.bind_eq_bind, Prog.bind_assoc]
  apply Warrants.sql allows_returns
  rintro w hw locked d₁ - eff₁ heff₁
  cases hw
  apply Warrants.sql allows_returns
  rintro w hw locked d₂ - eff₂ heff₂
  cases hw
  have hlowered : ∀ {d s}, d.spots.find? u = some s → (eff₁.write d).spots.find? u =
      some (if u ∈ (d₁.spots.select (isDowngradable cutoff)).map Spot.uid then s.downgraded now
        else s) := fun hs => find?_written be heff₁ hs
  have hrequeued : ∀ {d s}, d.spots.find? u = some s → (eff₂.write d).spots.find? u =
      some (if u ∈ ((eff₁.write d₂).spots.select (isRequeueable cutoff)).map Spot.uid
        then s.requeued now else s) := fun hs => find?_written be heff₂ hs
  refine Warrants.commit allows_returns rfl ⟨rfl, fun d s hs => ⟨_, hrequeued (hlowered hs),
    fun c hc hstamp => ?_, fun _ hmet hagree => ?_⟩⟩ (warrants_of_quiet ?_)
  · have hc' : c ∉ decayColumns := hc
    split
    · rw [get_requeued hc' hstamp]
      split
      · exact get_downgraded hc' hstamp
      · rfl
    · split
      · exact get_downgraded hc' hstamp
      · rfl
  · obtain ⟨y₁, hy₁, -⟩ := hmet d₁ (List.mem_cons_of_mem _ List.mem_cons_self)
    obtain ⟨y₂, hy₂, -⟩ := hmet d₂ List.mem_cons_self
    refine ⟨y₁, y₂, ⟨d₁, List.mem_cons_of_mem _ List.mem_cons_self, hy₁⟩,
      ⟨d₂, List.mem_cons_self, hy₂⟩, ?_⟩
    have hagree' : AgreeOn decayColumns s start := hagree
    simp only [mem_hit_iff (hlowered hy₂), mem_hit_iff hy₁, decayedFrom]
    split
    · split
      · exact hagree'.downgraded.requeued
      · exact hagree'.downgraded
    · split
      · exact hagree'.requeued
      · exact hagree'
  · split
    · trivial
    · apply Prog.Uses.bind ((quiet_invalidateSpots cfg _).bind fun _ => ?_) fun _ => ?_
      · trivial
      · trivial

/-- What an operation commits in the row of a spot. -/
theorem ColumnCall.warrants (call : ColumnCall) :
    Warrants (fun _ => True) (CommitsColumns u start now call) (Returns fun _ _ => True)
      (withSession (call.program cfg be now)) {} := by
  apply warrants_request
  cases call with
  | updateSpot loaded uid dict => exact warrants_updateColumns cfg be loaded uid dict
  | deleteSpot spot => exact warrants_deleteSpot cfg be spot
  | restoreSpot spot => exact warrants_restoreSpot cfg be spot
  | updatePipelineStatusBulk uids status =>
      exact warrants_updatePipelineStatusBulk cfg be uids status
  | assignSpotsBulk spotUids userUid => exact warrants_assignSpotsBulk cfg be spotUids userUid
  | decayStaleTrustTiers thresholdDays => exact warrants_decayStaleTrustTiers cfg be thresholdDays
  | recalculateSpotRating spotUid => exact warrants_recalculateSpotRating cfg be spotUid

end Commits

/-! ## Runs -/

theorem ColumnCall.ne_stamp_of_written {call : ColumnCall} {col : SpotColumn}
    (h : col ∈ call.written) : col ≠ .updatedAt := by
  cases call with
  | updateSpot loaded uid dict =>
      obtain ⟨a, -, rfl⟩ := List.mem_map.1 h
      exact a.key_ne_updatedAt
  | deleteSpot | restoreSpot | updatePipelineStatusBulk | assignSpotsBulk
  | decayStaleTrustTiers | recalculateSpotRating =>
      rintro rfl
      simp [written] at h

theorem ColumnCall.columns_of_names {call : ColumnCall} {u : String} (h : call.names u = true) :
    call.columns u = call.written := if_pos h

section Runs

variable {ι : Type} [DecidableEq ι] (calls : ι → ColumnCall) (now : ι → Timestamp) (u : String)
  (start : Spot)

/-- No two operations write one column in the row of the spot. -/
def DisjointColumns : Prop :=
  ∀ i j, i ≠ j → ∀ col ∈ (calls i).columns u, col ∉ (calls j).columns u

/-- A column that no operation has committed is as it was at the start. -/
def KeepsUncommitted (s : Spot) (commits : ι → List (List Change)) : Prop :=
  ∀ col, col ≠ .updatedAt → (∀ i, col ∈ (calls i).columns u → commits i = []) →
    s.get col = start.get col

/-- The pool of the operations, each in a session of its own. -/
abbrev AllWrite (c : Config ι Exc Command (State ι) Unit) : Prop :=
  AllWarrant (fun i => CommitsColumns u start (now i) (calls i)) (fun _ _ _ => True)
    (fun _ => Returns fun _ _ => True) c

variable {calls now u start} {c c' : Config ι Exc Command (State ι) Unit}

/-- The commit of one operation leaves the columns of the others. -/
theorem uncommitted_of_run (hall : AllWrite calls now u start c)
    (hrun : Run (sessions fun _ _ _ => True) c c')
    (hstart : ∃ s, c.state.db.spots.find? u = some s ∧
      KeepsUncommitted calls u start s c.state.commits) :
    ∃ s, c'.state.db.spots.find? u = some s ∧
      KeepsUncommitted calls u start s c'.state.commits := by
  refine hall.induct (J := fun d commits => ∃ s, d.spots.find? u = some s ∧
    KeepsUncommitted calls u start s commits) ?_ hrun hstart
  rintro i b b' hfact - hdb hcommits ⟨s, hs, huncommitted⟩
  obtain ⟨t, ht, hkept, -⟩ := hfact.row b.db s hs
  rw [hdb]
  refine ⟨t, ht, fun col hstamp hnone => ?_⟩
  have hcol : col ∉ (calls i).columns u := by
    intro hmem
    have hempty := hnone i hmem
    rw [hcommits, Function.update_self] at hempty
    exact List.append_ne_nil_of_right_ne_nil _ (List.cons_ne_nil _ _) hempty
  rw [hkept col hcol hstamp]
  refine huncommitted col hstamp fun j hj => ?_
  have hji : j ≠ i := by
    rintro rfl
    exact hcol hj
  have hempty := hnone j hj
  rwa [hcommits, Function.update_of_ne hji] at hempty

/-- Before the commit of an operation its own columns are as at the start. -/
theorem KeepsUncommitted.agreeOn {s : Spot} {commits : ι → List (List Change)}
    (h : KeepsUncommitted calls u start s commits) (hdisjoint : DisjointColumns calls u) {i : ι}
    (hnames : (calls i).names u = true) (hi : commits i = []) :
    AgreeOn (calls i).written s start := by
  intro col hcol
  refine h col (ColumnCall.ne_stamp_of_written hcol) fun j hj => ?_
  by_cases hji : j = i
  · rw [hji, hi]
  · rw [← ColumnCall.columns_of_names hnames] at hcol
    exact absurd hcol (hdisjoint j i hji col hj)

/-- An operation that has committed has written its columns, and they stay as written. -/
theorem wrote_of_run (hidle : Idle c.state) (hall : AllWrite calls now u start c)
    (hdisjoint : DisjointColumns calls u) (hstart : c.state.db.spots.find? u = some start)
    (hrun : Run (sessions fun _ _ _ => True) c c') {i : ι} (hnames : (calls i).names u = true)
    (hcommitted : c'.state.commits i ≠ []) {s : Spot} (hs : c'.state.db.spots.find? u = some s) :
    (calls i).Wrote (now i) u start (c'.state.seen i) s := by
  have hattended := attended_sessions (ε := Exc) (fun (_ : ι) (_ _ : State ι) => True)
  have huncommitted : ∀ {b}, Run (sessions fun _ _ _ => True) c b →
      ∃ s, b.state.db.spots.find? u = some s ∧ KeepsUncommitted calls u start s b.state.commits :=
    fun hb => uncommitted_of_run hall hb ⟨start, hstart, fun _ _ _ => rfl⟩
  induction hrun generalizing s with
  | refl => exact absurd (hidle.commits i) hcommitted
  | @tail b b' hb hstep ih =>
      have hmore : b.state.seen i ⊆ b'.state.seen i :=
        (Run.seen_suffix hattended (.single hstep) i).subset
      cases (hall.run hb).poolStep hstep with
      | quiet hdb hcommits =>
          rw [hcommits] at hcommitted
          rw [hdb] at hs
          exact (ih hcommitted hs).mono hmore
      | commit j hfact _ hdb hcommits =>
          obtain ⟨r, hr, hfresh⟩ := huncommitted hb
          obtain ⟨t, ht, hkept, hwrote⟩ := hfact.row b.state.db r hr
          rw [hdb] at hs
          obtain rfl := Option.some.inj (hs.symm.trans ht)
          by_cases hij : i = j
          · subst hij
            -- every statement has met the row as it is before the only commit of the operation
            refine (hwrote hnames (fun d hd => ?_)
              (hfresh.agreeOn hdisjoint hnames hfact.first)).mono hmore
            rcases Run.seen_during hattended hb hd with hold | ⟨a, hca, hab, rfl⟩
            · rw [hidle.seen i] at hold
              cases hold
            · obtain ⟨y, hy, hfresh'⟩ := huncommitted hca
              have hnone : a.state.commits i = [] := by
                rw [Run.commits_eq_of_eq hattended hca hab
                  (hfact.first.trans (hidle.commits i).symm), hidle.commits i]
              exact ⟨y, hy, hfresh'.agreeOn hdisjoint hnames hnone⟩
          · rw [hcommits, Function.update_of_ne hij] at hcommitted
            refine ((ih hcommitted hr).congr fun col hcol => ?_).mono hmore
            have hcol' : col ∈ (calls i).columns u :=
              (ColumnCall.columns_of_names hnames).symm ▸ hcol
            exact hkept col (hdisjoint i j hij col hcol') (ColumnCall.ne_stamp_of_written hcol)

end Runs

/-- Where no two operations write one column of a row, each column is, in every state of a run, as
at the start or as the operation that writes it has written it, once this has committed. -/
theorem disjoint_columns_kept {ι : Type} [DecidableEq ι] {cfg : Settings} {be : Backend}
    {calls : ι → ColumnCall} {now : ι → Timestamp} {c c' : Config ι Exc Command (State ι) Unit}
    (hidle : Idle c.state)
    (hthreads : ∀ i, c.thread i = withSession ((calls i).program cfg be (now i)))
    {u : String} {start : Spot} (hstart : c.state.db.spots.find? u = some start)
    (hdisjoint : DisjointColumns calls u) (hrun : Run platform c c') :
    ∃ s, c'.state.db.spots.find? u = some s ∧
      KeepsUncommitted calls u start s c'.state.commits ∧
      ∀ i, (calls i).names u = true → c'.state.commits i ≠ [] →
        (calls i).Wrote (now i) u start (c'.state.seen i) s := by
  have hguarded : Run (sessions fun _ _ _ => True) c c' := hrun.guarded fun _ _ _ => trivial
  have hall : AllWrite calls now u start c := by
    refine AllWarrant.of_idle (A := fun _ => True) (fun _ _ _ _ => trivial) hidle fun i => ?_
    rw [hthreads i]
    exact ColumnCall.warrants cfg be (calls i)
  obtain ⟨s, hs, huncommitted⟩ := uncommitted_of_run hall hguarded
    ⟨start, hstart, fun _ _ _ => rfl⟩
  exact ⟨s, hs, huncommitted, fun i hnames hcommitted =>
    wrote_of_run hidle hall hdisjoint hstart hguarded hnames hcommitted hs⟩

namespace Sample

/-- A staff user changes the title, a SUPERUSER the status, and a review is counted. -/
def columnCalls : Fin 3 → ColumnCall
  | 0 => .updateSpot true "a" ⟨[.title (some "Lake"), .tagline none], by decide⟩
  | 1 => .updatePipelineStatusBulk ["a"] .rejected
  | 2 => .recalculateSpotRating "a"

/-- One spot, with a review that has not been counted. -/
def uncounted : Db :=
  { Db.empty with
    spots := ⟨[spot "a"], List.nodup_singleton _⟩
    reviews := ⟨[{ uid := "r", spotUid := "a", userId := "u", rating := 8 }],
      List.nodup_singleton _⟩ }

/-- The three sessions at their start. -/
def columnPool : Config (Fin 3) Exc Command (State (Fin 3)) Unit :=
  ⟨World.fresh uncounted, fun i => withSession ((columnCalls i).program settings backend 0)⟩

/-- What the three have written. -/
def writtenInA (s : Spot) : String × PipelineStatus × ℚ × ℤ :=
  (s.title, s.pipelineStatus, s.ratingAvg, s.reviewCount)

end Sample

/-- The title is written by a session that has loaded the row before the status and the aggregates
were changed, and all three stay. -/
theorem disjoint_columns_kept_three : ∃ c' s, Run platform Sample.columnPool c' ∧
    c'.state.db.spots.find? "a" = some s ∧ Sample.writtenInA s = ("Lake", .rejected, 8, 1) ∧
    ∀ i, (Sample.columnCalls i).Wrote 0 "a" (Sample.spot "a") (c'.state.seen i) s := by
  have hrun : (follow (fun i => exec i) (List.replicate 2 0 ++ List.replicate 6 1 ++
      List.replicate 4 2 ++ List.replicate 6 0) Sample.columnPool).any (fun c =>
        (∀ i, c.state.commits i ≠ []) ∧
          (c.state.db.spots.find? "a").map Sample.writtenInA = some ("Lake", .rejected, 8, 1)) =
            true := by
    decide +kernel
  obtain ⟨c', hrun', h⟩ := exists_run_of_schedule _ hrun
  obtain ⟨hcommitted, hwritten⟩ : (∀ i, c'.state.commits i ≠ []) ∧
      (c'.state.db.spots.find? "a").map Sample.writtenInA = some ("Lake", .rejected, 8, 1) :=
    of_decide_eq_true h
  have hdisjoint : DisjointColumns Sample.columnCalls "a" := by
    unfold DisjointColumns
    decide
  obtain ⟨s, hs, -, hkept⟩ := disjoint_columns_kept (idle_fresh _)
    (fun _ => rfl) (rfl : Sample.uncounted.spots.find? "a" = some (Sample.spot "a")) hdisjoint hrun'
  rw [hs] at hwritten
  have hnames : ∀ i, (Sample.columnCalls i).names "a" = true := by decide
  exact ⟨c', s, hrun', hs, Option.some.inj hwritten, fun i => hkept i (hnames i) (hcommitted i)⟩

end Vivac
