import Vivac.Loading.InfoMerges
import Vivac.Loading.SpotRepeats
import Mathlib.Data.List.Pairwise

/-!
# Bulk jobs of business info, again and reordered

A job whose rows all name one spot each. As for spots, the database takes or refuses business info
by its values (`Backend.IgnoresInfoStamps`), and generated uids are new (`NewInfoUids`). No row
touches the spots, so what the rows name does not change while they are executed.
-/

set_option autoImplicit false

namespace Vivac

open Lib App

/-! ## Generated values -/

/-- Uids that are generated for `n` new rows of business info. -/
structure NewInfoUids (newUid : ℕ → String) (n : ℕ) (d : Db) : Prop extends UidsFor newUid n where
  fresh : ∀ i < n, d.businessInfo.find? (newUid i) = none

/-- Rows of business info that differ in generated values alone. -/
structure SpotBusinessInfo.Alike (r t : SpotBusinessInfo) : Prop where
  columns : ∀ c, c ≠ .uid → c ≠ .createdAt → r.get c = t.get c
  uids : r.uid = t.uid ∨ isUid r.uid = true ∧ isUid t.uid = true

/-- The database refuses business info for its values, not for the generated ones. -/
def Backend.IgnoresInfoStamps (be : Backend) : Prop :=
  ∀ r t : SpotBusinessInfo, r.Alike t → be.refusesBusinessInfo r = be.refusesBusinessInfo t

/-- A row has the pair when setting it changes nothing. -/
theorem SpotBusinessInfo.has_iff (r : SpotBusinessInfo) (a : InfoAttr) :
    r.has a = true ↔ r.get a.key = a.value := by
  unfold SpotBusinessInfo.has
  rw [beq_iff_eq]
  constructor
  · intro hset
    have hvalue := congrFun (InfoAttr.get_set a r) a.key
    rwa [hset, Function.update_self] at hvalue
  · intro hvalue
    apply SpotBusinessInfo.eq_of_get_eq
    · rw [InfoAttr.get_set, ← hvalue, Function.update_eq_self]
    · cases a <;> rfl

theorem SpotBusinessInfo.Alike.refl (r : SpotBusinessInfo) : r.Alike r :=
    ⟨fun _ _ _ => rfl, .inl rfl⟩

section Rows

variable {be : Backend} {now : Timestamp} {newUid : ℕ → String} {row : SpotBusinessInfoBulkRow}

theorem SpotBusinessInfo.Alike.setAll {r t : SpotBusinessInfo} (h : r.Alike t)
    (fields : List InfoAttr) :
    (InfoAttr.setAll fields r).Alike (InfoAttr.setAll fields t) := by
  refine ⟨fun c huid hcreated => ?_, ?_⟩
  · rw [InfoAttr.get_setAll, InfoAttr.get_setAll, Patch.apply, Patch.apply,
      h.columns c huid hcreated]
  · rw [InfoAttr.uid_setAll, InfoAttr.uid_setAll]
    exact h.uids

variable (row) in
theorem SpotBusinessInfo.Alike.changed {r t : SpotBusinessInfo} (h : r.Alike t) :
    row.changed r = row.changed t := by
  apply List.filter_congr
  intro a _
  congr 1
  have hkey : r.get a.key = t.get a.key := by
    apply h.columns <;> cases a <;> nofun
  rw [Bool.eq_iff_iff, SpotBusinessInfo.has_iff, SpotBusinessInfo.has_iff, hkey]

theorem SpotBusinessInfo.Alike.merge {r t : SpotBusinessInfo} (h : r.Alike t)
    (now now' : Timestamp) :
    (row.merge now r).Alike (row.merge now' t) := by
  have hstamp : ∀ {r t : SpotBusinessInfo} (a b : Option Timestamp), r.Alike t →
      ({ r with updatedAt := a } : SpotBusinessInfo).Alike { t with updatedAt := b } := by
    intro r t a b hrt
    refine ⟨fun c huid hcreated => ?_, hrt.uids⟩
    have hc := hrt.columns c huid hcreated
    cases c <;> exact hc
  unfold SpotBusinessInfoBulkRow.merge
  rw [← h.changed row]
  split
  · exact h
  · exact hstamp _ _ (h.setAll _)

variable (row) in
/-- What a row adds differs from run to run in generated values alone. -/
theorem alike_added (now now' : Timestamp) {uid uid' : String} (spotUid : String)
    (huid : isUid uid = true) (huid' : isUid uid' = true) :
    (row.added now uid spotUid).Alike (row.added now' uid' spotUid) := by
  apply SpotBusinessInfo.Alike.setAll
  refine ⟨fun c hc hcreated => ?_, .inr ⟨huid, huid'⟩⟩
  cases c <;> first | rfl | contradiction

theorem SpotBusinessInfo.Alike.spotUid_eq {r t : SpotBusinessInfo} (h : r.Alike t) :
    r.spotUid = t.spotUid :=
  SqlValue.text.inj (h.columns .spotUid nofun nofun)

/-! ## Again -/

/-- What the tables and the uids still to come keep, while the spots stay as they are. -/
structure InfosPrepared (newUid : ℕ → String) (n : ℕ) (spots : Table Spot.uid)
    (index : ℕ) (d : Db) :
    Prop where
  unique : UniqueInfos d
  fresh : ∀ i, index ≤ i → i < n → d.businessInfo.find? (newUid i) = none
  spots_eq : d.spots = spots

/-- Every uid after a row was there, or is the row's. -/
theorem InfoStep.uid_of_mem {uid : String} {d d' : Db} (h : InfoStep be now uid row d d')
    {r : SpotBusinessInfo} (hr : r ∈ d'.businessInfo.rows) :
    (∃ old ∈ d.businessInfo.rows, r.uid = old.uid) ∨ r.uid = uid := by
  rw [h.rows] at hr
  split at hr
  · obtain ⟨old, hold, rfl⟩ := List.mem_map.1 hr
    refine .inl ⟨old, hold, ?_⟩
    split
    · exact row.uid_merge now old
    · rfl
  · rcases List.mem_append.1 hr with hold | hnew
    · exact .inl ⟨r, hold, rfl⟩
    · rw [List.mem_singleton.1 hnew]
      exact .inr (InfoAttr.uid_setAll _ _)

theorem InfosPrepared.step {n : ℕ} (huids : UidsFor newUid n) {spots : Table Spot.uid} {index : ℕ}
    (hindex : index < n) {d d' : Db} (hd : InfosPrepared newUid n spots index d) (honce : row.Once)
    (h : InfoStep be now (newUid index) row d d') :
      InfosPrepared newUid n spots (index + 1) d' := by
  refine ⟨h.unique honce hd.unique, fun i hi hin => ?_, h.spots.trans hd.spots_eq⟩
  apply Table.find?_eq_none.2
  intro r hr heq
  rcases h.uid_of_mem hr with ⟨old, hold, huid⟩ | huid
  · exact Table.find?_eq_none.1 (hd.fresh i (by omega) hin) old hold (huid.symm.trans heq)
  · have hsame : index = i := huids.injective index hindex i hin (huid.symm.trans heq)
    omega

/-- The business info of two executions of the same rows. -/
structure InfosFollowing (newUid : ℕ → String) (n : ℕ) (spots : Table Spot.uid) (index : ℕ)
    (d₁ d₂ : Db) : Prop where
  alike : List.Forall₂ SpotBusinessInfo.Alike d₁.businessInfo.rows d₂.businessInfo.rows
  prepared : InfosPrepared newUid n spots index d₁
  unique : UniqueInfos d₂
  spots_eq : d₂.spots = spots

variable {now' : Timestamp} {newUid' : ℕ → String}

/-- Where a row goes through the second time it goes through the first time. -/
theorem following_infoRow (hbe : be.IgnoresInfoStamps) {n : ℕ} (huids : UidsFor newUid n)
    (huids' : UidsFor newUid' n) {index : ℕ} (hindex : index < n) {d₁ d₂ d₂' : Db} {u : Unit}
    (hnames : row.NamesOne d₁) (honce : row.Once)
    (hR : InfosFollowing newUid n d₁.spots index d₁ d₂)
    (h : infoRow be now' newUid' index row d₂ = .ok (u, d₂')) :
    ∃ u' d₁', infoRow be now newUid index row d₁ = .ok (u', d₁') ∧
      InfosFollowing newUid n d₁.spots (index + 1) d₁' d₂' := by
  have hspot : row.spotUid d₂ = row.spotUid d₁ := spotUid_congr hR.spots_eq
  have hstep₂ := infoStep_of_ok hR.unique ((namesOne_congr hR.spots_eq).2 hnames) h
  have hfind : Option.Rel SpotBusinessInfo.Alike (infoOf d₁ (row.spotUid d₁))
      (infoOf d₂ (row.spotUid d₁)) := by
    apply forall₂_find? _ hR.alike
    intro r t hrt
    rw [hrt.spotUid_eq]
  have hadded := alike_added row now now' (row.spotUid d₁)
    (huids.wellFormed index hindex) (huids'.wellFormed index hindex)
  have htakes₂ := hstep₂.takes
  have hrows₂ := hstep₂.rows
  rw [hspot] at htakes₂ hrows₂
  have htakes₁ : TakesInfo be row (row.added now (newUid index) (row.spotUid d₁)) d₁ := by
    unfold TakesInfo at htakes₂ ⊢
    rw [hspot] at htakes₂
    cases hone : infoOf d₁ (row.spotUid d₁) <;> cases htwo : infoOf d₂ (row.spotUid d₁) <;>
      rw [hone, htwo] at hfind
    · rw [htwo] at htakes₂
      exact (hbe _ _ hadded).trans htakes₂
    · cases hfind
    · cases hfind
    · cases hfind with
      | some hrt =>
          rw [htwo] at htakes₂
          dsimp only at htakes₂ ⊢
          rw [hrt.changed row]
          exact htakes₂.imp_right fun hrefuses => (hbe _ _ (hrt.setAll _)).trans hrefuses
  obtain ⟨⟨u', d₁'⟩, hfirst⟩ :=
    (infoRow_isOk_iff hR.prepared.unique hnames (hR.prepared.fresh index le_rfl hindex)).2 htakes₁
  have hstep₁ := infoStep_of_ok hR.prepared.unique hnames hfirst
  have hsome : (infoOf d₁ (row.spotUid d₁)).isSome = (infoOf d₂ (row.spotUid d₁)).isSome := by
    cases hone : infoOf d₁ (row.spotUid d₁) <;> cases htwo : infoOf d₂ (row.spotUid d₁) <;>
      rw [hone, htwo] at hfind <;> first | rfl | cases hfind
  refine ⟨u', d₁', hfirst, ?_, hR.prepared.step huids hindex honce hstep₁,
    hstep₂.unique honce hR.unique, hstep₂.spots.trans hR.spots_eq⟩
  rw [hstep₁.rows, hrows₂, hsome]
  split
  · apply List.forall₂_map_left_iff.2
    apply List.forall₂_map_right_iff.2
    refine hR.alike.imp fun r t hrt => ?_
    rw [hrt.spotUid_eq]
    split
    · exact hrt.merge now now'
    · exact hrt
  · exact List.rel_append hR.alike (.cons hadded .nil)

/-- Rows that all go through the second time all go through the first time. -/
theorem infos_go_through_of_again (hbe : be.IgnoresInfoStamps) {d d' : Db}
    {rows : List SpotBusinessInfoBulkRow} (hspots : d'.spots = d.spots)
    (hinfos : d'.businessInfo = d.businessInfo) (hunique : UniqueInfos d)
    (hnew : NewInfoUids newUid rows.length d) (huids' : UidsFor newUid' rows.length)
    (hnames : ∀ row ∈ rows, row.NamesOne d)
    (honce : ∀ row ∈ rows, row.Once) (h : (infoRow be now' newUid').failures 0 rows d' = []) :
    (infoRow be now newUid).failures 0 rows d = [] := by
  have halike : List.Forall₂ SpotBusinessInfo.Alike d.businessInfo.rows d'.businessInfo.rows := by
    rw [hinfos]
    exact List.forall₂_same.2 fun r _ => SpotBusinessInfo.Alike.refl r
  refine RowStep.failures_eq_nil_of_follows (R := InfosFollowing newUid rows.length d.spots)
    (n := rows.length) ?_ (by omega)
    ⟨halike, ⟨hunique, fun i _ hi => hnew.fresh i hi, rfl⟩, hunique.congr hinfos, hspots⟩ h
  intro index hindex row hrow d₁ d₂ u d₂' hR hok
  have hspots : d₁.spots = d.spots := hR.prepared.spots_eq
  rw [← hspots] at hR ⊢
  exact following_infoRow hbe hnew.toUidsFor huids' hindex
    ((namesOne_congr hspots).2 (hnames row hrow)) (honce row hrow) hR hok

/-- The entries of the rows from `index` on. -/
def infoEntries (now : Timestamp) (newUid : ℕ → String) (d : Db) :
    ℕ → List SpotBusinessInfoBulkRow → List (Entry SqlValue InfoColumn SqlValue)
  | _, [] => []
  | index, row :: rows =>
    row.entry now (newUid index) (row.spotUid d) :: infoEntries now newUid d (index + 1) rows

theorem lawful_infoEntries {d : Db} {index : ℕ} {rows : List SpotBusinessInfoBulkRow} :
    ∀ e ∈ infoEntries now newUid d index rows, e.Lawful spotOf := by
  induction rows generalizing index with
  | nil => nofun
  | cons row rows ih =>
      intro e he
      rcases List.mem_cons.1 he with rfl | hrest
      · exact row.lawful_entry now (newUid index) (row.spotUid d)
      · exact ih e hrest

theorem infoEntries_congr {d d' : Db} (h : d'.spots = d.spots) (index : ℕ)
    (rows : List SpotBusinessInfoBulkRow) :
    infoEntries now newUid d' index rows = infoEntries now newUid d index rows := by
  induction rows generalizing index with
  | nil => rfl
  | cons row rows ih => rw [infoEntries, infoEntries, ih, spotUid_congr h]

/-- Rows that all go through upsert their entries, and leave the spots alone. -/
theorem get_infosAfter {index : ℕ} {rows : List SpotBusinessInfoBulkRow} {d : Db}
    (hunique : UniqueInfos d) (hnames : ∀ row ∈ rows, row.NamesOne d)
    (honce : ∀ row ∈ rows, row.Once)
    (h : (infoRow be now newUid).failures index rows d = []) :
    ((infoRow be now newUid).tablesAfter index rows d).businessInfo.rows.map SpotBusinessInfo.get =
        upsertAll spotOf (infoEntries now newUid d index rows)
          (d.businessInfo.rows.map SpotBusinessInfo.get) ∧
      UniqueInfos ((infoRow be now newUid).tablesAfter index rows d) ∧
      ((infoRow be now newUid).tablesAfter index rows d).spots = d.spots := by
  induction rows generalizing index d with
  | nil => exact ⟨rfl, hunique, rfl⟩
  | cons row rows ih =>
      cases hrow : infoRow be now newUid index row d with
      | error e => simp [RowStep.failures, hrow] at h
      | ok out =>
          obtain ⟨u, d'⟩ := out
          simp only [RowStep.failures, hrow] at h
          simp only [RowStep.tablesAfter, hrow]
          have hstep := infoStep_of_ok hunique (hnames row (List.mem_cons_self ..)) hrow
          have honce' := honce row (List.mem_cons_self ..)
          obtain ⟨hget, hunique', hspots⟩ := ih (hstep.unique honce' hunique)
            (fun r hr => (namesOne_congr hstep.spots).2 (hnames r (List.mem_cons_of_mem _ hr)))
            (fun r hr => honce r (List.mem_cons_of_mem _ hr)) h
          refine ⟨?_, hunique', hspots.trans hstep.spots⟩
          rw [hget, hstep.get honce', infoEntries_congr hstep.spots]
          rfl

/-- Other uids and another time make the same patches. -/
theorem samePatches_infos (d : Db) (index : ℕ) (rows : List SpotBusinessInfoBulkRow) :
    SamePatches (infoEntries now newUid d index rows) (infoEntries now' newUid' d index rows) := by
  unfold SamePatches
  induction rows generalizing index with
  | nil => rfl
  | cons row rows ih =>
      rw [infoEntries, infoEntries, List.map_cons, List.map_cons, ih]
      rfl

/-- Rows that have gone through once change nothing but the time of the last update when they go
through again, on tables `d'` with the spots and the business info they left. -/
theorem infosAfter_again {d d' : Db} {rows : List SpotBusinessInfoBulkRow} (hunique : UniqueInfos d)
    (hnames : ∀ row ∈ rows, row.NamesOne d) (honce : ∀ row ∈ rows, row.Once)
    (hfirst : (infoRow be now newUid).failures 0 rows d = [])
    (hspots : d'.spots = d.spots)
    (hinfos : d'.businessInfo = ((infoRow be now newUid).tablesAfter 0 rows d).businessInfo)
    (hagain : (infoRow be now' newUid').failures 0 rows d' = []) :
    ((infoRow be now' newUid').tablesAfter 0 rows d').businessInfo.rows.map SpotBusinessInfo.get =
      d'.businessInfo.rows.map SpotBusinessInfo.get := by
  obtain ⟨hget, hunique', -⟩ := get_infosAfter hunique hnames honce hfirst
  have hnames' : ∀ row ∈ rows, row.NamesOne d' :=
      fun row hr => (namesOne_congr hspots).2 (hnames row hr)
  rw [(get_infosAfter (hunique'.congr hinfos) hnames' honce hagain).1,
    infoEntries_congr hspots, hinfos,
    hget]
  exact upsertAll_again lawful_infoEntries lawful_infoEntries (samePatches_infos d 0 rows)

/-! ## In another order -/

/-- The spot that a row names has the row's external id. -/
theorem externalId_of_namesOne {d : Db} (h : row.NamesOne d) :
    ∃ s, d.spots.find? (row.spotUid d) = some s ∧ s.externalId = some row.spotExternalId := by
  obtain ⟨uid, huid⟩ := List.length_eq_one_iff.1 h
  have hspot : row.spotUid d = uid := by
    unfold SpotBusinessInfoBulkRow.spotUid
    rw [huid]
    rfl
  have hmem : uid ∈ mappedUids (externalIdMapping [row.spotExternalId] d) row.spotExternalId := by
    rw [huid]
    exact List.mem_singleton_self _
  obtain ⟨pair, hpair, rfl⟩ := List.mem_map.1 hmem
  obtain ⟨hpair, hkey⟩ := List.mem_filter.1 hpair
  obtain ⟨s, hs, hsome⟩ := List.mem_filterMap.1 hpair
  rw [hspot]
  split at hsome
  · rename_i e he
    split at hsome
    · cases hsome
      refine ⟨s, Table.find?_eq_some.2 ⟨hs, rfl⟩, ?_⟩
      rw [he]
      simpa using hkey
    · cases hsome
  · cases hsome

/-- Rows with distinct external ids are about distinct spots. -/
theorem spotUid_ne {row row' : SpotBusinessInfoBulkRow} {d : Db} (h : row.NamesOne d)
    (h' : row'.NamesOne d) (hne : row.spotExternalId ≠ row'.spotExternalId) :
    row.spotUid d ≠ row'.spotUid d := by
  obtain ⟨s, hs, hexternal⟩ := externalId_of_namesOne h
  obtain ⟨s', hs', hexternal'⟩ := externalId_of_namesOne h'
  intro heq
  rw [heq, hs'] at hs
  cases hs
  exact hne (Option.some.inj (hexternal.symm.trans hexternal'))

/-- What becomes of a row of the table, as far as rows are about its spot. -/
def mergedInfo (now : Timestamp) (d : Db) (rows : List SpotBusinessInfoBulkRow)
    (r : SpotBusinessInfo) :
    SpotBusinessInfo :=
  rows.foldl (fun r row => if r.spotUid = row.spotUid d then row.merge now r else r) r

/-- What the rows add, from `index` on. -/
def addedInfos (now : Timestamp) (newUid : ℕ → String) (d : Db) :
    ℕ → List SpotBusinessInfoBulkRow → List SpotBusinessInfo
  | _, [] => []
  | index, row :: rows =>
    if (infoOf d (row.spotUid d)).isSome then addedInfos now newUid d (index + 1) rows
    else row.added now (newUid index) (row.spotUid d) :: addedInfos now newUid d (index + 1) rows

/-- A row leaves the business info of other spots alone. -/
theorem InfoStep.infoOf_eq {uid spotUid : String} {d d' : Db} (h : InfoStep be now uid row d d')
    (honce : row.Once) (hne : row.spotUid d ≠ spotUid) : infoOf d' spotUid = infoOf d spotUid := by
  unfold infoOf
  rw [h.rows]
  split
  · rw [List.find?_map]
    have hpred : ((fun r : SpotBusinessInfo => r.spotUid == spotUid) ∘
        fun r => if r.spotUid = row.spotUid d then row.merge now r else r) =
          fun r => r.spotUid == spotUid := by
      funext r
      simp only [Function.comp_apply]
      split
      · rw [SpotBusinessInfoBulkRow.spotUid_merge honce]
      · rfl
    rw [hpred]
    cases hfind : d.businessInfo.rows.find? fun r => r.spotUid == spotUid with
    | none => rfl
    | some r =>
        have hof : r.spotUid = spotUid := by simpa using List.find?_some hfind
        rw [Option.map_some, if_neg]
        intro heq
        exact hne (heq.symm.trans hof)
  · rw [List.find?_append]
    have hadded : ¬(row.added now uid (row.spotUid d)).spotUid = spotUid := by
      rw [row.spotUid_added]
      exact hne
    simp [hadded]

/-- The business info after rows about distinct spots. -/
theorem rows_infosAfter {index : ℕ} {rows : List SpotBusinessInfoBulkRow} {d : Db}
    (hunique : UniqueInfos d) (hnames : ∀ row ∈ rows, row.NamesOne d)
    (honce : ∀ row ∈ rows, row.Once)
    (hrows : rows.Pairwise fun row row' => row.spotUid d ≠ row'.spotUid d)
    (h : (infoRow be now newUid).failures index rows d = []) :
    ((infoRow be now newUid).tablesAfter index rows d).businessInfo.rows =
      d.businessInfo.rows.map (mergedInfo now d rows) ++ addedInfos now newUid d index rows := by
  induction rows generalizing index d with
  | nil =>
      have hid : mergedInfo now d [] = id := rfl
      rw [hid, List.map_id, addedInfos, List.append_nil]
      rfl
  | cons row rows ih =>
      cases hrow : infoRow be now newUid index row d with
      | error e => simp [RowStep.failures, hrow] at h
      | ok out =>
          obtain ⟨u, d'⟩ := out
          simp only [RowStep.failures, hrow] at h
          simp only [RowStep.tablesAfter, hrow]
          have hstep := infoStep_of_ok hunique (hnames row (List.mem_cons_self ..)) hrow
          have honce' := honce row (List.mem_cons_self ..)
          obtain ⟨hfirst, hrest⟩ := List.pairwise_cons.1 hrows
          have huid : ∀ row' : SpotBusinessInfoBulkRow, row'.spotUid d' = row'.spotUid d :=
            fun _ => spotUid_congr hstep.spots
          have hmerged : mergedInfo now d' rows = mergedInfo now d rows := by
            unfold mergedInfo
            simp only [huid]
          -- the later rows add what they would have added without this one
          have hadded : ∀ index, addedInfos now newUid d' index rows =
              addedInfos now newUid d index rows := by
            have hall : ∀ later : List SpotBusinessInfoBulkRow, (∀ row' ∈ later, row' ∈ rows) →
                ∀ index, addedInfos now newUid d' index later =
                  addedInfos now newUid d index later := by
              intro later
              induction later with
              | nil => exact fun _ _ => rfl
              | cons row' later ih' =>
                  intro hin index
                  rw [addedInfos, addedInfos,
                    ih' (fun r hr => hin r (List.mem_cons_of_mem _ hr)), huid,
                    hstep.infoOf_eq honce' (hfirst row' (hin row' (List.mem_cons_self ..)))]
            exact hall rows fun _ hr => hr
          rw [ih (hstep.unique honce' hunique)
            (fun r hr => (namesOne_congr hstep.spots).2 (hnames r (List.mem_cons_of_mem _ hr)))
            (fun r hr => honce r (List.mem_cons_of_mem _ hr)) (by simpa only [huid] using hrest) h,
            hmerged, hadded, hstep.rows, addedInfos]
          split
          · rw [List.map_map]
            rfl
          · rename_i hnone
            have hnone : infoOf d (row.spotUid d) = none := by simpa using hnone
            rw [List.map_append, List.map_singleton, List.append_assoc, List.singleton_append]
            congr 1
            · apply List.map_congr_left
              intro r hr
              show _ = mergedInfo now d rows
                  (if r.spotUid = row.spotUid d then row.merge now r else r)
              rw [if_neg (infoOf_eq_none.1 hnone r hr)]
            · congr 1
              -- no later row is about the spot of this one
              have hkeep : ∀ later : List SpotBusinessInfoBulkRow, (∀ row' ∈ later, row' ∈ rows) →
                  mergedInfo now d later (row.added now (newUid index) (row.spotUid d)) =
                    row.added now (newUid index) (row.spotUid d) := by
                intro later
                induction later with
                | nil => exact fun _ => rfl
                | cons row' later ih' =>
                    intro hin
                    have hne := hfirst row' (hin row' (List.mem_cons_self ..))
                    unfold mergedInfo
                    rw [List.foldl_cons, row.spotUid_added, if_neg hne]
                    exact ih' fun r hr => hin r (List.mem_cons_of_mem _ hr)
              exact hkeep rows fun _ hr => hr

/-- Rows about distinct spots may come in any order. -/
theorem mergedInfo_perm {d : Db} {rows rows' : List SpotBusinessInfoBulkRow}
    (honce : ∀ row ∈ rows, row.Once)
    (hrows : rows.Pairwise fun row row' => row.spotUid d ≠ row'.spotUid d)
    (hperm : rows.Perm rows') :
    mergedInfo now d rows = mergedInfo now d rows' := by
  funext r
  unfold mergedInfo
  apply hperm.foldl_eq'
  intro row hrow row' hrow' r
  by_cases hsame : row = row'
  · rw [hsame]
  · have hsymm : Std.Symm fun row row' : SpotBusinessInfoBulkRow => row.spotUid d ≠
        row'.spotUid d :=
      ⟨fun _ _ h => h.symm⟩
    have hne : row.spotUid d ≠ row'.spotUid d := hrows.forall hrow hrow' hsame
    by_cases hrow₁ : r.spotUid = row.spotUid d
    · have hrow₂ : r.spotUid ≠ row'.spotUid d := fun h => hne (hrow₁.symm.trans h)
      have hmerged : (row.merge now r).spotUid ≠ row'.spotUid d := by
        rw [SpotBusinessInfoBulkRow.spotUid_merge (honce row hrow)]
        exact hrow₂
      rw [if_pos hrow₁, if_neg hmerged, if_neg hrow₂, if_pos hrow₁]
    · by_cases hrow₂ : r.spotUid = row'.spotUid d
      · have hmerged : (row'.merge now r).spotUid ≠ row.spotUid d := by
          rw [SpotBusinessInfoBulkRow.spotUid_merge (honce row' hrow')]
          exact hrow₁
        rw [if_neg hrow₁, if_pos hrow₂, if_neg hmerged]
      · rw [if_neg hrow₁, if_neg hrow₂, if_neg hrow₁]

/-- Business info, without the uid that was generated for it if `d` does not have it. -/
def forgetNewInfo (d : Db) (r : SpotBusinessInfo) : SpotBusinessInfo :=
  if (d.businessInfo.find? r.uid).isSome then r else { r with uid := "" }

/-- What a row adds, without its uid. -/
theorem forgetNewInfo_added {d : Db} {uid : String} (spotUid : String)
    (hfresh : d.businessInfo.find? uid = none) :
    forgetNewInfo d (row.added now uid spotUid) = row.added now "" spotUid := by
  have huid : (row.added now uid spotUid).uid = uid := InfoAttr.uid_setAll _ _
  have hset : ∀ (fields : List InfoAttr) (r : SpotBusinessInfo),
      ({ InfoAttr.setAll fields r with uid := "" } : SpotBusinessInfo) =
        InfoAttr.setAll fields { r with uid := "" } := by
    intro fields
    induction fields with
    | nil => exact fun _ => rfl
    | cons a fields ih =>
        intro r
        show ({ InfoAttr.setAll fields (a.set r) with uid := "" } : SpotBusinessInfo) = _
        rw [ih]
        show _ = InfoAttr.setAll fields (a.set { r with uid := "" })
        congr 1
        cases a <;> rfl
  unfold forgetNewInfo
  rw [huid, hfresh, Option.isSome_none, if_neg Bool.false_ne_true]
  exact hset _ _

theorem forget_addedInfos {d : Db} {n : ℕ}
    (hfresh : ∀ i < n, d.businessInfo.find? (newUid i) = none)
    (index : ℕ) (rows : List SpotBusinessInfoBulkRow) (hlength : index + rows.length ≤ n) :
    (addedInfos now newUid d index rows).map (forgetNewInfo d) =
      (rows.filter fun row => (infoOf d (row.spotUid d)).isNone).map fun row =>
        row.added now "" (row.spotUid d) := by
  induction rows generalizing index with
  | nil => rfl
  | cons row rows ih =>
      rw [List.length_cons] at hlength
      have hrest := ih (index + 1) (by omega)
      unfold addedInfos
      cases hinfo : infoOf d (row.spotUid d) with
      | some r =>
          rw [Option.isSome_some, if_pos rfl, hrest, List.filter_cons_of_neg (by simp [hinfo])]
      | none =>
          rw [Option.isSome_none, if_neg Bool.false_ne_true, List.map_cons, hrest,
            forgetNewInfo_added _ (hfresh index (by omega)),
              List.filter_cons_of_pos (by simp [hinfo]), List.map_cons]

/-- Rows about distinct spots make the same business info in any order, up to the uids of what is
new. -/
theorem perm_infosAfter {d : Db} {rows rows' : List SpotBusinessInfoBulkRow}
    (hunique : UniqueInfos d)
    (hnew : NewInfoUids newUid rows.length d) (hnew' : NewInfoUids newUid' rows'.length d)
    (hnames : ∀ row ∈ rows, row.NamesOne d) (honce : ∀ row ∈ rows, row.Once)
    (hrows : rows.Pairwise fun row row' => row.spotUid d ≠ row'.spotUid d) (hperm : rows.Perm rows')
    (h : (infoRow be now newUid).failures 0 rows d = [])
    (h' : (infoRow be now newUid').failures 0 rows' d = []) :
    (((infoRow be now newUid).tablesAfter 0 rows d).businessInfo.rows.map (forgetNewInfo d)).Perm
      (((infoRow be now newUid').tablesAfter 0 rows' d).businessInfo.rows.map
        (forgetNewInfo d)) := by
  have hrows' := hperm.pairwise hrows fun h => h.symm
  have hnames' : ∀ row ∈ rows', row.NamesOne d := fun row hr => hnames row (hperm.mem_iff.2 hr)
  have honce' : ∀ row ∈ rows', row.Once := fun row hr => honce row (hperm.mem_iff.2 hr)
  rw [rows_infosAfter hunique hnames honce hrows h,
    rows_infosAfter hunique hnames' honce' hrows' h',
    mergedInfo_perm honce hrows hperm, List.map_append, List.map_append,
    forget_addedInfos hnew.fresh 0 rows (by omega),
      forget_addedInfos hnew'.fresh 0 rows' (by omega)]
  apply List.Perm.append_left
  exact (hperm.filter _).map _

variable (now') in
/-- Whether rows about distinct spots all go through does not depend on their order, on the time, or
on the generated uids. -/
theorem infos_go_through_iff (hbe : be.IgnoresInfoStamps) {d : Db}
    {rows : List SpotBusinessInfoBulkRow}
    (hunique : UniqueInfos d) (hnew : NewInfoUids newUid rows.length d)
    (hnames : ∀ row ∈ rows, row.NamesOne d) (honce : ∀ row ∈ rows, row.Once)
    (hrows : rows.Pairwise fun row row' => row.spotUid d ≠ row'.spotUid d) {uid : String}
    (huid : isUid uid = true) :
    (infoRow be now newUid).failures 0 rows d = [] ↔
      ∀ row ∈ rows, TakesInfo be row (row.added now' uid (row.spotUid d)) d := by
  refine RowStep.failures_eq_nil_iff (n := rows.length) (InfosPrepared newUid rows.length d.spots)
    (fun row d => TakesInfo be row (row.added now' uid (row.spotUid d)) d)
    (fun row row' => row.spotUid d ≠ row'.spotUid d) ?_ ?_ ?_ (by omega)
    hrows ⟨hunique, fun i _ hi => hnew.fresh i hi, rfl⟩
  · intro index row d' hindex hrow hprepared
    have hadded := alike_added row now now' (row.spotUid d')
      (hnew.wellFormed index hindex) huid
    rw [infoRow_isOk_iff hprepared.unique ((namesOne_congr hprepared.spots_eq).2 (hnames row hrow))
      (hprepared.fresh index le_rfl hindex), TakesInfo, TakesInfo, hbe _ _ hadded]
  · intro index row d₁ u d₂ hindex hrow hprepared hok
    have hstep := infoStep_of_ok hprepared.unique
      ((namesOne_congr hprepared.spots_eq).2 (hnames row hrow)) hok
    exact hprepared.step hnew.toUidsFor hindex (honce row hrow) hstep
  · intro index row row' d₁ u d₂ hrow hprepared hne hok
    have hstep := infoStep_of_ok hprepared.unique
      ((namesOne_congr hprepared.spots_eq).2 (hnames row hrow)) hok
    have hapart : row.spotUid d₁ ≠ row'.spotUid d₁ := by
      rw [spotUid_congr hprepared.spots_eq, spotUid_congr hprepared.spots_eq]
      exact hne
    rw [TakesInfo, TakesInfo, spotUid_congr hstep.spots, hstep.infoOf_eq (honce row hrow) hapart]

/-! ## The last row of a spot -/

theorem exists_infoEntry {d : Db} {rows : List SpotBusinessInfoBulkRow}
    (h : row ∈ rows) (index : ℕ) :
    ∃ uid, row.entry now uid (row.spotUid d) ∈ infoEntries now newUid d index rows := by
  induction rows generalizing index with
  | nil => cases h
  | cons row' rows ih =>
      rcases List.mem_cons.1 h with rfl | hrest
      · exact ⟨_, List.mem_cons_self ..⟩
      · obtain ⟨uid, huid⟩ := ih hrest (index + 1)
        exact ⟨uid, List.mem_cons_of_mem _ huid⟩

/-- The patches for a row's spot are those of the rows with its external id. -/
theorem patchFor_infoEntries {d : Db} {rows : List SpotBusinessInfoBulkRow}
    (hnames : ∀ row' ∈ rows, row'.NamesOne d) (hrow : row.NamesOne d) (index : ℕ) :
    patchFor (infoEntries now newUid d index rows) (.text (row.spotUid d)) =
      .seq ((rows.filter fun row' => row'.spotExternalId = row.spotExternalId).map
        SpotBusinessInfoBulkRow.patch) := by
  induction rows generalizing index with
  | nil => rfl
  | cons row' rows ih =>
      have hrest := ih (fun r hr => hnames r (List.mem_cons_of_mem _ hr)) (index + 1)
      unfold patchFor at hrest ⊢
      rw [infoEntries]
      by_cases hsame : row'.spotExternalId = row.spotExternalId
      · have hspot : row'.spotUid d = row.spotUid d := by
          unfold SpotBusinessInfoBulkRow.spotUid
          rw [hsame]
        have hkey : (row'.entry now (newUid index) (row'.spotUid d)).key = .text (row.spotUid d) :=
          congrArg SqlValue.text hspot
        rw [List.filter_cons_of_pos (by simpa using hkey),
          List.filter_cons_of_pos (by simpa using hsame),
          List.map_cons, List.map_cons, Patch.seq, Patch.seq, hrest]
        rfl
      · have hne := spotUid_ne (hnames row' (List.mem_cons_self ..)) hrow hsame
        have hkey : (row'.entry now (newUid index) (row'.spotUid d)).key ≠ .text (row.spotUid d) :=
          fun h => hne (SqlValue.text.inj h)
        rw [List.filter_cons_of_neg (by simpa using hkey), hrest,
          List.filter_cons_of_neg (by simpa using hsame)]

/-- After rows that all go through, one row of the table is about the spot of a row, with what the
rows with its external id have. -/
theorem exists_info_infosAfter {d : Db} {rows : List SpotBusinessInfoBulkRow}
    (hunique : UniqueInfos d)
    (hnames : ∀ row ∈ rows, row.NamesOne d) (honce : ∀ row ∈ rows, row.Once)
    (h : (infoRow be now newUid).failures 0 rows d = []) {row : SpotBusinessInfoBulkRow}
    (hrow : row ∈ rows) :
    ∃ r ∈ ((infoRow be now newUid).tablesAfter 0 rows d).businessInfo.rows,
      (∀ t ∈ ((infoRow be now newUid).tablesAfter 0 rows d).businessInfo.rows,
        t.spotUid = row.spotUid d ↔ t = r) ∧
      ∀ c v, Patch.seq ((rows.filter fun row' => row'.spotExternalId = row.spotExternalId).map
        SpotBusinessInfoBulkRow.patch) c = some v → r.get c = v := by
  obtain ⟨hget, hunique', -⟩ := get_infosAfter hunique hnames honce h
  have hlawful : ∀ e ∈ infoEntries now newUid d 0 rows, e.Lawful spotOf := lawful_infoEntries
  obtain ⟨uid, huid⟩ : ∃ uid, row.entry now uid (row.spotUid d) ∈ infoEntries now newUid d 0 rows :=
    exists_infoEntry hrow 0
  have hkeys := mem_keys_upsertAll (d.businessInfo.rows.map SpotBusinessInfo.get) hlawful huid
  rw [← hget] at hkeys
  obtain ⟨w, hw, hkey⟩ := List.mem_map.1 hkeys
  obtain ⟨r, hr, rfl⟩ := List.mem_map.1 hw
  have hof : r.spotUid = row.spotUid d := SqlValue.text.inj hkey
  refine ⟨r, hr, fun t ht => ?_, fun c v hv => ?_⟩
  · constructor
    · intro hsame
      exact hunique' t ht r hr (hsame.trans hof.symm)
    · rintro rfl
      exact hof
  · have hpatched : r.get ∈ upsertAll spotOf (infoEntries now newUid d 0 rows)
        (d.businessInfo.rows.map SpotBusinessInfo.get) := by
      rw [← hget]
      exact List.mem_map_of_mem hr
    have hfor : patchFor (infoEntries now newUid d 0 rows) (.text (row.spotUid d)) = _ :=
      patchFor_infoEntries hnames (hnames row hrow) 0
    -- whether the row was there or is new, it has the patches of its spot
    have hpatches : ∃ v', r.get =
        (patchFor (infoEntries now newUid d 0 rows) (.text (row.spotUid d))).apply v' := by
      rcases mem_upsertAll hlawful hpatched with ⟨old, -, hold⟩ | ⟨e, he, -, hadded⟩
      · have hsame : spotOf old = .text (row.spotUid d) := by
          rw [← hof, ← key_patchFor hlawful (spotOf old) old, ← hold]
          rfl
        exact ⟨old, hsame ▸ hold⟩
      · have hsame : e.key = .text (row.spotUid d) := by
          rw [← hof, ← (hlawful e he).key_base, ← key_patchFor hlawful e.key e.base, ← hadded]
          rfl
        exact ⟨e.base, hsame ▸ hadded⟩
    obtain ⟨v', hv'⟩ := hpatches
    rw [hv', hfor]
    exact Patch.apply_of_some hv

end Rows

end Vivac
