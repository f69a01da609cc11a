import Vivac.Jobs.AllOrNothing
import Vivac.Lib.KeyedUpserts
import Vivac.Models.Columns

/-!
# What rows of business info merge into

Each row of a business info request whose external id names one spot upserts one entry: the columns
it has, for the business info of that spot. Columns are compared before they are written, so a row
that changes nothing leaves the time of the last update, too; the columns here are all but that one.
-/

set_option autoImplicit false

namespace Vivac

open Lib

/-- The spot that the columns name. -/
def spotOf (v : InfoColumn → SqlValue) : SqlValue := v .spotUid

/-- `spot_business_info_spot_uid_key`. -/
def UniqueInfos (d : Db) : Prop :=
  ∀ r ∈ d.businessInfo.rows, ∀ r' ∈ d.businessInfo.rows, r.spotUid = r'.spotUid → r = r'

theorem UniqueInfos.congr {d d' : Db} (h : d'.businessInfo = d.businessInfo) (hd : UniqueInfos d) :
    UniqueInfos d' := by
  intro r hr r' hr'
  rw [h] at hr hr'
  exact hd r hr r' hr'

/-- The business info of a spot. -/
def infoOf (d : Db) (spotUid : String) : Option SpotBusinessInfo :=
  d.businessInfo.rows.find? fun r => r.spotUid == spotUid

theorem infoOf_eq_some {d : Db} {spotUid : String} {r : SpotBusinessInfo}
    (h : infoOf d spotUid = some r) : r ∈ d.businessInfo.rows ∧ r.spotUid = spotUid :=
  ⟨List.mem_of_find?_eq_some h, by simpa using List.find?_some h⟩

theorem infoOf_eq_none {d : Db} {spotUid : String} :
    infoOf d spotUid = none ↔ ∀ r ∈ d.businessInfo.rows, r.spotUid ≠ spotUid := by
  simp [infoOf, List.find?_eq_none]

theorem uniqueKeys_infos_iff {d : Db} :
    UniqueKeys spotOf (d.businessInfo.rows.map SpotBusinessInfo.get) ↔ UniqueInfos d := by
  unfold UniqueKeys
  rw [List.map_map]
  constructor
  · intro h r hr r' hr' heq
    exact List.inj_on_of_nodup_map h hr hr' (congrArg SqlValue.text heq)
  · intro h
    apply List.Nodup.map_on _ d.businessInfo.nodup_rows
    intro r hr r' hr' heq
    exact h r hr r' hr' (SqlValue.text.inj heq)

theorem select_infos {d : Db} (hunique : UniqueInfos d) (spotUid : String) :
    d.businessInfo.select (fun r => r.spotUid == spotUid) = (infoOf d spotUid).toList := by
  cases h : infoOf d spotUid with
  | none =>
      apply List.filter_eq_nil_iff.2
      intro r hr
      simpa using infoOf_eq_none.1 h r hr
  | some r =>
      obtain ⟨hr, huid⟩ := infoOf_eq_some h
      apply List.perm_singleton.1
      unfold Table.select
      rw [List.perm_ext_iff_of_nodup (d.businessInfo.nodup_rows.filter _) (List.nodup_singleton r)]
      intro r'
      rw [List.mem_filter, List.mem_singleton]
      constructor
      · rintro ⟨hr', heq⟩
        exact hunique r' hr' r hr ((by simpa using heq : r'.spotUid = spotUid).trans huid.symm)
      · rintro rfl
        exact ⟨hr, by simpa using huid⟩

/-! ## Rows -/

namespace SpotBusinessInfoBulkRow

variable (row : SpotBusinessInfoBulkRow)

/-- The row's external id names exactly one spot. -/
def NamesOne (d : Db) : Prop :=
  (mappedUids (externalIdMapping [row.spotExternalId] d) row.spotExternalId).length = 1

/-- The spot that the row's external id names. -/
def spotUid (d : Db) : String :=
  (mappedUids (externalIdMapping [row.spotExternalId] d) row.spotExternalId).headD ""

/-- The row's dictionary has each key once. -/
def Once : Prop := (row.fields.map InfoAttr.key).Nodup

/-- The columns that the row has. -/
def patch : Patch InfoColumn SqlValue := InfoAttr.patch row.fields

/-- The pairs that change a row of the table. -/
def changed (r : SpotBusinessInfo) : List InfoAttr := row.fields.filter fun a => !r.has a

/-- The business info with the pairs that change it. -/
def merge (now : Timestamp) (r : SpotBusinessInfo) : SpotBusinessInfo :=
  if (row.changed r).isEmpty then r
  else { InfoAttr.setAll (row.changed r) r with updatedAt := some now }

/-- What a new row of the table starts from. -/
def blank (now : Timestamp) (uid spotUid : String) : SpotBusinessInfo :=
  { uid := uid, spotUid := spotUid, createdAt := some now, updatedAt := some now }

/-- What the row adds to the table. -/
def added (now : Timestamp) (uid spotUid : String) : SpotBusinessInfo :=
  InfoAttr.setAll row.fields (blank now uid spotUid)

/-- The entry that the row upserts. -/
def entry (now : Timestamp) (uid spotUid : String) : Entry SqlValue InfoColumn SqlValue where
  key := .text spotUid
  patch := row.patch
  base := (blank now uid spotUid).get

theorem lawful_entry (now : Timestamp) (uid spotUid : String) :
    (row.entry now uid spotUid).Lawful spotOf where
  keeps _ := Patch.apply_of_none (InfoAttr.patch_of_fixed row.fields (.inr (.inl rfl)))
  key_base := rfl

theorem get_added (now : Timestamp) (uid spotUid : String) :
    (row.added now uid spotUid).get = row.patch.apply (blank now uid spotUid).get :=
  InfoAttr.get_setAll _ _

theorem spotUid_added (now : Timestamp) (uid spotUid : String) :
    (row.added now uid spotUid).spotUid = spotUid := by
  have hcolumn : (row.added now uid spotUid).get .spotUid = .text spotUid := by
    rw [get_added]
    exact Patch.apply_of_none (InfoAttr.patch_of_fixed row.fields (.inr (.inl rfl)))
  exact SqlValue.text.inj hcolumn

variable {row}

/-- Leaving out what the row of the table already has makes no difference. -/
theorem patch_changed (honce : row.Once) (r : SpotBusinessInfo) :
    (InfoAttr.patch (row.changed r)).apply r.get = row.patch.apply r.get := by
  unfold changed patch Once at *
  have hall : ∀ (fields : List InfoAttr) (v : InfoColumn → SqlValue),
      (fields.map InfoAttr.key).Nodup → (∀ a ∈ fields, v a.key = r.get a.key) →
        (InfoAttr.patch (fields.filter fun a => !r.has a)).apply v =
        (InfoAttr.patch fields).apply v := by
    intro fields
    induction fields with
    | nil => exact fun _ _ _ => rfl
    | cons a as ih =>
        intro v hnodup hv
        rw [List.map_cons, List.nodup_cons] at hnodup
        have hcons : ∀ (as : List InfoAttr), (InfoAttr.patch (a :: as)).apply v =
            (InfoAttr.patch as).apply (Function.update v a.key a.value) := by
          intro as
          rw [InfoAttr.patch, List.map_cons, Patch.apply_seq_cons, Patch.apply_single]
          rfl
        rw [hcons]
        by_cases hhas : r.has a = true
        · -- the pair sets what is there
          have hsame : Function.update v a.key a.value = v := by
            have hset : a.set r = r := by simpa [SpotBusinessInfo.has] using hhas
            have hvalue := congrFun (InfoAttr.get_set a r) a.key
            rw [hset, Function.update_self] at hvalue
            rw [← hvalue, ← hv a (List.mem_cons_self ..), Function.update_eq_self]
          rw [List.filter_cons_of_neg (by simpa using hhas), hsame]
          exact ih v hnodup.2 fun b hb => hv b (List.mem_cons_of_mem _ hb)
        · rw [List.filter_cons_of_pos (by simpa using hhas), hcons]
          apply ih _ hnodup.2
          intro b hb
          have hne : b.key ≠ a.key := fun heq => hnodup.1 (heq ▸ List.mem_map_of_mem hb)
          rw [Function.update_of_ne hne]
          exact hv b (List.mem_cons_of_mem _ hb)
  exact hall row.fields r.get honce fun _ _ => rfl

theorem get_merge (honce : row.Once) (now : Timestamp) (r : SpotBusinessInfo) :
    (row.merge now r).get = row.patch.apply r.get := by
  have hupdated : ∀ (r : SpotBusinessInfo) t,
      ({ r with updatedAt := t } : SpotBusinessInfo).get = r.get := by
    intro r t
    funext c
    cases c <;> rfl
  rw [← patch_changed honce]
  unfold merge
  split
  · rename_i hempty
    rw [List.isEmpty_iff.1 hempty]
    rfl
  · rw [hupdated, InfoAttr.get_setAll]

theorem uid_merge (now : Timestamp) (r : SpotBusinessInfo) : (row.merge now r).uid = r.uid := by
  unfold merge
  split
  · rfl
  · exact InfoAttr.uid_setAll _ _

theorem spotUid_merge (honce : row.Once) (now : Timestamp) (r : SpotBusinessInfo) :
    (row.merge now r).spotUid = r.spotUid := by
  have hcolumn : (row.merge now r).get .spotUid = r.get .spotUid := by
    rw [get_merge honce]
    exact Patch.apply_of_none (InfoAttr.patch_of_fixed row.fields (.inr (.inl rfl)))
  exact SqlValue.text.inj hcolumn

end SpotBusinessInfoBulkRow

/-! ## One row -/

section Step

variable {be : Backend} {now : Timestamp} {newUid : ℕ → String} {row : SpotBusinessInfoBulkRow}

theorem spotUid_congr {d d' : Db} (h : d'.spots = d.spots) : row.spotUid d' = row.spotUid d := by
  unfold SpotBusinessInfoBulkRow.spotUid externalIdMapping
  rw [h]

theorem namesOne_congr {d d' : Db} (h : d'.spots = d.spots) : row.NamesOne d' ↔ row.NamesOne d := by
  unfold SpotBusinessInfoBulkRow.NamesOne externalIdMapping
  rw [h]

variable (be) in
/-- An external id that names one spot is resolved to it, and the spot is there. -/
theorem resolve_of_namesOne {d : Db} (h : row.NamesOne d) :
    resolveExternalId be (externalIdMapping [row.spotExternalId] d) row.spotExternalId =
      .ok (row.spotUid d) ∧ (d.spots.find? (row.spotUid d)).isSome = true := by
  obtain ⟨uid, huid⟩ := List.length_eq_one_iff.1 h
  have hspot : row.spotUid d = uid := by
    unfold SpotBusinessInfoBulkRow.spotUid
    rw [huid]
    rfl
  constructor
  · unfold resolveExternalId
    rw [huid, hspot]
  · rw [hspot, Option.isSome_iff_exists]
    have hmem : uid ∈ mappedUids (externalIdMapping [row.spotExternalId] d) row.spotExternalId := by
      rw [huid]
      exact List.mem_singleton_self _
    obtain ⟨pair, hpair, rfl⟩ := List.mem_map.1 hmem
    obtain ⟨s, hs, hsome⟩ := List.mem_filterMap.1 (List.mem_filter.1 hpair).1
    refine ⟨s, Table.find?_eq_some.2 ⟨hs, ?_⟩⟩
    split at hsome
    · split at hsome
      · cases hsome
        rfl
      · cases hsome
    · cases hsome

/-- The database takes the row: `proposed` is what it would add for a spot without business info. -/
def TakesInfo (be : Backend) (row : SpotBusinessInfoBulkRow)
    (proposed : SpotBusinessInfo) (d : Db) :
    Prop :=
  match infoOf d (row.spotUid d) with
  | some r => row.changed r = [] ∨ be.refusesBusinessInfo (InfoAttr.setAll (row.changed r) r) = none
  | none => be.refusesBusinessInfo proposed = none

/-- What a row that goes through shows, and what it leaves. -/
structure InfoStep (be : Backend) (now : Timestamp) (uid : String) (row : SpotBusinessInfoBulkRow)
    (d d' : Db) : Prop where
  takes : TakesInfo be row (row.added now uid (row.spotUid d)) d
  spots : d'.spots = d.spots
  rows : d'.businessInfo.rows = if (infoOf d (row.spotUid d)).isSome then
      d.businessInfo.rows.map fun r => if r.spotUid = row.spotUid d then row.merge now r else r
    else d.businessInfo.rows ++ [row.added now uid (row.spotUid d)]

theorem infoStep_of_ok {index : ℕ} {d d' : Db} {u : Unit} (hunique : UniqueInfos d)
    (hnames : row.NamesOne d) (h : infoRow be now newUid index row d = .ok (u, d')) :
    InfoStep be now (newUid index) row d d' := by
  obtain ⟨hresolve, hspot⟩ := resolve_of_namesOne be hnames
  unfold infoRow at h
  rw [hresolve] at h
  change writeInfo be now (newUid index) (row.spotUid d) row.fields d = _ at h
  unfold writeInfo at h
  rw [select_infos hunique] at h
  cases hinfo : infoOf d (row.spotUid d) with
  | none =>
      rw [hinfo] at h
      -- no row of the spot yet: the INSERT, with its refusals in the order of the database
      obtain ⟨eff, heff, -, rfl⟩ := Stmt.ok_of_apply h
      simp only [insertInfoRow] at heff
      split at heff
      · cases heff
      · rename_i hrefuses
        split at heff
        · cases heff
        · split at heff
          · cases heff
          · split at heff
            · cases heff
            · rename_i hnew _ _
              cases heff
              have huid : (row.added now (newUid index) (row.spotUid d)).uid = newUid index :=
                InfoAttr.uid_setAll _ _
              refine ⟨?_, rfl, ?_⟩
              · rw [TakesInfo, hinfo]
                exact hrefuses
              · rw [hinfo, Option.isSome_none, if_neg Bool.false_ne_true]
                apply Table.rows_insert_of_new
                apply Table.find?_eq_none.1
                have hnone :
                    d.businessInfo.find? (row.added now (newUid index) (row.spotUid d)).uid =
                    none := by
                  have hsome : ¬(d.businessInfo.find?
                      (row.added now (newUid index) (row.spotUid d)).uid).isSome = true := hnew
                  simpa using hsome
                exact hnone
  | some existing =>
      obtain ⟨hmem, hof⟩ := infoOf_eq_some hinfo
      have hfind : d.businessInfo.find? existing.uid = some existing :=
        Table.find?_eq_some.2 ⟨hmem, rfl⟩
      -- a row of the spot: setting the fields by uid, as the flush does, is merging by spot
      have hone : ∀ r ∈ d.businessInfo.rows, r.spotUid = row.spotUid d ↔ r = existing := by
        intro r hr
        constructor
        · intro heq
          exact hunique r hr existing hmem (heq.trans hof.symm)
        · rintro rfl
          exact hof
      rw [hinfo] at h
      simp only [Option.toList_some, scalarOneOrNone, Except.bind] at h
      have hrest : ∀ {t : List SpotBusinessInfo}, t = d.businessInfo.rows.map (fun r =>
          if r = existing then row.merge now r else r) →
          t = d.businessInfo.rows.map fun r => if r.spotUid =
            row.spotUid d then row.merge now r else r := by
        rintro t rfl
        apply List.map_congr_left
        intro r hr
        by_cases hr' : r = existing
        · rw [if_pos hr', if_pos ((hone r hr).2 hr')]
        · rw [if_neg hr', if_neg fun h => hr' ((hone r hr).1 h)]
      split at h
      · rename_i hempty
        cases h
        refine ⟨?_, rfl, ?_⟩
        · rw [TakesInfo, hinfo]
          exact .inl (List.isEmpty_iff.1 hempty)
        · rw [hinfo, Option.isSome_some, if_pos rfl]
          apply hrest
          have hsame : ∀ r ∈ d.businessInfo.rows, id r = if r =
              existing then row.merge now r else r := by
            intro r _
            split
            · rename_i heq
              rw [heq]
              exact (if_pos hempty).symm
            · rfl
          rw [← List.map_congr_left hsame, List.map_id]
      · rename_i hchanged
        cases hst : (updateInfoRow be now existing.uid
            (row.fields.filter fun a => !existing.has a)).apply d with
        | error e =>
            rw [hst] at h
            cases h
        | ok out =>
            rw [hst] at h
            cases h
            obtain ⟨eff, heff, -, hwrite⟩ :=
                Stmt.ok_of_apply (show _ = Except.ok (out.1, out.2) from hst)
            rw [← hwrite]
            simp only [updateInfoRow, hfind] at heff
            split at heff
            · cases heff
            · rename_i hrefuses
              cases heff
              refine ⟨?_, rfl, ?_⟩
              · rw [TakesInfo, hinfo]
                exact .inr hrefuses
              · rw [hinfo, Option.isSome_some, if_pos rfl]
                apply hrest
                show (d.businessInfo.rows.map fun r => if r.uid == existing.uid then
                  ((setInfo now (row.changed existing)).apply r).getD r else r) = _
                apply List.map_congr_left
                intro r hr
                by_cases heq : r = existing
                · rw [heq, if_pos (beq_self_eq_true _), if_pos rfl]
                  exact (if_neg hchanged).symm
                · have hne : r.uid ≠ existing.uid :=
                      fun h => heq (d.businessInfo.eq_of_key_eq hr hmem h)
                  rw [if_neg (by simpa using hne), if_neg heq]

/-- A row goes through when the database takes it, and its uid is new. -/
theorem infoRow_isOk_iff {index : ℕ} {d : Db} (hunique : UniqueInfos d) (hnames : row.NamesOne d)
    (hfresh : d.businessInfo.find? (newUid index) = none) :
    (∃ out, infoRow be now newUid index row d = .ok out) ↔
      TakesInfo be row (row.added now (newUid index) (row.spotUid d)) d := by
  constructor
  · rintro ⟨⟨u, d'⟩, hout⟩
    exact (infoStep_of_ok hunique hnames hout).takes
  · intro htakes
    obtain ⟨hresolve, hspot⟩ := resolve_of_namesOne be hnames
    unfold infoRow
    rw [hresolve]
    change ∃ out, writeInfo be now (newUid index) (row.spotUid d) row.fields d = .ok out
    unfold writeInfo
    rw [select_infos hunique]
    cases hinfo : infoOf d (row.spotUid d) with
    | none =>
        have hrefuses :
            be.refusesBusinessInfo (row.added now (newUid index) (row.spotUid d)) = none := by
          rw [TakesInfo, hinfo] at htakes
          exact htakes
        have huid : (row.added now (newUid index) (row.spotUid d)).uid = newUid index :=
          InfoAttr.uid_setAll _ _
        have hof := row.spotUid_added now (newUid index) (row.spotUid d)
        have hnone : d.businessInfo.any (fun r' => r'.spotUid == row.spotUid d) = false := by
          apply List.any_eq_false.2
          intro r hr
          simpa using infoOf_eq_none.1 hinfo r hr
        have hinsert :
            ∃ out, (insertInfoRow be (row.added now (newUid index) (row.spotUid d))).apply d =
            .ok out := by
          have hthere : (d.spots.find? (row.spotUid d)).isNone = false := by
            rw [← Option.not_isSome, hspot]
            rfl
          simp only [Stmt.apply, insertInfoRow, hrefuses, huid, hof, hfresh, hnone, hthere,
            Option.isSome_none, Bool.false_eq_true, if_false]
          exact ⟨_, rfl⟩
        exact hinsert
    | some existing =>
        obtain ⟨hmem, -⟩ := infoOf_eq_some hinfo
        have hfind : d.businessInfo.find? existing.uid = some existing :=
          Table.find?_eq_some.2 ⟨hmem, rfl⟩
        rw [TakesInfo, hinfo] at htakes
        simp only [Option.toList_some, scalarOneOrNone, Except.bind]
        split
        · exact ⟨_, rfl⟩
        · rename_i hchanged
          have hrefuses : be.refusesBusinessInfo (InfoAttr.setAll
              (row.fields.filter fun a => !existing.has a) existing) = none := by
            rcases htakes with hnone | hrefuses
            · exact absurd (List.isEmpty_iff.2 hnone) hchanged
            · exact hrefuses
          simp only [Stmt.apply, updateInfoRow, hfind, hrefuses, Except.map]
          exact ⟨_, rfl⟩

/-- A row that goes through upserts its entry. -/
theorem InfoStep.get {uid : String} {d d' : Db} (h : InfoStep be now uid row d d')
    (honce : row.Once) :
    d'.businessInfo.rows.map SpotBusinessInfo.get =
      upsert spotOf (row.entry now uid (row.spotUid d))
        (d.businessInfo.rows.map SpotBusinessInfo.get) := by
  rw [h.rows]
  cases hinfo : infoOf d (row.spotUid d) with
  | none =>
      have hnew : (row.entry now uid (row.spotUid d)).key ∉
          (d.businessInfo.rows.map SpotBusinessInfo.get).map spotOf := by
        rw [List.map_map]
        intro hmem
        obtain ⟨r, hr, heq⟩ := List.mem_map.1 hmem
        exact infoOf_eq_none.1 hinfo r hr (SqlValue.text.inj heq)
      rw [upsert, if_neg hnew, Option.isSome_none, if_neg Bool.false_ne_true, List.map_append,
        List.map_singleton,
        SpotBusinessInfoBulkRow.get_added]
      rfl
  | some r =>
      obtain ⟨hr, hof⟩ := infoOf_eq_some hinfo
      have hthere : (row.entry now uid (row.spotUid d)).key ∈
          (d.businessInfo.rows.map SpotBusinessInfo.get).map spotOf := by
        rw [List.map_map]
        exact List.mem_map.2 ⟨r, hr, congrArg SqlValue.text hof⟩
      rw [upsert, if_pos hthere, Option.isSome_some, if_pos rfl, List.map_map, List.map_map]
      apply List.map_congr_left
      intro r' _
      have hiff : spotOf r'.get = (row.entry now uid (row.spotUid d)).key ↔
          r'.spotUid = row.spotUid d :=
        ⟨fun h => SqlValue.text.inj h, fun h => congrArg SqlValue.text h⟩
      simp only [Function.comp_apply]
      by_cases heq : r'.spotUid = row.spotUid d
      · rw [if_pos heq, if_pos (hiff.2 heq), SpotBusinessInfoBulkRow.get_merge honce]
        rfl
      · rw [if_neg heq, if_neg fun h => heq (hiff.1 h)]

theorem InfoStep.unique {uid : String} {d d' : Db} (h : InfoStep be now uid row d d')
    (honce : row.Once)
    (hunique : UniqueInfos d) : UniqueInfos d' := by
  rw [← uniqueKeys_infos_iff, h.get honce]
  exact (uniqueKeys_infos_iff.2 hunique).upsert (row.lawful_entry now uid (row.spotUid d))

end Step

end Vivac
