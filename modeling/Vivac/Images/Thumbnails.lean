import Vivac.Crud.SpotImage
import Vivac.Core.SampleBackend
import Vivac.Lib.SessionRules

/-!
# Thumbnails of many spots

One query reads the thumbnails of many spots, and the first image of each spot is kept. Where the
images of a spot do not tie, that is the first thumbnail in the list of the spot's images
(`thumbnails_agree`).
-/

set_option autoImplicit false

namespace Vivac

open Lib App

/-- The image is kept for its spot if the spot has none yet. -/
theorem lookup_setDefault (thumbnails : List (String × SpotImage)) (image : SpotImage)
    (u : String) :
    (setDefault thumbnails image).lookup u =
      (thumbnails.lookup u).or (if image.spotUid = u then some image else none) := by
  have hsingle : [(image.spotUid, image)].lookup u =
      if image.spotUid = u then some image else none := by
    by_cases h : image.spotUid = u
    · simp [h]
    · have hne : (u == image.spotUid) = false := beq_false_of_ne fun heq => h heq.symm
      simp [h, List.lookup_cons, hne]
  unfold setDefault
  split
  · rename_i hsome
    by_cases h : image.spotUid = u
    · obtain ⟨first, hfirst⟩ := Option.isSome_iff_exists.1 hsome
      rw [h] at hfirst
      rw [hfirst, Option.some_or]
    · rw [if_neg h, Option.or_none]
  · rw [List.lookup_append, hsingle]

/-- After the loop a spot has its first image. -/
theorem lookup_foldl_setDefault (rows : List SpotImage) (thumbnails : List (String × SpotImage))
    (u : String) : (rows.foldl setDefault thumbnails).lookup u =
      (thumbnails.lookup u).or (rows.find? fun i => i.spotUid == u) := by
  induction rows generalizing thumbnails with
  | nil => simp
  | cons i rows ih =>
      rw [List.foldl_cons, ih, lookup_setDefault, Option.or_assoc]
      congr 1
      by_cases h : i.spotUid = u
      · rw [if_pos h, Option.some_or, List.find?_cons_of_pos (by simp [h])]
      · rw [if_neg h, Option.none_or, List.find?_cons_of_neg (by simp [h])]

/-- What the images of a spot are ordered by. -/
def imageKey (i : SpotImage) : ℤ × Option Timestamp := (i.sortOrder, i.createdAt)

/-- Images that tie have one key. -/
theorem imageKey_eq_of_ties {a b : SpotImage} (hab : imageOrder.le a b = true)
    (hba : imageOrder.le b a = true) : imageKey a = imageKey b := by
  have htie : ∀ t u : Option Timestamp, (RowOrder.ofLinear Timestamp).leNullsLast t u = true →
      (RowOrder.ofLinear Timestamp).leNullsLast u t = true → t = u := by
    intro t u htu hut
    cases t with
    | none =>
        cases u with
        | none => rfl
        | some u => cases htu
    | some t =>
        cases u with
        | none => cases hut
        | some u => rw [le_antisymm (of_decide_eq_true htu) (of_decide_eq_true hut)]
  obtain ⟨hsort, hcreated⟩ := (Bool.and_eq_true ..).mp hab
  obtain ⟨hsort', hcreated'⟩ := (Bool.and_eq_true ..).mp hba
  rw [hsort', Bool.not_true, Bool.false_or] at hcreated
  rw [hsort, Bool.not_true, Bool.false_or] at hcreated'
  exact Prod.ext (le_antisymm (of_decide_eq_true hsort) (of_decide_eq_true hsort'))
    (htie _ _ hcreated hcreated')

/-- The images of a spot that are not deleted, as the table has them. -/
def imagesOf (u : String) (d : Db) : List SpotImage :=
  d.images.select fun i => i.spotUid == u && i.deletedAt.isNone

/-- The thumbnails of a spot among those of the query are the thumbnails in the list of its
images. -/
theorem filter_thumbnailRows {d : Db} {texts : RowOrder String} {spotUids : List String}
    {u : String} (hu : u ∈ spotUids) (hdistinct : ((imagesOf u d).map imageKey).Nodup)
    {rows images : List SpotImage}
    (hrows : (thumbnailOrder texts).Arranges (d.images.select fun i =>
      spotUids.contains i.spotUid && i.role == .thumbnail && i.deletedAt.isNone) rows)
    (himages : imageOrder.Arranges (imagesOf u d) images) :
    rows.filter (fun i => i.spotUid == u) = images.filter fun i => i.role == .thumbnail := by
  have hselected : (d.images.select fun i =>
      spotUids.contains i.spotUid && i.role == .thumbnail && i.deletedAt.isNone).filter
        (fun i => i.spotUid == u) = (imagesOf u d).filter fun i => i.role == .thumbnail := by
    simp only [imagesOf, Table.select, List.filter_filter]
    apply List.filter_congr
    intro i _
    by_cases h : i.spotUid = u
    · simp [h, hu]
    · rw [beq_false_of_ne h]
      simp
  have hfiltered := hrows.filter fun i => i.spotUid == u
  rw [hselected] at hfiltered
  -- the rows have one uid, and so the first column of the order does not matter
  have hone : ∀ a ∈ (imagesOf u d).filter fun i => i.role == .thumbnail, a.spotUid = u := by
    intro a ha
    have hmem := (List.mem_filter.1 (List.mem_of_mem_filter ha)).2
    exact eq_of_beq ((Bool.and_eq_true ..).mp hmem).1
  have hsame := hfiltered.of_thenBy fun a ha b hb => by
    show texts.le a.spotUid b.spotUid = true
    rw [hone a ha, hone b hb]
    exact texts.refl u
  apply hsame.unique (himages.filter _)
  intro a ha b hb hab hba
  exact List.inj_on_of_nodup_map hdistinct (List.mem_of_mem_filter ha) (List.mem_of_mem_filter hb)
    (imageKey_eq_of_ties hab hba)

/-- Where no images of a spot tie, a spot of the list has the first thumbnail in the list of its
images, if there is one, and no other spot has any, however the database arranges its rows. -/
theorem thumbnails_agree {d : Db} (hdistinct : ∀ u, ((imagesOf u d).map imageKey).Nodup)
    (texts : RowOrder String) (found : (thumbnailOrder texts).Arrangement)
    (listed : imageOrder.Arrangement) (spotUids : List String) :
    ∃ thumbnails, answer d (getThumbnailsBySpots spotUids texts found) = .ok thumbnails ∧
      ∀ u, ∃ images, answer d (listImagesBySpot u listed) = .ok images ∧
        thumbnails.lookup u =
          if u ∈ spotUids then images.find? fun i => i.role == .thumbnail else none := by
  have hlisted : ∀ u, answer d (listImagesBySpot u listed) = .ok (listed.run (imagesOf u d)) :=
    fun u => answer_select d _
  by_cases hempty : spotUids = []
  · refine ⟨[], ?_, fun u => ⟨_, hlisted u, ?_⟩⟩
    · rw [hempty]
      rfl
    · rw [hempty, if_neg List.not_mem_nil]
      rfl
  · generalize hrows : found.run (d.images.select fun i =>
      spotUids.contains i.spotUid && i.role == .thumbnail && i.deletedAt.isNone) = rows
    have harranges := found.arranges (d.images.select fun i =>
      spotUids.contains i.spotUid && i.role == .thumbnail && i.deletedAt.isNone)
    rw [hrows] at harranges
    refine ⟨rows.foldl setDefault [], ?_, fun u => ⟨_, hlisted u, ?_⟩⟩
    · have hne : spotUids.isEmpty = false := by simp [hempty]
      rw [getThumbnailsBySpots, hne, if_neg Bool.false_ne_true, answer_select, hrows]
    · rw [lookup_foldl_setDefault, List.lookup_nil, Option.none_or]
      by_cases hu : u ∈ spotUids
      · rw [if_pos hu, ← List.head?_filter, ← List.head?_filter,
          filter_thumbnailRows hu (hdistinct u) harranges (listed.arranges (imagesOf u d))]
      · rw [if_neg hu, List.find?_eq_none]
        intro i hi hiu
        have hmem := (List.mem_filter.1 (harranges.perm.mem_iff.1 hi)).2
        simp only [Bool.and_eq_true, List.contains_iff_mem] at hmem
        exact hu (eq_of_beq hiu ▸ hmem.1.1)

namespace Sample

/-- A detail image before two thumbnails, in their order. -/
def campImages : List SpotImage :=
  [{ uid := "i1", spotUid := "camp", s3Key := "k1", role := .thumbnail, sortOrder := 2 },
    { uid := "i2", spotUid := "camp", s3Key := "k2" },
    { uid := "i3", spotUid := "camp", s3Key := "k3", role := .thumbnail, sortOrder := 1 }]

theorem nodup_campImages : (campImages.map SpotImage.uid).Nodup := by decide

def threeImages : Db := { Db.empty with images := ⟨campImages, nodup_campImages⟩ }

theorem nodup_threeImages (u : String) : ((imagesOf u threeImages).map imageKey).Nodup := by
  have hcamp : ((imagesOf "camp" threeImages).map imageKey).Nodup := by decide +kernel
  by_cases hu : u = "camp"
  · rw [hu]
    exact hcamp
  · have hne : ("camp" == u) = false := beq_false_of_ne fun heq => hu heq.symm
    simp [imagesOf, threeImages, campImages, Table.select, hne]

end Sample

/-- The later of the two thumbnails in the table is the first one of the list. -/
theorem thumbnails_agree_three : ∃ thumbnails,
    answer Sample.threeImages (getThumbnailsBySpots ["camp", "lake"]) = .ok thumbnails ∧
      (thumbnails.lookup "camp").map SpotImage.uid = some "i3" ∧
        thumbnails.lookup "lake" = none := by
  obtain ⟨thumbnails, hanswer, hlookup⟩ := thumbnails_agree Sample.nodup_threeImages
    (RowOrder.ofLinear String) (thumbnailOrder (RowOrder.ofLinear String)).stable imageOrder.stable
    ["camp", "lake"]
  refine ⟨thumbnails, hanswer, ?_, ?_⟩
  · obtain ⟨images, himages, hcamp⟩ := hlookup "camp"
    have hlist : answer Sample.threeImages (listImagesBySpot "camp") =
        .ok (imageOrder.stable.run (imagesOf "camp" Sample.threeImages)) := answer_select _ _
    rw [hlist] at himages
    cases himages
    rw [hcamp]
    decide +kernel
  · obtain ⟨images, himages, hlake⟩ := hlookup "lake"
    have hlist : answer Sample.threeImages (listImagesBySpot "lake") =
        .ok (imageOrder.stable.run (imagesOf "lake" Sample.threeImages)) := answer_select _ _
    rw [hlist] at himages
    cases himages
    rw [hlake]
    decide +kernel

end Vivac
