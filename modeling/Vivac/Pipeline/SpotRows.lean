import Vivac.Crud.Spot
import Vivac.Lib.RowLocks

/-!
# The rows of spots

What the spot statements do to the row under a uid, and that they lock the rows they change.
-/

set_option autoImplicit false

namespace Vivac

open Lib App

/-- The spot under a key. -/
def spotUnder : RowKey → Db → Option Spot
  | .spot uid, d => d.spots.find? uid
  | _, _ => none

/-- The columns a write sets, in the rows of `uids`; the other rows stay. -/
theorem find?_rewriteSpots (uids : List String) (f : Rewrite Spot.uid) (d : Db) (uid : String) :
    (rewriteSpots uids f d).spots.find? uid =
      (d.spots.find? uid).map fun s => if uid ∈ uids then (f.apply s).getD s else s := by
  have hfind := Table.find?_rewrite d.spots (fun s => s.uid ∈ uids) f uid
  show (d.spots.rewrite (fun s => s.uid ∈ uids) f).find? uid = _
  rw [hfind]
  cases h : d.spots.find? uid with
  | none => rfl
  | some s =>
      have huid : s.uid = uid := (Table.find?_eq_some.1 h).2
      simp [huid]

theorem find?_rewriteSpots_of_not_mem {uids : List String} {f : Rewrite Spot.uid} {d : Db}
    {uid : String} (h : uid ∉ uids) :
    (rewriteSpots uids f d).spots.find? uid = d.spots.find? uid := by
  rw [find?_rewriteSpots]
  simp [h]

theorem confined_rewriteSpots (uids : List String) (f : Rewrite Spot.uid) :
    Confined spotUnder (uids.map RowKey.spot) (rewriteSpots uids f) := by
  intro d k hk
  cases k with
  | spot uid =>
      apply find?_rewriteSpots_of_not_mem
      intro hmem
      exact hk (List.mem_map_of_mem hmem)
  | _ => rfl

/-- What an update that the database does not refuse does. -/
theorem updateSpots_eq_ok {be : Backend} {p : Spot → Bool} {f : Rewrite Spot.uid}
    {columns : List String} {locked : RowKey → Bool} {d : Db}
    {eff : Effect Db RowKey Change (List String)}
    (h : updateSpots be p f columns locked d = .ok eff) :
    eff = ⟨(d.spots.select p).map Spot.uid, rewriteSpots ((d.spots.select p).map Spot.uid) f,
      ((d.spots.select p).map Spot.uid).map RowKey.spot,
      ((d.spots.select p).map Spot.uid).map fun u => Change.spot u columns⟩ := by
  simp only [updateSpots] at h
  split at h
  · cases h
  · cases h
    rfl

/-- The uids that a statement hits are those of the rows that meet its condition. -/
theorem mem_hit_uids {d : Db} {p : Spot → Bool} {s : Spot} (hs : s ∈ d.spots.rows) :
    s.uid ∈ (d.spots.select p).map Spot.uid ↔ p s = true := by
  constructor
  · intro hin
    obtain ⟨s', hs', hkey⟩ := List.mem_map.1 hin
    obtain ⟨hmem', hp⟩ := Table.mem_select.1 hs'
    rwa [d.spots.eq_of_key_eq hs hmem' hkey.symm]
  · intro hp
    exact List.mem_map.2 ⟨s, Table.mem_select.2 ⟨hs, hp⟩, rfl⟩

/-- What an update does to the rows it has seen. -/
theorem find?_updateSpots {be : Backend} {p : Spot → Bool} {f : Rewrite Spot.uid}
    {columns : List String} {locked : RowKey → Bool} {d : Db}
    {eff : Effect Db RowKey Change (List String)}
    (h : updateSpots be p f columns locked d = .ok eff) (uid : String) :
    (eff.write d).spots.find? uid =
      (d.spots.find? uid).map fun s => if p s then (f.apply s).getD s else s := by
  rw [updateSpots_eq_ok h, find?_rewriteSpots]
  cases hfound : d.spots.find? uid with
  | none => rfl
  | some s =>
      obtain ⟨hmem, rfl⟩ := Table.find?_eq_some.1 hfound
      simp only [Option.map_some, mem_hit_uids hmem]

/-- The rows after an update of all rows alike. -/
theorem rows_updateSpots {be : Backend} {p : Spot → Bool} {g : Spot → Spot}
    {hg : ∀ s, (g s).uid = s.uid} {columns : List String} {locked : RowKey → Bool} {d : Db}
    {eff : Effect Db RowKey Change (List String)}
    (h : updateSpots be p (.total g hg) columns locked d = .ok eff) :
    (eff.write d).spots.rows = d.spots.rows.map fun s => if p s then g s else s := by
  rw [updateSpots_eq_ok h]
  have hrows : (rewriteSpots ((d.spots.select p).map Spot.uid) (.total g hg) d).spots.rows =
      d.spots.rows.map fun s => if s.uid ∈ (d.spots.select p).map Spot.uid then g s else s := by
    simp only [rewriteSpots, Table.rewrite, Rewrite.total, Table.rows_update, Option.getD_some,
      decide_eq_true_eq]
  rw [hrows]
  refine List.map_congr_left fun s hs => ?_
  simp only [mem_hit_uids hs]

theorem confined_updateSpots (be : Backend) (p : Spot → Bool) (f : Rewrite Spot.uid)
    (columns : List String) : (updateSpots be p f columns).Confined spotUnder := by
  intro locked d eff heff
  rw [updateSpots_eq_ok heff]
  exact confined_rewriteSpots _ f

theorem lockSpot_eq_ok {p : Spot → Bool} {uid : String} {locked : RowKey → Bool} {d : Db}
    {eff : Effect Db RowKey Change Bool} (h : lockSpot p uid locked d = .ok eff) :
    (eff = ⟨true, id, [.spot uid], []⟩ ∧ (d.spots.find? uid).any p = true) ∨
      eff = ⟨false, id, [], []⟩ := by
  simp only [lockSpot] at h
  split at h
  · rename_i hfree
    cases h
    simp only [Bool.and_eq_true] at hfree
    exact .inl ⟨rfl, hfree.2⟩
  · cases h
    exact .inr rfl

theorem confined_lockSpot (p : Spot → Bool) (uid : String) :
    (lockSpot p uid).Confined spotUnder := by
  intro locked d eff heff
  rcases lockSpot_eq_ok heff with ⟨rfl, -⟩ | rfl
  · exact Confined.id spotUnder _
  · exact Confined.id spotUnder _

/-- The uids that a statement on the rows of `uids` hits are those rows, once each. -/
theorem mem_select_uids {t : Table Spot.uid} {uids : List String}
    (h : ∀ u ∈ uids, ∃ s, t.find? u = some s) :
    ∀ u, u ∈ (t.select fun s => s.uid ∈ uids).map Spot.uid ↔ u ∈ uids := by
  intro u
  constructor
  · intro hmem
    obtain ⟨s, hs, rfl⟩ := List.mem_map.1 hmem
    simpa using (Table.mem_select.1 hs).2
  · intro hu
    obtain ⟨s, hs⟩ := h u hu
    obtain ⟨hrow, huid⟩ := Table.find?_eq_some.1 hs
    apply List.mem_map.2
    exact ⟨s, Table.mem_select.2 ⟨hrow, by simp [huid, hu]⟩, huid⟩

theorem nodup_select_uids (t : Table Spot.uid) (p : Spot → Bool) :
    ((t.select p).map Spot.uid).Nodup :=
  (List.Sublist.map Spot.uid List.filter_sublist).nodup t.nodup

end Vivac
