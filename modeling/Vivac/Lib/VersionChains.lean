import Mathlib.Data.List.Sort
import Mathlib.Data.Prod.Lex

/-!
# Chains of versions

A log of changes of one thing, each from the version that the change before left (`VersionChain`).
When every change tells what has become of the fields that differ, the log replays to the last
version (`VersionChain.replay_eq`). A log that is listed by time, and by number where times are
equal, comes out in the order of the numbers exactly when the times never decrease along it
(`map_latestFirst_eq_reverse_iff`).
-/

set_option autoImplicit false

namespace Vivac.Lib

/-! ## Versions -/

/-- Every change of the log starts from the version that the change before it has left. -/
inductive VersionChain {E α : Type} (old new : E → α) : α → List E → α → Prop
  | nil (v : α) : VersionChain old new v [] v
  | cons {e : E} {es : List E} {w : α} (h : VersionChain old new (new e) es w) :
      VersionChain old new (old e) (e :: es) w

namespace VersionChain

variable {E α : Type} {old new : E → α} {v w x : α} {es fs : List E}

theorem append (h : VersionChain old new v es w) (h' : VersionChain old new w fs x) :
    VersionChain old new v (es ++ fs) x := by
  induction h with
  | nil v => exact h'
  | cons _ ih => exact .cons (ih h')

theorem single (e : E) : VersionChain old new (old e) [e] (new e) := .cons (.nil _)

/-- The version between two parts of a log. -/
theorem split (h : VersionChain old new v (es ++ fs) x) :
    ∃ w, VersionChain old new v es w ∧ VersionChain old new w fs x := by
  induction es generalizing v with
  | nil => exact ⟨v, .nil v, h⟩
  | cons e es ih =>
      cases h with
      | cons hrest =>
          obtain ⟨w, hes, hfs⟩ := ih hrest
          exact ⟨w, .cons hes, hfs⟩

/-- A log that starts with a change starts from the version before it. -/
theorem old_eq {e : E} (h : VersionChain old new v (e :: es) x) : old e = v := by
  cases h
  rfl

end VersionChain

/-! ## Replays -/

section Replay

variable {E α κ ν : Type}

/-- The fields after the changes of a log, which tells of some fields what they are after a
change. -/
def replay (after : E → κ → Option ν) (f : κ → ν) (es : List E) : κ → ν :=
  es.foldl (fun f e k => (after e k).getD (f k)) f

variable {old new : E → α} {val : α → κ → ν} {after : E → κ → Option ν} {K : κ → Prop} {v w : α}
  {es : List E}

/-- A log that tells of every field of `K` that differs replays to the last version on `K`. -/
theorem VersionChain.replay_eq (h : VersionChain old new v es w)
    (htells : ∀ e k, K k → (after e k).getD (val (old e) k) = val (new e) k) {f : κ → ν}
    (hf : ∀ k, K k → f k = val v k) {k : κ} (hk : K k) : replay after f es k = val w k := by
  induction h generalizing f with
  | nil v => exact hf k hk
  | @cons e es w _ ih =>
      apply ih
      intro k hk
      show (after e k).getD (f k) = val (new e) k
      rw [← htells e k hk, hf k hk]

end Replay

/-! ## Listed by time -/

section Listing

variable {E τ β : Type} [LinearOrder τ] {time : E → τ} {num : E → ℕ}

/-- The latest first, and of equal times the one with the largest number. -/
def latestFirst (time : E → τ) (num : E → ℕ) (es : List E) : List E :=
  es.insertionSort fun a b => toLex (time b, num b) ≤ toLex (time a, num a)

/-- A log that is numbered in its order is listed backwards exactly when its times never decrease;
`out` is what is shown of a change, its time at least. -/
theorem map_latestFirst_eq_reverse_iff {es : List E} {out : E → β} {shown : β → τ}
    (hshown : ∀ e, shown (out e) = time e) (hnum : es.Pairwise fun a b => num a < num b) :
    (latestFirst time num es).map out = es.reverse.map out ↔
      es.Pairwise fun a b => time a ≤ time b := by
  have hsorted : (latestFirst time num es).Pairwise fun a b =>
      toLex (time b, num b) ≤ toLex (time a, num a) :=
    List.pairwise_insertionSort (fun a b => toLex (time b, num b) ≤ toLex (time a, num a)) es
  constructor
  · intro hsame
    have htimes : (latestFirst time num es).map time = es.reverse.map time := by
      have hmap := congrArg (List.map shown) hsame
      simpa only [List.map_map, Function.comp_def, hshown] using hmap
    have hdown : ((latestFirst time num es).map time).Pairwise fun a b => b ≤ a := by
      refine List.pairwise_map.2 (hsorted.imp fun {a b} hab => ?_)
      exact (Prod.Lex.toLex_le_toLex.1 hab).elim (fun h => h.le) fun h => h.1.le
    rw [htimes, List.map_reverse, List.pairwise_reverse] at hdown
    exact List.pairwise_map.1 hdown
  · intro htimes
    congr 1
    have hboth : es.Pairwise fun a b => toLex (time a, num a) < toLex (time b, num b) := by
      refine (htimes.and hnum).imp fun {a b} hab => ?_
      rw [Prod.Lex.toLex_lt_toLex]
      rcases hab.1.lt_or_eq with hlt | heq
      · exact .inl hlt
      · exact .inr ⟨heq, hab.2⟩
    have hdown : es.reverse.Pairwise fun a b => toLex (time b, num b) < toLex (time a, num a) :=
      List.pairwise_reverse.2 hboth
    have hdistinct : (es.map num).Nodup := List.pairwise_map.2 (hnum.imp fun h => h.ne)
    -- both are sorted, and no two changes have one number
    have hsorted' : es.reverse.Pairwise fun a b => toLex (time b, num b) ≤ toLex (time a, num a) :=
      hdown.imp fun h => h.le
    refine List.Perm.eq_of_pairwise (fun a b ha hb hab hba => ?_) hsorted hsorted'
      ((List.perm_insertionSort _ es).trans (List.reverse_perm es).symm)
    have ha' : a ∈ es := (List.mem_insertionSort _).1 ha
    have hb' : b ∈ es := List.mem_reverse.1 hb
    have hkeys : toLex (time a, num a) = toLex (time b, num b) := le_antisymm hba hab
    exact List.inj_on_of_nodup_map hdistinct ha' hb' (congrArg (fun k => (ofLex k).2) hkeys)

end Listing

end Vivac.Lib
