import Vivac.Images.SingleUse

/-!
# The limits of images

A registration checks the number of images with a count, and the size of the object with a HEAD;
it inserts and copies later. Two registrations that have both counted both insert, and a client
may replace the object between the HEAD and the copy (`limits_overrun`).

When what the count has found still stands at the commit, and what the HEAD has found at the copy,
no spot gets more images than it may have, and no image registered in the run has an object that
is too large (`limits_hold`).
-/

set_option autoImplicit false

namespace Vivac.Images

open Lib App Storage ImageRegistration

/-- The spot that a registration adds an image to. -/
def Call.spot? : Call → Option String
  | .register r => some r.spotUid
  | .delete _ => none
  | .put _ _ => none

section

variable {ι : Type} [DecidableEq ι]

variable (limits : ImageLimits) (calls : ι → Call)

/-- What is copied is as small as what the HEAD of the session has found. -/
def SizeStands (i : ι) (source : String) (s : StorageState ι) : Prop :=
  (∃ told ∈ s.heads i, ∃ size ∈ told, size ≤ limits.maxBytes) →
    ∀ size ∈ s.objects source, size ≤ limits.maxBytes

/-- A spot in which a statement of a registration has found room has room when the registration
commits. -/
def CountStands (i : ι) (s : StorageState ι) : Prop :=
  ∀ u ∈ (calls i).spot?, ∀ d ∈ s.world.seen i,
    (activeImages u d).length < limits.maxCountPerSpot →
    (activeImages u s.world.db).length < limits.maxCountPerSpot

instance decidableSizeStands (i : ι) (source : String) (s : StorageState ι) :
    Decidable (SizeStands limits i source s) :=
  inferInstanceAs (Decidable ((∃ told ∈ s.heads i, ∃ size ∈ told, size ≤ limits.maxBytes) →
    ∀ size ∈ s.objects source, size ≤ limits.maxBytes))

instance decidableCountStands (i : ι) (s : StorageState ι) :
    Decidable (CountStands limits calls i s) :=
  inferInstanceAs (Decidable (∀ u ∈ (calls i).spot?, ∀ d ∈ s.world.seen i,
    (activeImages u d).length < limits.maxCountPerSpot →
    (activeImages u s.world.db).length < limits.maxCountPerSpot))

/-- What the registrations of the pool have found still stands: the size at a copy, the count at a
commit. -/
def ChecksStand : CommandGuard ι Db RowKey Change Body Exc ℕ :=
  CommandGuard.of (SizeStands limits) (CountStands limits calls)

instance decidableChecksStand (i : ι) (β : Type) (cmd : StorageCommand β) (s : StorageState ι) :
    Decidable (ChecksStand limits calls i cmd s) :=
  decidableCommandGuardOf (SizeStands limits) (CountStands limits calls) i β cmd s

/-- The terms of the pool under this condition. -/
abbrev limitTerms : DepotTerms ι Db RowKey Change Body Exc ℕ :=
  imageTerms limits calls (ChecksStand limits calls)

/-! ## The number of images -/

/-- An image of the spot that is not deleted. -/
def activeIn (u : String) (a : SpotImage) : Bool := a.spotUid == u && a.deletedAt.isNone

theorem length_activeImages (u : String) (d : Db) :
    (activeImages u d).length = d.images.rows.countP (activeIn u) := by
  rw [activeImages, List.length_insertionSort, Table.select, List.countP_eq_length_filter]
  rfl

theorem length_activeImages_insert (u : String) (d : Db) (image : SpotImage) :
    (activeImages u { d with images := d.images.insert image }).length ≤
      (activeImages u d).length + if image.spotUid = u then 1 else 0 := by
  rw [length_activeImages, length_activeImages]
  simp only [Table.insert]
  split
  · exact Nat.le_add_right _ _
  · rw [List.countP_append, List.countP_singleton]
    apply Nat.add_le_add_left
    by_cases hu : image.spotUid = u
    · rw [if_pos hu]
      split <;> omega
    · have hother : activeIn u image = false := by
        simp [activeIn, hu]
      rw [hother, if_neg hu]
      exact Nat.le_refl 0

theorem length_activeImages_softDeleted (u uid : String) (now : Timestamp) (d : Db) :
    (activeImages u (rewriteImage uid (softDeleted now) d)).length ≤
      (activeImages u d).length := by
  rw [length_activeImages, length_activeImages]
  show List.countP _ (List.map _ d.images.rows) ≤ _
  rw [List.countP_map]
  apply List.countP_mono_left
  intro a _ hactive
  simp only [Function.comp_apply] at hactive
  split at hactive
  · simp [activeIn, softDeleted] at hactive
  · exact hactive

variable {limits calls} {s s' : StorageState ι}

/-- A step under which the checks still stand leaves the spot with as many images as it may
have. -/
theorem count_step (u : String) (hstep : DepotStep (limitTerms limits calls) s s')
    (h : (activeImages u s.world.db).length ≤ limits.maxCountPerSpot) :
    (activeImages u s'.world.db).length ≤ limits.maxCountPerSpot := by
  cases hstep with
  | quiet w hs hdb _ =>
      rw [hs, Depot.inWorld, hdb]
      exact h
  | commit i w hs hok hfact hdb _ =>
      rw [hs, Depot.inWorld, hdb]
      have hcommits : (calls i).Commits limits (s.world.tx i).work (s.stock i) := hfact
      cases hc : calls i with
      | register r =>
          rw [hc] at hcommits
          obtain ⟨key, -, -, hwrite⟩ := hcommits.row
          obtain ⟨d, hd, hroom⟩ := hcommits.room
          have hstands : CountStands limits calls i s := hok
          have hnow := hstands r.spotUid (by rw [hc]; rfl) d hd hroom
          rw [hwrite]
          apply (length_activeImages_insert u s.world.db (r.image key)).trans
          split
          · rename_i hu
            have hspot : r.spotUid = u := hu
            rw [← hspot]
            exact hnow
          · exact h
      | delete r =>
          rw [hc] at hcommits
          obtain ⟨uid, hwrite⟩ := hcommits
          rw [hwrite]
          exact (length_activeImages_softDeleted u uid r.now s.world.db).trans h
      | put rest size =>
          rw [hc] at hcommits
          exact hcommits.elim
  | head i key o ho _ _ hs =>
      rw [hs]
      exact h
  | copy i source target object o ho _ _ _ hs =>
      rw [hs]
      exact h
  | delete i key hs =>
      rw [hs]
      exact h
  | put i key object o ho _ _ hs =>
      rw [hs]
      exact h

/-! ## The size of their objects -/

/-- What registrations have copied is small, and lies where clients cannot write. A row is one of
the start, or one of a copy. -/
structure Small (limits : ImageLimits) (start : Db) (s : StorageState ι) : Prop where
  final : ∀ j, ∀ key ∈ s.copied j, ∃ rest, key = finalPrefix ++ rest
  size : ∀ j, ∀ key ∈ s.copied j, ∀ size ∈ s.objects key, size ≤ limits.maxBytes
  rows : ∀ a ∈ s.world.db.images.rows,
    (∃ b ∈ start.images.rows, b.uid = a.uid) ∨ ∃ j, a.s3Key ∈ s.copied j

variable {start : Db}

omit [DecidableEq ι] in
/-- Rows that come from rows before, with their keys. -/
theorem Small.rows_of (h : Small limits start s) {d : Db}
    (hd : ∀ a ∈ d.images.rows, ∃ b ∈ s.world.db.images.rows, b.uid = a.uid ∧ b.s3Key = a.s3Key) :
    ∀ a ∈ d.images.rows,
      (∃ b ∈ start.images.rows, b.uid = a.uid) ∨ ∃ j, a.s3Key ∈ s.copied j := by
  intro a ha
  obtain ⟨b, hb, huid, hkey⟩ := hd a ha
  rw [← huid, ← hkey]
  exact h.rows b hb

omit [DecidableEq ι] in
theorem Small.of_same (h : Small limits start s) (hdb : s'.world.db = s.world.db)
    (hobjects : s'.objects = s.objects) (hcopied : s'.copied = s.copied) :
    Small limits start s' := by
  constructor
  · rw [hcopied]
    exact h.final
  · rw [hcopied, hobjects]
    exact h.size
  · rw [hdb, hcopied]
    exact h.rows

omit [DecidableEq ι] in
/-- A commit publishes rows of the start and rows of copies. -/
theorem Small.commit (h : Small limits start s) {d : Db} (hdb : s'.world.db = d)
    (hobjects : s'.objects = s.objects) (hcopied : s'.copied = s.copied)
    (hrows : ∀ a ∈ d.images.rows,
      (∃ b ∈ start.images.rows, b.uid = a.uid) ∨ ∃ j, a.s3Key ∈ s.copied j) :
    Small limits start s' := by
  constructor
  · rw [hcopied]
    exact h.final
  · rw [hcopied, hobjects]
    exact h.size
  · rw [hdb, hcopied]
    exact hrows

omit [DecidableEq ι] in
/-- What is put elsewhere, or taken away, makes nothing large. -/
theorem Small.place (h : Small limits start s) (key : String) (object : Option ℕ)
    (hkey : ∀ size ∈ object, size ≤ limits.maxBytes ∨ ∀ j, key ∉ s.copied j) :
    Small limits start (s.place key object) := by
  refine ⟨h.final, fun j k hk size hsize => ?_, h.rows⟩
  by_cases hsame : k = key
  · subst hsame
    have hplaced : object = some size := by
      simpa [Depot.place] using hsize
    rcases hkey size hplaced with hsmall | hnot
    · exact hsmall
    · exact absurd hk (hnot j)
  · apply h.size j k hk
    simpa [Depot.place, Function.update_of_ne hsame] using hsize

/-- A copy of a small object to a final key. -/
theorem Small.tookCopy (h : Small limits start s) (i : ι) {target : String}
    (hfinal : ∃ rest, target = finalPrefix ++ rest)
    (hsmall : ∀ size ∈ s.objects target, size ≤ limits.maxBytes) :
    Small limits start (s.tookCopy i target) := by
  have hcopied : ∀ j key, key ∈ (s.tookCopy i target).copied j → key = target ∨
      key ∈ s.copied j := by
    intro j key hkey
    by_cases hj : j = i
    · subst hj
      simp only [Depot.tookCopy, Function.update_self, List.mem_cons] at hkey
      exact hkey
    · simp only [Depot.tookCopy, Function.update_of_ne hj] at hkey
      exact .inr hkey
  have hstays : ∀ j key, key ∈ s.copied j → key ∈ (s.tookCopy i target).copied j := by
    intro j key hkey
    by_cases hj : j = i
    · subst hj
      simp only [Depot.tookCopy, Function.update_self]
      exact List.mem_cons_of_mem _ hkey
    · simp only [Depot.tookCopy, Function.update_of_ne hj]
      exact hkey
  constructor
  · intro j key hkey
    rcases hcopied j key hkey with rfl | hkey
    · exact hfinal
    · exact h.final j key hkey
  · intro j key hkey
    rcases hcopied j key hkey with rfl | hkey
    · exact hsmall
    · exact h.size j key hkey
  · intro a ha
    rcases h.rows a ha with hstart | ⟨j, hj⟩
    · exact .inl hstart
    · exact .inr ⟨j, hstays j _ hj⟩

theorem Small.step (hstep : DepotStep (limitTerms limits calls) s s')
    (h : Small limits start s) : Small limits start s' := by
  cases hstep with
  | quiet w hs hdb _ =>
      rw [hs]
      exact h.of_same hdb rfl rfl
  | commit i w hs hok hfact hdb _ =>
      rw [hs]
      refine h.commit hdb rfl rfl ?_
      have hcommits : (calls i).Commits limits (s.world.tx i).work (s.stock i) := hfact
      cases hc : calls i with
      | register r =>
          rw [hc] at hcommits
          obtain ⟨key, -, hcopied, hwrite⟩ := hcommits.row
          rw [hwrite]
          intro a ha
          rcases Table.mem_insert ha with ha | rfl
          · exact h.rows a ha
          · right
            refine ⟨i, ?_⟩
            rw [show s.copied i = [key] from hcopied]
            exact List.mem_singleton_self _
      | delete r =>
          rw [hc] at hcommits
          obtain ⟨uid, hwrite⟩ := hcommits
          rw [hwrite]
          apply h.rows_of
          intro a ha
          obtain ⟨b, hb, rfl⟩ := List.mem_map.1 ha
          refine ⟨b, hb, ?_⟩
          split <;> exact ⟨rfl, rfl⟩
      | put rest size =>
          rw [hc] at hcommits
          exact hcommits.elim
  | head i key o ho _ _ hs =>
      rw [hs]
      exact h.of_same rfl rfl rfl
  | copy i source target object o ho hissues hok hobject hs =>
      obtain ⟨-, hfinal, hfound⟩ := hissues
      -- what is copied is still what the HEAD has found, so the limit that was checked is its own
      have hstands : SizeStands limits i source s := hok
      rw [← ho.heads] at hfound
      have hsmall : object ≤ limits.maxBytes := hstands hfound object hobject
      rw [hs]
      have hplaced : Small limits start (s.place target (some object)) := by
        apply h.place
        intro size hsize
        cases hsize
        exact .inl hsmall
      apply hplaced.tookCopy i hfinal
      intro size hsize
      have hsame : object = size := by simpa [Depot.place] using hsize
      rw [← hsame]
      exact hsmall
  | delete i key hs =>
      rw [hs]
      exact (h.place key none nofun).of_same rfl rfl rfl
  | put i key object o ho hissues _ hs =>
      -- an upload goes below the pending prefix, where no image has its object
      obtain ⟨rest, size, -, rfl⟩ := hissues
      rw [hs]
      apply h.place
      intro size _
      right
      intro j hj
      obtain ⟨rest', hrest'⟩ := h.final j _ hj
      exact pending_ne_final rest rest' hrest'

/-! ## Runs -/

variable {c c' : Config ι Exc StorageCommand (StorageState ι) Unit}

variable (limits calls) in
/-- Where what the registrations have found still stands when they use it, no spot gets more images
than it may have, and the objects of the images registered in the run are small. -/
theorem limits_hold (cfg : Settings) (hunused : Unused c.state)
    (hc : ∀ i, c.thread i = (calls i).program cfg limits)
    (hrun : Run (depot (ChecksStand limits calls)) c c') :
    (∀ u, (activeImages u c.state.world.db).length ≤ limits.maxCountPerSpot →
      (activeImages u c'.state.world.db).length ≤ limits.maxCountPerSpot) ∧
    ∀ a ∈ c'.state.world.db.images.rows, (∀ b ∈ c.state.world.db.images.rows, b.uid ≠ a.uid) →
      ∀ size ∈ c'.state.objects a.s3Key, size ≤ limits.maxBytes := by
  have hpool : AllAware (depotLogic (limitTerms limits calls)) (fun i => (calls i).Ends) c :=
    allAware_calls hunused hc
  constructor
  · intro u hu
    exact hpool.induct (fun s s' => count_step u) hrun hu
  · have hstart : Small limits c.state.world.db c.state := by
      constructor
      · intro j key hkey
        rw [hunused.copied j] at hkey
        cases hkey
      · intro j key hkey
        rw [hunused.copied j] at hkey
        cases hkey
      · intro a ha
        exact .inl ⟨a, ha, rfl⟩
    have hsmall : Small limits c.state.world.db c'.state :=
      hpool.induct (fun s s' hstep h => h.step hstep) hrun hstart
    intro a ha hnew
    rcases hsmall.rows a ha with ⟨b, hb, huid⟩ | ⟨j, hj⟩
    · exact absurd huid (hnew b hb)
    · exact hsmall.size j _ hj

end

/-! ## What others do between the check and its use -/

/-- A registration of the upload, and a client that puts another object in its place. -/
def replacedUpload : Fin 2 → Call
  | 0 => .register (registration "i")
  | 1 => .put ("camp/" ++ uploadName) 2

def anotherName : String := "vutsrqponmlkjihgfedcba.jpg"

/-- Registrations of two uploads. -/
def twoUploads : Fin 2 → Call
  | 0 => .register (registration "i")
  | 1 => .register
    { registration "j" with payload := { s3Key := pendingPrefix ++ "camp/" ++ anotherName } }

/-- One image a spot, of one byte. -/
def oneByte : ImageLimits := ⟨1, 1⟩

/-- A pool of two calls, with both uploads in their pending places. -/
def uploadPool (calls : Fin 2 → Call) :
    Config (Fin 2) Exc StorageCommand (StorageState (Fin 2)) Unit where
  state :=
    { world := World.fresh oneSpot
      objects := fun key => if key = pendingPrefix ++ "camp/" ++ uploadName then some 1
        else if key = pendingPrefix ++ "camp/" ++ anotherName then some 1 else none }
  thread i := (calls i).program Sample.settings oneByte

theorem unused_uploadPool (calls : Fin 2 → Call) : Unused (uploadPool calls).state :=
  ⟨idle_fresh oneSpot, fun _ => rfl, fun _ => rfl, fun _ => rfl⟩

/-- A registration by itself has its image, and the other is refused. -/
theorem limits_hold_in_turn :
    ∃ c', Run (depot (ChecksStand oneByte twoUploads)) (uploadPool twoUploads) c' ∧
      c'.state.world.db.images.rows.length = 1 ∧ (c'.thread 1).outcome.isSome ∧
      (activeImages "camp" c'.state.world.db).length ≤ 1 := by
  have hfollow : (follow (fun i => execAdmitted (ChecksStand oneByte twoUploads) i)
      (List.replicate wholeRegistration 0 ++ List.replicate 5 1) (uploadPool twoUploads)).any
      (fun c => decide (c.state.world.db.images.rows.length = 1) && (c.thread 1).outcome.isSome) =
      true := by
    decide +kernel
  obtain ⟨c', hrun, hc'⟩ := exists_run_of_follow _ hfollow
  simp only [Bool.and_eq_true, decide_eq_true_eq] at hc'
  have hadmitted : Run (depot (ChecksStand oneByte twoUploads)) (uploadPool twoUploads) c' :=
    Run.of_admitted hrun
  refine ⟨c', hadmitted, hc'.1, hc'.2, ?_⟩
  exact (limits_hold oneByte twoUploads Sample.settings (unused_uploadPool twoUploads)
    (fun _ => rfl) hadmitted).1 "camp" (Nat.zero_le 1)

/-- Two registrations that have both counted both add an image; and a client replaces an object
after its size was asked for. -/
theorem limits_overrun :
    (¬∀ (calls : Fin 2 → Call) (limits : ImageLimits) (cfg : Settings)
      (c c' : Config (Fin 2) Exc StorageCommand (StorageState (Fin 2)) Unit) (u : String),
      Unused c.state → (∀ i, c.thread i = (calls i).program cfg limits) →
      Run (depot fun _ _ _ _ => True) c c' →
      (activeImages u c.state.world.db).length ≤ limits.maxCountPerSpot →
      (activeImages u c'.state.world.db).length ≤ limits.maxCountPerSpot) ∧
    ¬∀ (calls : Fin 2 → Call) (limits : ImageLimits) (cfg : Settings)
      (c c' : Config (Fin 2) Exc StorageCommand (StorageState (Fin 2)) Unit), Unused c.state →
      (∀ i, c.thread i = (calls i).program cfg limits) → c.state.world.db.images.rows = [] →
      Run (depot fun _ _ _ _ => True) c c' →
      ∀ a ∈ c'.state.world.db.images.rows, ∀ size ∈ c'.state.objects a.s3Key,
        size ≤ limits.maxBytes := by
  constructor
  · intro h
    have hfollow : (follow (fun i => execDepot i)
        (List.replicate upToCopy 0 ++ List.replicate upToCopy 1 ++ [0, 0, 1, 1])
        (uploadPool twoUploads)).any
        (fun c => decide (1 < (activeImages "camp" c.state.world.db).length)) = true := by
      decide +kernel
    obtain ⟨c', hrun, hmore⟩ := exists_run_of_follow _ hfollow
    have hle := h twoUploads oneByte Sample.settings (uploadPool twoUploads) c' "camp"
      (unused_uploadPool twoUploads) (fun _ => rfl) (Run.of_depot hrun) (Nat.zero_le 1)
    exact absurd hle (Nat.not_le.2 (of_decide_eq_true hmore))
  · intro h
    have hfollow : (follow (fun i => execDepot i)
        (List.replicate 5 0 ++ [1] ++ List.replicate 8 0) (uploadPool replacedUpload)).any
        (fun c => decide (∃ a ∈ c.state.world.db.images.rows, ∃ size ∈ c.state.objects a.s3Key,
          1 < size)) = true := by
      decide +kernel
    obtain ⟨c', hrun, hlarge⟩ := exists_run_of_follow _ hfollow
    obtain ⟨a, ha, size, hsize, hlarge⟩ := of_decide_eq_true hlarge
    have hle := h replacedUpload oneByte Sample.settings (uploadPool replacedUpload) c'
      (unused_uploadPool replacedUpload) (fun _ => rfl) rfl (Run.of_depot hrun) a ha size hsize
    exact absurd hle (Nat.not_le.2 hlarge)

end Vivac.Images
