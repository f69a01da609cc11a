import Vivac.Core.SampleBackend
import Vivac.Images.Registrations
import Mathlib.Data.Fintype.Basic

/-!
# One image a pending object

A pending key is good for one registration because the object under it is deleted at the end. That
deletion comes after the commit: two registrations that have both found the object both commit
(`registered_twice`), and so does a repetition after the deletion, or the refresh before it, has
failed.

When a registration finds the object only after the others that have found it are done with it
(`InTurn`), and no client puts an object there again under an active image (`NoReupload`), the
deletion is enough: no two active images have one key (`registered_once`).
-/

set_option autoImplicit false

namespace Vivac.Images

open Lib App Storage ImageRegistration

/-- No two active images have one key. -/
def NoTwins (d : Db) : Prop :=
  ∀ a ∈ d.images.rows, ∀ b ∈ d.images.rows, a.deletedAt = none → b.deletedAt = none →
    a.s3Key = b.s3Key → a.uid = b.uid

instance decidableNoTwins (d : Db) : Decidable (NoTwins d) :=
  inferInstanceAs (Decidable (∀ a ∈ d.images.rows, ∀ b ∈ d.images.rows, a.deletedAt = none →
    b.deletedAt = none → a.s3Key = b.s3Key → a.uid = b.uid))

/-- The active images under a key. -/
def activeUnder (key : String) (d : Db) : List String :=
  (d.images.select fun i => i.s3Key == key && i.deletedAt.isNone).map SpotImage.uid

theorem mem_activeUnder {key uid : String} {d : Db} :
    uid ∈ activeUnder key d ↔
      ∃ a ∈ d.images.rows, a.s3Key = key ∧ a.deletedAt = none ∧ a.uid = uid := by
  simp only [activeUnder, List.mem_map, Table.mem_select, Bool.and_eq_true, beq_iff_eq,
    Option.isNone_iff_eq_none]
  constructor
  · rintro ⟨a, ⟨ha, hkey, hactive⟩, huid⟩
    exact ⟨a, ha, hkey, hactive, huid⟩
  · rintro ⟨a, ha, hkey, hactive, huid⟩
    exact ⟨a, ⟨ha, hkey, hactive⟩, huid⟩

section Rows

variable {d : Db} {key : String}

theorem activeUnder_insert {image : SpotImage} (hkey : image.s3Key ≠ key)
    (h : activeUnder key d = []) :
    activeUnder key { d with images := d.images.insert image } = [] := by
  rw [List.eq_nil_iff_forall_not_mem] at h ⊢
  intro uid huid
  obtain ⟨a, ha, hsame, hactive, hname⟩ := mem_activeUnder.1 huid
  rcases Table.mem_insert ha with ha | rfl
  · exact h uid (mem_activeUnder.2 ⟨a, ha, hsame, hactive, hname⟩)
  · exact hkey hsame

theorem activeUnder_softDeleted {uid : String} {now : Timestamp} (h : activeUnder key d = []) :
    activeUnder key (rewriteImage uid (softDeleted now) d) = [] := by
  rw [List.eq_nil_iff_forall_not_mem] at h ⊢
  intro name hname
  obtain ⟨a, ha, hsame, hactive, huid⟩ := mem_activeUnder.1 hname
  exact h name (mem_activeUnder.2 ⟨a, mem_softDeleted ha hactive, hsame, hactive, huid⟩)

theorem NoTwins.insert (h : NoTwins d) {image : SpotImage}
    (hnone : activeUnder image.s3Key d = []) :
    NoTwins { d with images := d.images.insert image } := by
  have hnew : ∀ a ∈ d.images.rows, a.deletedAt = none → a.s3Key ≠ image.s3Key := by
    intro a ha hactive hkey
    have hmem : a.uid ∈ activeUnder image.s3Key d := mem_activeUnder.2 ⟨a, ha, hkey, hactive, rfl⟩
    rw [hnone] at hmem
    cases hmem
  intro a ha b hb hda hdb hkey
  rcases Table.mem_insert ha with ha | rfl
  · rcases Table.mem_insert hb with hb | hb
    · exact h a ha b hb hda hdb hkey
    · exact absurd (hkey.trans (congrArg SpotImage.s3Key hb)) (hnew a ha hda)
  · rcases Table.mem_insert hb with hb | hb
    · exact absurd hkey.symm (hnew b hb hdb)
    · rw [hb]

theorem NoTwins.softDeleted (h : NoTwins d) (uid : String) (now : Timestamp) :
    NoTwins (rewriteImage uid (softDeleted now) d) := by
  intro a ha b hb hda hdb hkey
  exact h a (mem_softDeleted ha hda) b (mem_softDeleted hb hdb) hda hdb hkey

end Rows

/-! ## Taking turns -/

/-- The pending key of a registration whose key is one of its spot. -/
def Call.upload? : Call → Option String
  | .register r => r.finalKey?.map fun _ => r.payload.s3Key
  | .delete _ => none
  | .put _ _ => none

/-- Where a client puts its object, below the pending prefix. -/
def Call.puts? : Call → Option String
  | .put rest _ => some rest
  | .register _ => none
  | .delete _ => none

/-- The upload of a registration, and the key it may get. -/
theorem mem_upload? {call : Call} {rest : String} :
    pendingPrefix ++ rest ∈ call.upload? ↔
      ∃ r, call = .register r ∧ r.payload.s3Key = pendingPrefix ++ rest ∧
        r.finalKey? = some (finalPrefix ++ rest) := by
  constructor
  · intro h
    cases call with
    | register r =>
        obtain ⟨key, hkey, hpending⟩ := Option.map_eq_some_iff.1 h
        obtain ⟨rest', hrest', rfl⟩ := finalKey?_eq hkey
        obtain rfl : rest' = rest :=
          SpotImages.eq_of_append_left (hrest'.symm.trans hpending)
        exact ⟨r, rfl, hpending, hkey⟩
    | delete r => cases h
    | put rest' size => cases h
  · rintro ⟨r, rfl, hpending, hkey⟩
    exact Option.map_eq_some_iff.2 ⟨_, hkey, hpending⟩

section

variable {ι : Type} [DecidableEq ι]

/-- A HEAD of the session has found an object. -/
def Found (s : StorageState ι) (i : ι) : Prop := ∃ told ∈ s.heads i, told.isSome = true

instance decidableFound (s : StorageState ι) (i : ι) : Decidable (Found s i) :=
  inferInstanceAs (Decidable (∃ told ∈ s.heads i, told.isSome = true))

/-- A registration is done with its pending object: it has ended, and it has answered, has
committed nothing, or has deleted the object. -/
def Done (key : String) (i : ι) (c : Config ι Exc StorageCommand (StorageState ι) Unit) : Prop :=
  ∃ out ∈ (c.thread i).outcome,
    out.isOk = true ∨ c.state.world.commits i = [] ∨ key ∈ c.state.dropped i

instance decidableDone (key : String) (i : ι)
    (c : Config ι Exc StorageCommand (StorageState ι) Unit) : Decidable (Done key i c) :=
  inferInstanceAs (Decidable (∃ out ∈ (c.thread i).outcome,
    out.isOk = true ∨ c.state.world.commits i = [] ∨ key ∈ c.state.dropped i))

variable (calls : ι → Call)

/-- A registration of the upload has committed, and has not deleted the pending object. -/
def Undropped (key : String) (s : StorageState ι) (i : ι) : Prop :=
  key ∈ (calls i).upload? ∧ Found s i ∧ s.world.commits i ≠ [] ∧ key ∉ s.dropped i

instance decidableUndropped (key : String) (s : StorageState ι) (i : ι) :
    Decidable (Undropped calls key s i) :=
  inferInstanceAs (Decidable (key ∈ (calls i).upload? ∧ Found s i ∧
    s.world.commits i ≠ [] ∧ key ∉ s.dropped i))

/-- A client puts an object in its pending place only while no active image has been made of it, or
the registration that has made one has yet to delete the object. -/
def NoReupload : CommandGuard ι Db RowKey Change Body Exc ℕ := fun i _ _ s =>
  ∀ rest ∈ (calls i).puts?, activeUnder (finalPrefix ++ rest) s.world.db = [] ∨
    ∃ j, Undropped calls (pendingPrefix ++ rest) s j

/-- A registration that finds its object finds the others that have found it done with it. -/
def InTurn (c c' : Config ι Exc StorageCommand (StorageState ι) Unit) : Prop :=
  ∀ i j, i ≠ j → ∀ key ∈ (calls i).upload?, key ∈ (calls j).upload? →
    ¬Found c.state i → Found c'.state i → Found c'.state j → Done key j c

instance decidableNoReupload [Fintype ι] (i : ι) (β : Type) (cmd : StorageCommand β)
    (s : StorageState ι) : Decidable (NoReupload calls i cmd s) :=
  inferInstanceAs (Decidable (∀ rest ∈ (calls i).puts?,
    activeUnder (finalPrefix ++ rest) s.world.db = [] ∨
      ∃ j, Undropped calls (pendingPrefix ++ rest) s j))

instance decidableInTurn [Fintype ι] : DecidableRel (InTurn calls) := fun c c' =>
  inferInstanceAs (Decidable (∀ i j, i ≠ j → ∀ key ∈ (calls i).upload?, key ∈ (calls j).upload? →
    ¬Found c.state i → Found c'.state i → Found c'.state j → Done key j c))

/-! ## What turns keep -/

/-- While registrations take turns, of two that have found one object one is done; one that has
found its object and has not committed meets no image of it; and the object of an active image is
gone, or will be. -/
structure SingleUse (c : Config ι Exc StorageCommand (StorageState ι) Unit) : Prop where
  exclusive : ∀ i j, i ≠ j → ∀ key ∈ (calls i).upload?, key ∈ (calls j).upload? →
    Found c.state i → Found c.state j → Done key i c ∨ Done key j c
  free : ∀ i rest, pendingPrefix ++ rest ∈ (calls i).upload? → Found c.state i →
    c.state.world.commits i = [] → Done (pendingPrefix ++ rest) i c ∨
      activeUnder (finalPrefix ++ rest) c.state.world.db = []
  dropped : ∀ rest, activeUnder (finalPrefix ++ rest) c.state.world.db = [] ∨
    c.state.objects (pendingPrefix ++ rest) = none ∨
      ∃ j, Undropped calls (pendingPrefix ++ rest) c.state j
  once : NoTwins c.state.world.db

variable {calls} {limits : ImageLimits} {i j : ι} {key : String} {s s' : StorageState ι}
  {c c' : Config ι Exc StorageCommand (StorageState ι) Unit}

/-- Who is done stays done. -/
theorem Done.step {ok : CommandGuard ι Db RowKey Change Body Exc ℕ} (h : Done key i c)
    (hstep : Step (depot ok) c c') : Done key i c' := by
  obtain ⟨out, hout, hdone⟩ := h
  obtain ⟨hthread, huntouched⟩ := hstep.untouched_of_ended hout
  refine ⟨out, ?_, ?_⟩
  · rw [hthread]
    exact hout
  · rw [huntouched.world.commits, huntouched.dropped]
    exact hdone

/-- Who is done commits nothing more. -/
theorem Done.commits_eq {ok : CommandGuard ι Db RowKey Change Body Exc ℕ} (h : Done key i c)
    (hstep : Step (depot ok) c c') : c'.state.world.commits i = c.state.world.commits i := by
  obtain ⟨out, hout, -⟩ := h
  exact (hstep.untouched_of_ended hout).2.world.commits

/-- A registration that is done has not left the pending object of its image there. -/
theorem Undropped.not_done {ok : CommandGuard ι Db RowKey Change Body Exc ℕ}
    (hpool : AllAware (imageLogic limits calls ok) (fun i => (calls i).Ends) c) {rest : String}
    (h : Undropped calls (pendingPrefix ++ rest) c.state i) :
    ¬Done (pendingPrefix ++ rest) i c := by
  obtain ⟨hupload, -, hcommits, hdropped⟩ := h
  obtain ⟨r, hr, hpending, -⟩ := mem_upload?.1 hupload
  rintro ⟨out, hout, hanswered | hnothing | hgone⟩
  · -- the answer comes after the deletion
    obtain ⟨o, ho, hends⟩ := hpool.ended hout
    have hin := hends r hr hanswered
    rw [hpending, ← ho.dropped] at hin
    exact hdropped hin
  · exact hcommits hnothing
  · exact hdropped hgone

/-- Where nothing is committed and nothing found, it is left to see to the pending objects. -/
theorem SingleUse.carry (h : SingleUse calls c)
    (hexclusive : ∀ i j, i ≠ j → ∀ key ∈ (calls i).upload?, key ∈ (calls j).upload? →
      Found c'.state i → Found c'.state j → Done key i c' ∨ Done key j c')
    (hdone : ∀ key i, Done key i c → Done key i c')
    (hfound : ∀ i, Found c'.state i → Found c.state i)
    (hcommits : ∀ i, c'.state.world.commits i = [] → c.state.world.commits i = [])
    (hactive : ∀ key, activeUnder key c.state.world.db = [] →
      activeUnder key c'.state.world.db = [])
    (hdropped : ∀ rest, c.state.objects (pendingPrefix ++ rest) = none ∨
      (∃ j, Undropped calls (pendingPrefix ++ rest) c.state j) →
      c'.state.objects (pendingPrefix ++ rest) = none ∨
      ∃ j, Undropped calls (pendingPrefix ++ rest) c'.state j)
    (honce : NoTwins c'.state.world.db) : SingleUse calls c' where
  exclusive := hexclusive
  free i rest hupload hi hnone := by
    rcases h.free i rest hupload (hfound i hi) (hcommits i hnone) with hd | hd
    · exact .inl (hdone _ i hd)
    · exact .inr (hactive _ hd)
  dropped rest := by
    rcases h.dropped rest with hnone | hd
    · exact .inl (hactive _ hnone)
    · exact .inr (hdropped rest hd)
  once := honce

/-- Turns keep the registrations of one upload apart. -/
theorem SingleUse.exclusive_step (h : SingleUse calls c) (hturn : InTurn calls c c')
    (hdone : ∀ key i, Done key i c → Done key i c') (i j : ι) (hij : i ≠ j)
    (key : String) (hi : key ∈ (calls i).upload?) (hj : key ∈ (calls j).upload?)
    (hfi : Found c'.state i) (hfj : Found c'.state j) : Done key i c' ∨ Done key j c' := by
  by_cases hbi : Found c.state i
  · by_cases hbj : Found c.state j
    · exact (h.exclusive i j hij key hi hj hbi hbj).imp (hdone key i) (hdone key j)
    · exact .inl (hdone key i (hturn j i hij.symm key hj hi hbj hfj hfi))
  · exact .inr (hdone key j (hturn i j hij key hi hj hbi hfi hfj))

/-- What a session has committed, it has committed. -/
theorem commits_of_step {ok : CommandGuard ι Db RowKey Change Body Exc ℕ}
    (hstep : DepotStep (imageTerms limits calls ok) s s') (i : ι)
    (h : s'.world.commits i = []) : s.world.commits i = [] := by
  cases hstep with
  | quiet w hs hdb hcommits =>
      rw [hs, Depot.inWorld, hcommits] at h
      exact h
  | commit j w hs hok hfact hdb hcommits =>
      rw [hs, Depot.inWorld, hcommits] at h
      by_cases hij : i = j
      · subst hij
        rw [Function.update_self] at h
        exact absurd h (List.append_ne_nil_of_right_ne_nil _ (List.cons_ne_nil _ _))
      · rwa [Function.update_of_ne hij] at h
  | head j key o ho hissues hok hs =>
      rw [hs] at h
      exact h
  | copy j source target object o ho hissues hok hobject hs =>
      rw [hs] at h
      exact h
  | delete j key hs =>
      rw [hs] at h
      exact h
  | put j key object o ho hissues hok hs =>
      rw [hs] at h
      exact h

theorem found_told {answer : Option ℕ} (h : Found (s.told i answer) j) :
    Found s j ∨ j = i ∧ answer.isSome = true := by
  obtain ⟨told, htold, hsome⟩ := h
  by_cases hj : j = i
  · subst hj
    simp only [Depot.told, Function.update_self, List.mem_cons] at htold
    rcases htold with rfl | htold
    · exact .inr ⟨rfl, hsome⟩
    · exact .inl ⟨told, htold, hsome⟩
  · simp only [Depot.told, Function.update_of_ne hj] at htold
    exact .inl ⟨told, htold, hsome⟩

theorem Found.told (h : Found s j) (answer : Option ℕ) : Found (s.told i answer) j := by
  obtain ⟨t, ht, hsome⟩ := h
  refine ⟨t, ?_, hsome⟩
  by_cases hj : j = i
  · subst hj
    simp only [Depot.told, Function.update_self]
    exact List.mem_cons_of_mem _ ht
  · simp only [Depot.told, Function.update_of_ne hj]
    exact ht

/-- The HEAD of a registration that finds its object, in turn. -/
theorem SingleUse.head (h : SingleUse calls c) {ok : CommandGuard ι Db RowKey Change Body Exc ℕ}
    (hpool : AllAware (imageLogic limits calls ok) (fun i => (calls i).Ends) c)
    (hturn : InTurn calls c c') (hdone : ∀ key i, Done key i c → Done key i c')
    {r : RegisterCall} (hc : calls i = .register r) (hheads : c.state.heads i = [])
    (hs : c'.state = c.state.told i (c.state.objects r.payload.s3Key)) : SingleUse calls c' where
  exclusive := h.exclusive_step hturn hdone
  free j rest hupload hj hnone := by
    rw [hs] at hj hnone ⊢
    rcases found_told hj with hbefore | ⟨rfl, hsome⟩
    · exact (h.free j rest hupload hbefore hnone).imp (hdone _ j) id
    right
    have hnotyet : ¬Found c.state j := by
      rintro ⟨told, htold, -⟩
      rw [hheads] at htold
      cases htold
    obtain ⟨r', hr', hpending, -⟩ := mem_upload?.1 hupload
    obtain rfl : r = r' := Call.register.inj (hc.symm.trans hr')
    rcases h.dropped rest with hactive | hgone | ⟨k, hk⟩
    · exact hactive
    · rw [hpending, hgone] at hsome
      cases hsome
    · -- the registration that left the object there would be done with it
      have hne : j ≠ k := by
        rintro rfl
        exact hnotyet hk.2.1
      have hfoundk : Found c'.state k := by
        rw [hs]
        exact hk.2.1.told _
      have hfoundj : Found c'.state j := by
        rw [hs]
        exact hj
      exact absurd (hturn j k hne _ hupload hk.1 hnotyet hfoundj hfoundk) (hk.not_done hpool)
  dropped rest := by
    rw [hs]
    rcases h.dropped rest with hactive | hgone | ⟨k, hupload, hfound, hk⟩
    · exact .inl hactive
    · exact .inr (.inl hgone)
    · exact .inr (.inr ⟨k, hupload, hfound.told _, hk⟩)
  once := by
    rw [hs]
    exact h.once

/-- The commit of a registration, in turn. -/
theorem SingleUse.commit (h : SingleUse calls c)
    {ok : CommandGuard ι Db RowKey Change Body Exc ℕ} (hstep : Step (depot ok) c c')
    (hturn : InTurn calls c c') {r : RegisterCall} (hc : calls i = .register r)
    {work : Work Db RowKey Change} (hfact : r.Commits limits work (c.state.stock i))
    {w : World ι Db RowKey Change Body} (hs : c'.state = c.state.inWorld w)
    (hdb : w.db = work.write c.state.world.db)
    (hcommits : w.commits = Function.update c.state.world.commits i
      (c.state.world.commits i ++ [work.changes])) : SingleUse calls c' := by
  have hdone : ∀ key i, Done key i c → Done key i c' := fun key i hd => hd.step hstep
  obtain ⟨final, hfinal, -, hwrite⟩ := hfact.row
  obtain ⟨rest, hpending, rfl⟩ := finalKey?_eq hfinal
  have hupload : pendingPrefix ++ rest ∈ (calls i).upload? :=
    mem_upload?.2 ⟨r, hc, hpending, hfinal⟩
  have hgrown : w.commits i ≠ [] := by
    rw [hcommits, Function.update_self]
    exact List.append_ne_nil_of_right_ne_nil _ (List.cons_ne_nil _ _)
  have hfound : Found c.state i := by
    obtain ⟨size, hheads, -⟩ := hfact.found
    refine ⟨some size, ?_, rfl⟩
    rw [show c.state.heads i = [some size] from hheads]
    exact List.mem_singleton_self _
  have hnotdone : ¬Done (pendingPrefix ++ rest) i c := by
    intro hd
    have hsame := hd.commits_eq hstep
    rw [hs, Depot.inWorld, hcommits, Function.update_self] at hsame
    simp at hsame
  have hfree : activeUnder (finalPrefix ++ rest) c.state.world.db = [] :=
    (h.free i rest hupload hfound hfact.first).resolve_left hnotdone
  have hdb' : c'.state.world.db = { c.state.world.db with
      images := c.state.world.db.images.insert (r.image (finalPrefix ++ rest)) } := by
    rw [hs, Depot.inWorld, hdb, hwrite]
  have hother : ∀ rest', rest ≠ rest' → activeUnder (finalPrefix ++ rest') c.state.world.db = [] →
      activeUnder (finalPrefix ++ rest') c'.state.world.db = [] := by
    intro rest' hne hnone
    rw [hdb']
    apply activeUnder_insert _ hnone
    intro hsame
    exact hne (SpotImages.eq_of_append_left hsame)
  have hstays : ∀ k, c.state.world.commits k ≠ [] → c'.state.world.commits k ≠ [] := by
    intro k hk
    rw [hs, Depot.inWorld, hcommits]
    by_cases hki : k = i
    · rw [hki, ← hcommits]
      exact hgrown
    · rwa [Function.update_of_ne hki]
  refine ⟨h.exclusive_step hturn hdone, fun j rest' hj hfj hnone => ?_, fun rest' => ?_, ?_⟩
  · have hfoundj : Found c.state j := by
      rw [hs] at hfj
      exact hfj
    have hne : j ≠ i := by
      rintro rfl
      rw [hs] at hnone
      exact hgrown hnone
    rcases h.free j rest' hj hfoundj (by_contra fun hk => hstays j hk hnone) with hd | hd
    · exact .inl (hdone _ j hd)
    · by_cases hrest : rest = rest'
      · -- of the two that have found the object, the one that commits is not done
        subst hrest
        left
        exact hdone _ j ((h.exclusive j i hne _ hj hupload hfoundj hfound).resolve_right hnotdone)
      · exact .inr (hother rest' hrest hd)
  · by_cases hrest : rest = rest'
    · subst hrest
      refine .inr (.inr ⟨i, hupload, ?_, ?_, ?_⟩)
      · rw [hs]
        exact hfound
      · rw [hs]
        exact hgrown
      · rw [hs, show (c.state.inWorld w).dropped i = [] from hfact.undropped]
        exact List.not_mem_nil
    · rcases h.dropped rest' with hnone | hgone | ⟨k, hk, hfk, hck, hdk⟩
      · exact .inl (hother rest' hrest hnone)
      · refine .inr (.inl ?_)
        rw [hs]
        exact hgone
      · refine .inr (.inr ⟨k, hk, ?_, hstays k hck, ?_⟩)
        · rw [hs]
          exact hfk
        · rw [hs]
          exact hdk
  · rw [hdb']
    exact h.once.insert hfree

/-- A step in turn, after which no client has put its object there again. -/
theorem SingleUse.step (h : SingleUse calls c)
    (hpool : AllAware (imageLogic limits calls (NoReupload calls)) (fun i => (calls i).Ends) c)
    (hstep : Step (depot (NoReupload calls)) c c') (hturn : InTurn calls c c') :
    SingleUse calls c' := by
  have hdone : ∀ key i, Done key i c → Done key i c' := fun key i hd => hd.step hstep
  have hexclusive := h.exclusive_step hturn hdone
  have hdepot := hpool.depotStep hstep
  have hcommits := commits_of_step hdepot
  cases hdepot with
  | quiet w hs hdb hsame =>
      refine h.carry hexclusive hdone (fun j hj => ?_) hcommits (fun key hkey => ?_)
        (fun rest hrest => ?_) ?_
      · rw [hs] at hj
        exact hj
      · rw [hs, Depot.inWorld, hdb]
        exact hkey
      · rw [hs]
        simp only [Undropped, Found, Depot.inWorld, hsame]
        exact hrest
      · rw [hs, Depot.inWorld, hdb]
        exact h.once
  | commit i w hs hok hfact hdb hsame =>
      have hcommit : (calls i).Commits limits (c.state.world.tx i).work (c.state.stock i) := hfact
      cases hc : calls i with
      | register r =>
          rw [hc] at hcommit
          exact h.commit hstep hturn hc hcommit hs hdb hsame
      | delete r =>
          rw [hc] at hcommit
          -- a deletion only takes active rows away, so no key comes to be used twice
          obtain ⟨uid, hwrite⟩ := hcommit
          refine h.carry hexclusive hdone (fun j hj => ?_) hcommits (fun key hkey => ?_)
            (fun rest hrest => ?_) ?_
          · rw [hs] at hj
            exact hj
          · rw [hs, Depot.inWorld, hdb, hwrite]
            exact activeUnder_softDeleted hkey
          · rcases hrest with hgone | ⟨k, hk, hfk, hck, hdk⟩
            · rw [hs]
              exact .inl hgone
            · rw [hs]
              refine .inr ⟨k, hk, hfk, ?_, hdk⟩
              rw [← hs]
              exact fun hnone => hck (hcommits k hnone)
          · rw [hs, Depot.inWorld, hdb, hwrite]
            exact h.once.softDeleted uid r.now
      | put rest size =>
          rw [hc] at hcommit
          exact hcommit.elim
  | head i key o ho hissues hok hs =>
      obtain ⟨r, hc, rfl, -, hheads⟩ := hissues
      exact h.head hpool hturn hdone hc (ho.heads.trans hheads) hs
  | copy i source target object o ho hissues hok hobject hs =>
      -- what is copied goes to a final key: nothing changes below the pending prefix
      obtain ⟨-, ⟨below, htarget⟩, -⟩ := hissues
      refine h.carry hexclusive hdone (fun j hj => ?_) hcommits (fun key hkey => ?_)
        (fun rest hrest => ?_) ?_
      · rw [hs] at hj
        exact hj
      · rw [hs]
        exact hkey
      · rw [hs]
        refine hrest.imp (fun hgone => ?_) id
        show Function.update c.state.objects target (some object) (pendingPrefix ++ rest) = none
        rw [Function.update_of_ne (htarget ▸ pending_ne_final rest below)]
        exact hgone
      · rw [hs]
        exact h.once
  | delete i key hs =>
      refine h.carry hexclusive hdone (fun j hj => ?_) hcommits (fun key hkey => ?_)
        (fun rest hrest => ?_) ?_
      · rw [hs] at hj
        exact hj
      · rw [hs]
        exact hkey
      · rw [hs]
        show Function.update c.state.objects key none (pendingPrefix ++ rest) = none ∨ _
        -- either this is the object that is deleted, or the deletion drops another key
        by_cases hkey : pendingPrefix ++ rest = key
        · left
          rw [hkey, Function.update_self]
        · rw [Function.update_of_ne hkey]
          refine hrest.imp id ?_
          rintro ⟨k, hk, hfk, hck, hdk⟩
          refine ⟨k, hk, hfk, hck, ?_⟩
          show pendingPrefix ++ rest ∉ Function.update c.state.dropped i (key :: _) k
          by_cases hki : k = i
          · subst hki
            rw [Function.update_self, List.mem_cons, not_or]
            exact ⟨hkey, hdk⟩
          · rw [Function.update_of_ne hki]
            exact hdk
      · rw [hs]
        exact h.once
  | put i key object o ho hissues hok hs =>
      obtain ⟨below, size, hc, rfl⟩ := hissues
      -- an upload may come back only where no image is active, or where it will still be dropped
      have hguard : NoReupload calls i (.store (.put (pendingPrefix ++ below) object)) c.state :=
          hok
      have hplace := hguard below (by rw [hc]; rfl)
      have hsame : ∀ rest, below ≠ rest →
          c'.state.objects (pendingPrefix ++ rest) = c.state.objects (pendingPrefix ++ rest) := by
        intro rest hne
        rw [hs]
        apply Function.update_of_ne
        intro hkey
        exact hne (SpotImages.eq_of_append_left hkey).symm
      have hundropped : ∀ rest, (∃ k, Undropped calls (pendingPrefix ++ rest) c.state k) →
          ∃ k, Undropped calls (pendingPrefix ++ rest) c'.state k := by
        intro rest hk
        rw [hs]
        exact hk
      refine ⟨hexclusive, fun j rest hj hfj hnone => ?_, fun rest => ?_, ?_⟩
      · rw [hs] at hfj hnone ⊢
        exact (h.free j rest hj hfj hnone).imp (hdone _ j) id
      · have hdb : c'.state.world = c.state.world := by rw [hs]; rfl
        rw [hdb]
        by_cases hrest : below = rest
        · subst hrest
          exact hplace.imp id fun hk => .inr (hundropped _ hk)
        · rw [hsame rest hrest]
          exact (h.dropped rest).imp id fun hd => hd.imp id (hundropped rest)
      · rw [hs]
        exact h.once

variable (calls) in
/-- Where registrations of one upload take turns, and no object is put under an active image, no
two active images ever have one key. -/
theorem registered_once (cfg : Settings) (limits : ImageLimits) (hunused : Unused c.state)
    (hc : ∀ i, c.thread i = (calls i).program cfg limits) (hnone : NoTwins c.state.world.db)
    (hgone : ∀ rest, activeUnder (finalPrefix ++ rest) c.state.world.db ≠ [] →
      c.state.objects (pendingPrefix ++ rest) = none)
    (hrun : RunWhere (depot (NoReupload calls)) (InTurn calls) c c') :
    NoTwins c'.state.world.db := by
  have hpool : AllAware (imageLogic limits calls (NoReupload calls)) (fun i => (calls i).Ends) c :=
    allAware_calls hunused hc
  have hnotfound : ∀ i, ¬Found c.state i := by
    rintro i ⟨told, htold, -⟩
    rw [hunused.heads i] at htold
    cases htold
  have hstart : SingleUse calls c := by
    refine ⟨fun i j _ key _ _ hi => absurd hi (hnotfound i), fun i rest _ hi =>
      absurd hi (hnotfound i), fun rest => ?_, hnone⟩
    by_cases hactive : activeUnder (finalPrefix ++ rest) c.state.world.db = []
    · exact .inl hactive
    · exact .inr (.inl (hgone rest hactive))
  have hend : AllAware (imageLogic limits calls (NoReupload calls)) (fun i => (calls i).Ends) c' ∧
      SingleUse calls c' := by
    induction hrun with
    | refl => exact ⟨hpool, hstart⟩
    | tail _ hstep ih => exact ⟨ih.1.step hstep.1, ih.2.step ih.1 hstep.1 hstep.2⟩
  exact hend.2.once

end

/-! ## Two registrations of one object -/

/-- A staff user, and a spot without images. -/
def oneSpot : Db where
  __ := Db.empty
  users := ⟨[{ Sample.user "warden" with isStaff := true }], by decide⟩
  spots := ⟨[Sample.spot "camp"], by decide⟩

/-- What follows the pending prefix of the upload, in its folder. -/
def uploadName : String := "abcdefghijklmnopqrstuv.jpg"

/-- A registration of the upload. -/
def registration (imageUid : String) : RegisterCall where
  now := 0
  imageUid := imageUid
  spotUid := "camp"
  credentials := .access "warden"
  payload := { s3Key := pendingPrefix ++ "camp/" ++ uploadName }

def twoRegistrations : Fin 2 → Call
  | 0 => .register (registration "i")
  | 1 => .register (registration "j")

/-- The pool of the two, with the object in its pending place. -/
def registrationPool : Config (Fin 2) Exc StorageCommand (StorageState (Fin 2)) Unit where
  state :=
    { world := World.fresh oneSpot
      objects := fun key => if key = pendingPrefix ++ "camp/" ++ uploadName then some 1 else none }
  thread i := (twoRegistrations i).program Sample.settings {}

/-- The commands that a registration issues up to its copy. -/
def upToCopy : ℕ := 6

/-- A whole registration. -/
def wholeRegistration : ℕ := 13

theorem unused_registrationPool : Unused registrationPool.state :=
  ⟨idle_fresh oneSpot, fun _ => rfl, fun _ => rfl, fun _ => rfl⟩

theorem noTwins_oneSpot : NoTwins oneSpot := by
  intro a ha
  cases ha

/-- A registration, and another of the same object after it: the second finds nothing. -/
theorem registered_once_twice :
    ∃ c', RunWhere (depot (NoReupload twoRegistrations)) (InTurn twoRegistrations)
        registrationPool c' ∧
      c'.state.world.db.images.rows.length = 1 ∧ (c'.thread 1).outcome.isSome ∧
      NoTwins c'.state.world.db := by
  have hfollow : (followWhere (fun i => execAdmitted (NoReupload twoRegistrations) i)
      (InTurn twoRegistrations) (List.replicate wholeRegistration 0 ++ List.replicate upToCopy 1)
      registrationPool).any (fun c =>
        decide (c.state.world.db.images.rows.length = 1) && (c.thread 1).outcome.isSome) =
          true := by
    decide +kernel
  obtain ⟨c', hcomputed, hc'⟩ := (Option.any_eq_true _ _).1 hfollow
  simp only [Bool.and_eq_true, decide_eq_true_eq] at hc'
  have hrun : RunWhere (depot (NoReupload twoRegistrations)) (InTurn twoRegistrations)
      registrationPool c' :=
    Relation.ReflTransGen.mono (fun _ _ hstep => ⟨Step.of_admitted hstep.1, hstep.2⟩) _ _
      (run_of_followWhere hcomputed)
  refine ⟨c', hrun, hc'.1, hc'.2, ?_⟩
  exact registered_once twoRegistrations Sample.settings {} unused_registrationPool
    (fun _ => rfl) noTwins_oneSpot (fun _ hactive => absurd rfl hactive) hrun

/-- Two registrations that have both found the object both add a row for it. -/
theorem registered_twice :
    ¬∀ (calls : Fin 2 → Call) (cfg : Settings) (limits : ImageLimits)
      (c c' : Config (Fin 2) Exc StorageCommand (StorageState (Fin 2)) Unit), Unused c.state →
      (∀ i, c.thread i = (calls i).program cfg limits) → NoTwins c.state.world.db →
      Run (depot fun _ _ _ _ => True) c c' → NoTwins c'.state.world.db := by
  intro h
  have hfollow : (follow (fun i => execDepot i)
      (List.replicate upToCopy 0 ++ List.replicate upToCopy 1 ++ [0, 0, 1, 1])
      registrationPool).any (fun c => decide (¬NoTwins c.state.world.db)) = true := by
    decide +kernel
  obtain ⟨c', hrun, htwins⟩ := exists_run_of_follow _ hfollow
  have hdepot : Run (depot fun _ _ _ _ => True) registrationPool c' := Run.of_depot hrun
  exact of_decide_eq_true htwins (h twoRegistrations Sample.settings {} registrationPool c'
    unused_registrationPool (fun _ => rfl) noTwins_oneSpot hdepot)

end Vivac.Images
