import Vivac.Access.HiddenExistence
import Vivac.Images.SingleUse

/-!
# Registrations that fail

A registration copies the object before it inserts the row, and deletes the copy again when
`create_image` raises. The `except` block cannot tell whether the row was committed: an exception
of the refresh, or of a commit that was carried out, deletes the object of a row that stays; one
of the deletion of the pending object is not caught, and leaves the row of a request that has
failed. And the copy may have gone over the object of an older image, which a failed insert then
takes away.

`registers_cleanly_iff` says exactly when a registration by itself ends as it should.
-/

set_option autoImplicit false

namespace Vivac.Images

open Lib App Storage ImageRegistration

/-! ## What a request should leave behind -/

/-- The active images of a key have their object. -/
def Backed (key : String) (d : Db) (objects : String → Option ℕ) : Prop :=
  activeUnder key d ≠ [] → (objects key).isSome

/-- A request that ends in an error has added no row, and no object under the final key; in every
case the active images of the final key have their object. -/
structure EndsCleanly (r : RegisterCall) (before : StorageState Unit)
    (result : Except Exc SpotImage) (after : StorageState Unit) : Prop where
  rows : ∀ e, result = .error e → ∀ a ∈ after.world.db.images.rows,
    ∃ b ∈ before.world.db.images.rows, b.uid = a.uid
  object : ∀ e, result = .error e → ∀ key ∈ r.finalKey?,
    before.objects key = none → after.objects key = none
  backed : ∀ key ∈ r.finalKey?, Backed key after.world.db after.objects

/-! ## When it does -/

variable (limits : ImageLimits) (r : RegisterCall) (d : Db) (objects : String → Option ℕ)

/-- The HEAD of the request finds an object that is small enough. -/
structure Finds : Prop where
  head : r.mishaps .head = none
  size : ∃ size, objects r.payload.s3Key = some size ∧ size ≤ limits.maxBytes

/-- The request gets as far as its copy. -/
structure Admitted : Prop where
  staff : ∃ user, Access.caller? d r.credentials = some user ∧ user.isStaff = true
  within : ∀ user, Access.caller? d r.credentials = some user →
    r.peer.exceeds SpotImages.uploadLimit (some user) = false
  spot : (d.spots.find? r.spotUid).isSome
  key : r.finalKey?.isSome
  room : (activeImages r.spotUid d).length < limits.maxCountPerSpot
  finds : Finds limits r objects

/-- The row of the request is committed. -/
structure Inserts : Prop where
  insert : r.mishaps .insert = none
  fresh : d.images.find? r.imageUid = none
  commit : ∀ m ∈ r.mishaps .commit, m.carriedOut = true

/-- A request that gets no further than its copy leaves the images as they were; one whose row
is not committed deletes its copy, which no older image may need; and one whose row is committed
must not fail any more. -/
def CleansUp : Prop :=
  ∀ key ∈ r.finalKey?,
    (¬Admitted limits r d objects → Backed key d objects) ∧
    (Admitted limits r d objects →
      (∀ m ∈ r.mishaps .copy, if m.carriedOut then (objects key).isSome else Backed key d objects) ∧
      (r.mishaps .copy = none → ¬Inserts r d → activeUnder key d = []) ∧
      (r.mishaps .copy = none → Inserts r d →
        r.mishaps .commit = none ∧ r.mishaps .refresh = none ∧ r.mishaps .dropPending = none))

/-! ## A request by itself -/

/-- The committed database, what the session sees, and the objects. -/
def Stands (db seen : Db) (objects : String → Option ℕ) (s : StorageState Unit) : Prop :=
  Sees () db [] seen s.world ∧ s.objects = objects

/-- The committed database and the objects, whatever has become of the transaction. -/
def Rests (db : Db) (objects : String → Option ℕ) (s : StorageState Unit) : Prop :=
  s.world.db = db ∧ s.objects = objects

/-- A part of a request, run by itself. -/
abbrev Part {α : Type} (P : StorageState Unit → Prop) (p : StorageApp α)
    (Q : Except Exc α → StorageState Unit → Prop) : Prop :=
  Alone (fun i => execDepot i) () P p Q

variable {limits r d objects} {db : Db} {α : Type}

theorem Stands.rests {seen : Db} {s : StorageState Unit} (h : Stands db seen objects s) :
    Rests db objects s := ⟨h.1.holds.db_eq, h.2⟩

/-- What a program of statements answers. -/
theorem part_answers {p : App α} {a : α} {d' : Db} (h : Evaluates p d (.ok (a, d'))) :
    Part (Stands db d objects) (inSession p) fun r s => r = .ok a ∧ Stands db d' objects s := by
  refine (Alone.base (Lone.of_evaluates h db []) objects).conseq (fun _ hs => hs) ?_
  rintro r s ⟨⟨hr, hsees⟩, hobjects⟩
  exact ⟨hr, hsees, hobjects⟩

theorem part_refuses {p : App α} {e : Exc} (h : Evaluates p d (.error e)) :
    Part (Stands db d objects) (inSession p) fun r s => r = .error e ∧ Rests db objects s := by
  refine (Alone.base (Lone.of_evaluates h db []) objects).conseq (fun _ hs => hs) ?_
  rintro r s ⟨⟨hr, hholds⟩, hobjects⟩
  exact ⟨hr, hholds.db_eq, hobjects⟩

theorem part_commit :
    Part (Stands db d objects) (inSession commit) fun r s => r = .ok () ∧ Stands d d objects s := by
  refine (Alone.base Lone.commit objects).conseq (fun _ hs => hs) ?_
  rintro r s ⟨⟨hr, hsees⟩, hobjects⟩
  exact ⟨hr, hsees, hobjects⟩

theorem part_bump (cfg : Settings) (key : String) :
    Part (Stands db d objects) (inSession (Cache.bump cfg key))
      fun r s => r = .ok () ∧ Stands db d objects s := by
  refine (Alone.base (lone_bump cfg key db [] d) objects).conseq (fun _ hs => hs) ?_
  rintro r s ⟨⟨hr, hsees⟩, hobjects⟩
  exact ⟨hr, hsees, hobjects⟩

theorem part_deleteObject (key : String) :
    Part (Rests db objects) (deleteObject key)
      fun r s => r = .ok () ∧ Rests db (Function.update objects key none) s := by
  apply Alone.perform
  rintro s ⟨hdb, hobjects⟩
  refine ⟨.ok (), (s.place key none).tookAway () key, rfl, rfl, hdb, ?_⟩
  rw [← hobjects]
  rfl

/-- The session ends, and what was committed stays. -/
theorem part_closeSession (result : Except Exc α) :
    Part (Rests db objects) (inSession (closeSession result))
      fun r s => r = result ∧ Rests db objects s := by
  have hrollback : Part (Rests db objects) (inSession (Prog.perform .rollback : App Unit))
      fun r s => r = .ok () ∧ Rests db objects s := by
    have hlone : Lone () (fun s : State Unit => s.heldByOther () = (fun _ => false) ∧ s.db = db)
        (Prog.perform .rollback : App Unit) fun r s => r = .ok () ∧ Sees () db [] db s :=
      Lone.rollback
    refine (Alone.base hlone objects).conseq ?_ ?_
    · rintro s ⟨hdb, hobjects⟩
      exact ⟨⟨heldByOther_unit s.world, hdb⟩, hobjects⟩
    · rintro r s ⟨⟨hr, hsees⟩, hobjects⟩
      exact ⟨hr, hsees.holds.db_eq, hobjects⟩
  show Part _ (Prog.via .base (Prog.bind _ _)) _
  rw [Prog.via_bind]
  apply Alone.bind_ok hrollback
  cases result with
  | ok a => exact Alone.ret a fun s hs => ⟨rfl, hs⟩
  | error e => exact Alone.raise e fun s hs => ⟨rfl, hs⟩

/-! ### Up to the copy -/

/-- A refusal before the copy; an object that is too large may have been deleted. -/
def Refused (pending : String) (db : Db) (objects : String → Option ℕ) (s : StorageState Unit) :
    Prop :=
  s.world.db = db ∧ ∀ key, key ≠ pending → s.objects key = objects key

theorem Rests.refused {pending : String} {s : StorageState Unit} (h : Rests db objects s) :
    Refused pending db objects s := by
  refine ⟨h.1, fun key _ => ?_⟩
  rw [h.2]

theorem evaluates_requireStaff {c : Credentials} {user : User}
    (h : Access.caller? d c = some user) (hstaff : user.isStaff = true) :
    Evaluates (requireStaff c) d (.ok (user, d)) := by
  apply (Access.evaluates_getCurrentUser h).bind_ok
  rw [if_pos hstaff]
  exact .ret user d

theorem refuses_requireStaff {c : Credentials}
    (h : ¬∃ user, Access.caller? d c = some user ∧ user.isStaff = true) :
    ∃ e, Evaluates (requireStaff c) d (.error e) := by
  cases hcaller : Access.caller? d c with
  | none =>
      obtain ⟨e, -, he⟩ := Access.refuses_getCurrentUser hcaller
      exact ⟨e, he.bind_error⟩
  | some user =>
      refine ⟨.app .forbidden "Staff only",
        (Access.evaluates_getCurrentUser hcaller).bind_ok ?_⟩
      rw [if_neg fun hstaff => h ⟨user, hcaller, hstaff⟩]
      exact .raise _ d

theorem evaluates_findSpot (cfg : Settings) {uid : String} {spot : Spot}
    (h : d.spots.find? uid = some spot) :
    Evaluates (InternalSpots.findSpot cfg uid) d (.ok (spot, d)) := by
  apply Evaluates.select
  rw [h]
  exact .ret spot d

theorem refuses_findSpot (cfg : Settings) {uid : String} (h : d.spots.find? uid = none) :
    Evaluates (InternalSpots.findSpot cfg uid) d (.error spotNotFound) := by
  apply Evaluates.select
  rw [h]
  exact .raise _ d

theorem part_headObject (key : String) :
    Part (Stands db d objects) (headObject key)
      fun r s => r = .ok (objects key) ∧ Stands db d objects s := by
  apply Alone.perform
  rintro s ⟨hsees, hobjects⟩
  exact ⟨.ok (s.objects key), s.told () (s.objects key), rfl, by rw [hobjects], hsees, hobjects⟩

/-- A step of which only the state it leaves matters. -/
theorem part_step {P Q : StorageState Unit → Prop} {m : Option Mishap} {p : StorageApp α}
    (hp : Part P p fun _ s => Q s) (hP : ∀ s, P s → Q s) : Part P (step m p) fun _ s => Q s := by
  cases m with
  | none => exact hp
  | some m =>
      show Part P (if m.carriedOut then p.bind fun _ => .raise m.error else .raise m.error) _
      split
      · apply Alone.bind (fun _ s => Q s) hp
        · intro a
          exact Alone.raise m.error fun _ h => h
        · intro e s h
          exact h
      · exact Alone.raise m.error hP

/-- An object that is too large is deleted or not, and refused. -/
theorem part_dropOversize (m : Option Mishap) (key : String) (e : Exc) :
    Part (Rests db objects) ((tryClientError (step m (deleteObject key))).bind fun _ =>
      (.raise e : StorageApp α)) fun r s => (∃ e, r = .error e) ∧ Refused key db objects s := by
  have hdelete : Part (Rests db objects) (step m (deleteObject key))
      fun _ s => Refused key db objects s := by
    apply part_step
    · apply (part_deleteObject key).conseq (fun _ hs => hs)
      rintro r s ⟨-, hdb, hobjects⟩
      refine ⟨hdb, fun k hk => ?_⟩
      rw [hobjects, Function.update_of_ne hk]
    · intro s hs
      exact hs.refused
  have htry : Part (Rests db objects) (tryClientError (step m (deleteObject key)))
      fun _ s => Refused key db objects s := by
    apply Alone.tryCatch (fun _ s => Refused key db objects s) hdelete
    · intro _ s hs
      exact hs
    · intro e'
      split
      · exact Alone.ret () fun _ hs => hs
      · exact Alone.raise e' fun _ hs => hs
  apply Alone.bind (fun _ s => Refused key db objects s) htry
  · intro _
    exact Alone.raise e fun s hs => ⟨⟨e, rfl⟩, hs⟩
  · intro e' s hs
    exact ⟨⟨e', rfl⟩, hs⟩

/-- A part that goes through if `ok` holds, and is refused otherwise. -/
def Passes (ok : Prop) (a : α) (pending : String) (d : Db) (objects : String → Option ℕ)
    (result : Except Exc α) (s : StorageState Unit) : Prop :=
  (ok ∧ result = .ok a ∧ Stands d d objects s) ∨
    (¬ok ∧ (∃ e, result = .error e) ∧ Refused pending d objects s)

theorem Passes.refused {ok : Prop} {a : α} {pending : String} {e : Exc} {s : StorageState Unit}
    (hok : ¬ok) (h : Stands d d objects s) : Passes ok a pending d objects (.error e) s :=
  .inr ⟨hok, ⟨e, rfl⟩, h.rests.refused⟩

theorem part_checkSize (limits : ImageLimits) (r : RegisterCall) :
    Part (Stands d d objects) (checkSize r.mishaps limits r.payload.s3Key)
      (Passes (Finds limits r objects) () r.payload.s3Key d objects) := by
  unfold checkSize
  cases hhead : r.mishaps .head with
  | some m =>
      have hnot : ¬Finds limits r objects := by
        intro h
        rw [h.head] at hhead
        cases hhead
      have hstep : Part (Stands d d objects) (step (some m) (headObject r.payload.s3Key))
          fun res s => (∃ e, res = .error e) ∧ Stands d d objects s := by
        show Part _ (if m.carriedOut then _ else _) _
        split
        · apply Alone.bind_ok (part_headObject r.payload.s3Key)
          exact Alone.raise m.error fun _ h => ⟨⟨_, rfl⟩, h⟩
        · exact Alone.raise m.error fun _ h => ⟨⟨_, rfl⟩, h⟩
      apply Alone.bind (fun res s => (∃ e, res = .error e) ∧ Stands d d objects s) hstep
      · rintro answer s ⟨⟨e, he⟩, -⟩
        cases he
      · rintro e s ⟨-, hs⟩
        exact .refused hnot hs
  | none =>
      apply Alone.bind_ok (part_headObject r.payload.s3Key)
      cases hsize : objects r.payload.s3Key with
      | none =>
          apply Alone.raise
          intro s hs
          apply Passes.refused _ hs
          intro h
          obtain ⟨size, hfound, -⟩ := h.size
          rw [hsize] at hfound
          cases hfound
      | some size =>
          show Part _ (if limits.maxBytes < size then _ else _) _
          split
          · rename_i hlarge
            apply (part_dropOversize _ _ _).conseq fun _ hs => hs.rests
            rintro res s ⟨herror, hs⟩
            refine .inr ⟨fun h => ?_, herror, hs⟩
            obtain ⟨size', hfound, hsmall⟩ := h.size
            rw [hsize] at hfound
            cases hfound
            omega
          · rename_i hsmall
            exact Alone.ret () fun s hs =>
              .inl ⟨⟨hhead, size, hsize, Nat.le_of_not_lt hsmall⟩, rfl, hs⟩

/-- A request gets as far as its copy, or is refused. -/
theorem part_upload (cfg : Settings) (limits : ImageLimits) (r : RegisterCall) :
    Part (Stands d d objects)
      ((inSession (requireStaff r.credentials)).bind fun _ =>
        (inSession (checkRateLimit SpotImages.uploadLimit r.peer r.credentials)).bind fun _ =>
        checkUpload cfg r.mishaps limits r.spotUid r.payload.s3Key)
      (Passes (Admitted limits r d objects) (r.finalKey?.getD "") r.payload.s3Key d objects) := by
  have hrefuse : ∀ {β : Type} {p : App β} {e : Exc} {k : β → StorageApp String}
      (_ : Evaluates p d (.error e)) (_ : ¬Admitted limits r d objects),
      Part (Stands d d objects) ((inSession p).bind k)
        (Passes (Admitted limits r d objects) (r.finalKey?.getD "") r.payload.s3Key d objects) := by
    intro β p e k he hnot
    apply Alone.bind_error (part_refuses he)
    intro s hs
    exact .inr ⟨hnot, ⟨e, rfl⟩, hs.refused⟩
  by_cases hstaff : ∃ user, Access.caller? d r.credentials = some user ∧ user.isStaff = true
  case neg =>
      obtain ⟨e, he⟩ := refuses_requireStaff hstaff
      exact hrefuse he fun h => hstaff h.staff
  obtain ⟨user, hcaller, hisStaff⟩ := hstaff
  apply Alone.bind_ok (part_answers (evaluates_requireStaff hcaller hisStaff))
  rcases Access.checkRateLimit_cases SpotImages.uploadLimit r.peer hcaller with
    ⟨e, hexceeds, he⟩ | ⟨hwithin, hlimit⟩
  · apply hrefuse he
    intro h
    rw [h.within user hcaller] at hexceeds
    cases hexceeds
  apply Alone.bind_ok (part_answers hlimit)
  unfold checkUpload
  cases hspot : d.spots.find? r.spotUid with
  | none =>
      apply hrefuse (refuses_findSpot cfg hspot)
      intro h
      have hfound := h.spot
      rw [hspot] at hfound
      cases hfound
  | some spot =>
      apply Alone.bind_ok (part_answers (evaluates_findSpot cfg hspot))
      cases hkey : SpotImages.pendingKey r.spotUid r.payload.s3Key with
      | none =>
          apply Alone.raise
          intro s hs
          apply Passes.refused _ hs
          intro h
          have hfinal := h.key
          rw [RegisterCall.finalKey?, hkey] at hfinal
          cases hfinal
      | some key =>
          have hfinal : r.finalKey? = some (finalKey r.spotUid key) := by
            rw [RegisterCall.finalKey?, hkey]
            rfl
          have hcount : Evaluates (countImagesBySpot r.spotUid) d
              (.ok ((activeImages r.spotUid d).length, d)) := Evaluates.statement _ d
          apply Alone.bind_ok (part_answers hcount)
          show Part _ (if limits.maxCountPerSpot ≤ _ then _ else _) _
          split
          · rename_i hfull
            apply Alone.raise
            intro s hs
            apply Passes.refused _ hs
            intro h
            have hroom := h.room
            omega
          · rename_i hroom
            apply Alone.bind _ (part_checkSize limits r)
            · intro u
              apply Alone.ret
              rintro s (⟨hfinds, -, hs⟩ | ⟨-, ⟨e, he⟩, -⟩)
              · refine .inl
                  ⟨⟨⟨user, hcaller, hisStaff⟩, fun user' huser' => ?_, ?_, ?_, ?_, hfinds⟩,
                  ?_, hs⟩
                · obtain rfl : user = user' := Option.some.inj (hcaller.symm.trans huser')
                  exact hwithin
                · rw [hspot]
                  rfl
                · rw [hfinal]
                  rfl
                · omega
                · rw [hfinal]
                  rfl
              · cases he
            · rintro e s (⟨-, he, -⟩ | ⟨hnot, -, hs⟩)
              · cases he
              · exact .inr ⟨fun h => hnot h.finds, ⟨e, rfl⟩, hs⟩

/-! ### The row -/

/-- The database with the row of the request. -/
def withImage (r : RegisterCall) (key : String) (d : Db) : Db :=
  { d with images := d.images.insert (r.image key) }

/-- How `create_image` ends: with the row committed or not, and with an exception or not. -/
inductive Created (r : RegisterCall) (key : String) (d : Db) (objects : String → Option ℕ) :
    Except Exc SpotImage → StorageState Unit → Prop
  | committed (image : SpotImage) {s : StorageState Unit} (hinserts : Inserts r d)
      (hcommit : r.mishaps .commit = none) (hrefresh : r.mishaps .refresh = none)
      (hs : Rests (withImage r key d) objects s) : Created r key d objects (.ok image) s
  | stays (e : Exc) {s : StorageState Unit} (he : e.isException = true) (hinserts : Inserts r d)
      (hraised : ¬(r.mishaps .commit = none ∧ r.mishaps .refresh = none))
      (hs : Rests (withImage r key d) objects s) : Created r key d objects (.error e) s
  | failed (e : Exc) {s : StorageState Unit} (he : e.isException = true) (hnot : ¬Inserts r d)
      (hs : Rests d objects s) : Created r key d objects (.error e) s

theorem apply_insertImageRow {image : SpotImage} (hspot : (d.spots.find? image.spotUid).isSome) :
    (insertImageRow image).apply d = if (d.images.find? image.uid).isSome
      then .error (integrityError "spot_images_pkey")
      else .ok ((), { d with images := d.images.insert image }) := by
  have hspot' : (d.spots.find? image.spotUid).isNone = false := by
    rw [Option.isNone_eq_false_iff]
    exact hspot
  simp only [Stmt.apply, insertImageRow, hspot', Bool.false_eq_true, if_false]
  split <;> rfl

/-- The refresh of a row that is there. -/
theorem evaluates_refreshImage {uid : String} {image : SpotImage}
    (h : d.images.find? uid = some image) :
    Evaluates (refreshImage uid) d (.ok (image, d)) := by
  apply Evaluates.select
  rw [h]
  exact .ret image d

variable (cfg : Settings)

/-- What follows the commit of the row. -/
theorem part_refresh (r : RegisterCall) (key : String) (hinserts : Inserts r d)
    (hcommit : r.mishaps .commit = none)
    (hexc : ∀ step, ∀ m ∈ r.mishaps step, m.error.isException = true) :
    Part (Stands (withImage r key d) (withImage r key d) objects)
      ((step (r.mishaps .refresh) (inSession (refreshImage r.imageUid))).bind fun image =>
        (inSession (Cache.bumpSpotsVersion cfg)).bind fun _ =>
        (inSession (Cache.invalidateSpotDetail cfg r.spotUid)).bind fun _ => .ret image)
      (Created r key d objects) := by
  have hfound : (withImage r key d).images.find? r.imageUid = some (r.image key) :=
    Table.find?_insert_self hinserts.fresh
  have hread : Part (Stands (withImage r key d) (withImage r key d) objects)
      (inSession (refreshImage r.imageUid)) fun res s => res = .ok (r.image key) ∧
        Stands (withImage r key d) (withImage r key d) objects s :=
    part_answers (evaluates_refreshImage hfound)
  cases hrefresh : r.mishaps .refresh with
  | none =>
      apply Alone.bind_ok hread
      apply Alone.bind_ok (part_bump cfg _)
      apply Alone.bind_ok (part_bump cfg _)
      exact Alone.ret _ fun s hs => .committed _ hinserts hcommit hrefresh hs.rests
  | some m =>
      have hstays : ∀ s, Stands (withImage r key d) (withImage r key d) objects s →
          Created r key d objects (.error m.error) s := by
        intro s hs
        apply Created.stays m.error (hexc .refresh m hrefresh) hinserts _ hs.rests
        rintro ⟨-, hnone⟩
        rw [hrefresh] at hnone
        cases hnone
      have hstep : Part (Stands (withImage r key d) (withImage r key d) objects)
          (step (some m) (inSession (refreshImage r.imageUid))) fun res s =>
            res = .error m.error ∧ Stands (withImage r key d) (withImage r key d) objects s := by
        show Part _ (if m.carriedOut then _ else _) _
        split
        · apply Alone.bind_ok hread
          exact Alone.raise m.error fun s hs => ⟨rfl, hs⟩
        · exact Alone.raise m.error fun s hs => ⟨rfl, hs⟩
      exact Alone.bind_error hstep hstays

/-- The commit of the row, and what follows. -/
theorem part_commitImage (r : RegisterCall) (key : String) (hinsert : r.mishaps .insert = none)
    (hfresh : d.images.find? r.imageUid = none)
    (hexc : ∀ step, ∀ m ∈ r.mishaps step, m.error.isException = true) :
    Part (Stands d (withImage r key d) objects)
      ((step (r.mishaps .commit) (inSession commit)).bind fun _ =>
        (step (r.mishaps .refresh) (inSession (refreshImage r.imageUid))).bind fun image =>
        (inSession (Cache.bumpSpotsVersion cfg)).bind fun _ =>
        (inSession (Cache.invalidateSpotDetail cfg r.spotUid)).bind fun _ => .ret image)
      (Created r key d objects) := by
  cases hcommit : r.mishaps .commit with
  | none =>
      have hinserts : Inserts r d := by
        refine ⟨hinsert, hfresh, fun m hm => ?_⟩
        rw [hcommit] at hm
        cases hm
      apply Alone.bind_ok part_commit
      exact part_refresh cfg r key hinserts hcommit hexc
  | some m =>
      have hne : ¬(r.mishaps .commit = none ∧ r.mishaps .refresh = none) := by
        rintro ⟨hnone, -⟩
        rw [hcommit] at hnone
        cases hnone
      have he := hexc .commit m hcommit
      cases hdone : m.carriedOut with
      | true =>
          have hinserts : Inserts r d := by
            refine ⟨hinsert, hfresh, fun m' hm' => ?_⟩
            rw [hcommit] at hm'
            cases hm'
            exact hdone
          have hstep : Part (Stands d (withImage r key d) objects)
              (step (some m) (inSession commit)) fun res s =>
                res = .error m.error ∧
                  Stands (withImage r key d) (withImage r key d) objects s := by
            show Part _ (if m.carriedOut then _ else _) _
            rw [if_pos hdone]
            apply Alone.bind_ok part_commit
            exact Alone.raise m.error fun s hs => ⟨rfl, hs⟩
          exact Alone.bind_error hstep fun s hs => .stays m.error he hinserts hne hs.rests
      | false =>
          have hnot : ¬Inserts r d := by
            intro h
            have hall := h.commit m hcommit
            rw [hdone] at hall
            cases hall
          have hstep : Part (Stands d (withImage r key d) objects)
              (step (some m) (inSession commit)) fun res s =>
                res = .error m.error ∧ Stands d (withImage r key d) objects s := by
            show Part _ (if m.carriedOut then _ else _) _
            rw [hdone]
            exact Alone.raise m.error fun s hs => ⟨rfl, hs⟩
          exact Alone.bind_error hstep fun s hs => .failed m.error he hnot hs.rests

theorem part_createImage (r : RegisterCall) (key : String)
    (hspot : (d.spots.find? r.spotUid).isSome)
    (hexc : ∀ step, ∀ m ∈ r.mishaps step, m.error.isException = true) :
    Part (Stands d d objects)
      (ImageRegistration.createImage cfg r.now r.mishaps r.imageUid r.spotUid key r.payload)
      (Created r key d objects) := by
  have happly : (insertImageRow (r.image key)).apply d = if (d.images.find? r.imageUid).isSome
      then .error (integrityError "spot_images_pkey") else .ok ((), withImage r key d) :=
    apply_insertImageRow hspot
  have hstatement : Evaluates (execute (insertImageRow (r.image key))) d
      ((insertImageRow (r.image key)).apply d) := Evaluates.statement _ d
  rw [happly] at hstatement
  -- an insert that raises, whatever the reason
  have hraises : ∀ {p : StorageApp Unit} {k : Unit → StorageApp SpotImage}, ¬Inserts r d →
      Part (Stands d d objects) p (fun res s => (∃ e, res = .error e ∧ e.isException = true) ∧
        Rests d objects s) → Part (Stands d d objects) (p.bind k) (Created r key d objects) := by
    intro p k hnot hp
    apply Alone.bind _ hp
    · rintro u s ⟨⟨e, he, -⟩, -⟩
      cases he
    · rintro e s ⟨⟨e', he, hexception⟩, hs⟩
      cases he
      exact .failed e hexception hnot hs
  unfold ImageRegistration.createImage
  cases hfresh : d.images.find? r.imageUid with
  | some image =>
      rw [hfresh] at hstatement
      apply hraises
      · intro h
        have hnone := h.fresh
        rw [hfresh] at hnone
        cases hnone
      have hfails : Part (Stands d d objects)
          (inSession (execute (insertImageRow (r.image key))))
          fun res s => res = .error (integrityError "spot_images_pkey") ∧ Rests d objects s :=
        part_refuses hstatement
      cases hinsert : r.mishaps .insert with
      | none =>
          refine hfails.conseq (fun _ hs => hs) ?_
          rintro res s ⟨hres, hs⟩
          exact ⟨⟨_, hres, rfl⟩, hs⟩
      | some m =>
          show Part _ (if m.carriedOut then _ else _) _
          split
          · apply Alone.bind_error hfails
            intro s hs
            exact ⟨⟨_, rfl, rfl⟩, hs⟩
          · exact Alone.raise m.error fun s hs =>
              ⟨⟨_, rfl, hexc .insert m hinsert⟩, hs.rests⟩
  | none =>
      rw [hfresh] at hstatement
      cases hinsert : r.mishaps .insert with
      | none =>
          apply Alone.bind_ok (part_answers hstatement)
          exact part_commitImage cfg r key hinsert hfresh hexc
      | some m =>
          apply hraises
          · intro h
            have hnone := h.insert
            rw [hinsert] at hnone
            cases hnone
          show Part _ (if m.carriedOut then _ else _) _
          split
          · apply Alone.bind_ok (part_answers hstatement)
            exact Alone.raise m.error fun s hs => ⟨⟨_, rfl, hexc .insert m hinsert⟩, hs.rests⟩
          · exact Alone.raise m.error fun s hs =>
              ⟨⟨_, rfl, hexc .insert m hinsert⟩, hs.rests⟩

/-! ### The whole request -/

/-- How a request that was admitted ends. -/
inductive Registered (r : RegisterCall) (key : String) (d : Db) (objects : String → Option ℕ) :
    Except Exc SpotImage → StorageState Unit → Prop
  | notCopied (e : Exc) {s : StorageState Unit} (m : Mishap) (hm : r.mishaps .copy = some m)
      (hcopied : m.carriedOut = false) (hs : Rests d objects s) :
      Registered r key d objects (.error e) s
  | copied (e : Exc) {s : StorageState Unit} (m : Mishap) (hm : r.mishaps .copy = some m)
      (hcopied : m.carriedOut = true) (hdb : s.world.db = d) (hobject : (s.objects key).isSome) :
      Registered r key d objects (.error e) s
  | rolledBack (e : Exc) {s : StorageState Unit} (hcopy : r.mishaps .copy = none)
      (hnot : ¬Inserts r d) (hdb : s.world.db = d) (hobject : s.objects key = none) :
      Registered r key d objects (.error e) s
  | stays (e : Exc) {s : StorageState Unit} (hcopy : r.mishaps .copy = none)
      (hinserts : Inserts r d) (hraised : ¬(r.mishaps .commit = none ∧
        r.mishaps .refresh = none ∧ r.mishaps .dropPending = none))
      (hdb : s.world.db = withImage r key d) : Registered r key d objects (.error e) s
  | registered (image : SpotImage) {s : StorageState Unit} (hcopy : r.mishaps .copy = none)
      (hinserts : Inserts r d) (hall : r.mishaps .commit = none ∧ r.mishaps .refresh = none ∧
        r.mishaps .dropPending = none) (hdb : s.world.db = withImage r key d)
      (hobject : (s.objects key).isSome) : Registered r key d objects (.ok image) s

theorem part_copyObject {source target : String} {size : ℕ} (h : objects source = some size) :
    Part (Stands db d objects) (copyObject source target)
      fun res s => res = .ok () ∧ Stands db d (Function.update objects target (some size)) s := by
  apply Alone.perform
  rintro s ⟨hsees, hobjects⟩
  refine ⟨.ok (), (s.place target (some size)).tookCopy () target, ?_, rfl, hsees, ?_⟩
  · simp only [execDepot, execStore, hobjects, h]
  · rw [← hobjects]
    rfl

/-- A pending key is no final key. -/
theorem pending_ne_finalKey {r : RegisterCall} {key : String} (h : r.finalKey? = some key) :
    key ≠ r.payload.s3Key := by
  obtain ⟨rest, hrest⟩ := finalKey?_below h
  obtain ⟨name, hname, -⟩ := Option.map_eq_some_iff.1 h
  simp only [SpotImages.pendingKey] at hname
  split at hname
  · rename_i hmatch
    simp only [Bool.and_eq_true] at hmatch
    obtain ⟨⟨⟨hfolder, -⟩, -⟩, -⟩ := hmatch
    obtain ⟨tail, htail⟩ := List.isPrefixOf_iff_prefix.1 hfolder
    intro hsame
    have hhead : r.payload.s3Key.toList.head? = some 'u' := by
      rw [← htail]
      simp
    rw [← hsame, hrest] at hhead
    simp [finalPrefix] at hhead
  · cases hname

/-- The compensation: the copy is deleted, and the exception goes on. -/
theorem part_rollBackCopy (r : RegisterCall) (key : String) (e : Exc)
    (hroll : r.mishaps .rollBack = none) :
    Part (Rests db objects) (rollBackCopy r.mishaps key e : StorageApp α)
      fun res s => res = .error e ∧ Rests db (Function.update objects key none) s := by
  unfold rollBackCopy
  rw [hroll]
  have htry : Part (Rests db objects)
      (tryExcept (step none (deleteObject key)) fun _ => .ret ())
      fun res s => res = .ok () ∧ Rests db (Function.update objects key none) s := by
    apply Alone.tryCatch _ (part_deleteObject key)
    · intro _ s hs
      exact hs
    · rintro e' s ⟨he, -⟩
      cases he
  apply Alone.bind_ok htry
  exact Alone.raise e fun s hs => ⟨rfl, hs⟩

/-- What a request does after its copy. -/
theorem part_afterCopy (r : RegisterCall) {key : String} {size : ℕ}
    (hkey : r.finalKey? = some key) (hspot : (d.spots.find? r.spotUid).isSome)
    (hexc : ∀ step, ∀ m ∈ r.mishaps step, m.error.isException = true)
    (hroll : r.mishaps .rollBack = none) (hcopy : r.mishaps .copy = none) :
    Part (Stands d d (Function.update objects key (some size)))
      ((tryExcept (ImageRegistration.createImage cfg r.now r.mishaps r.imageUid r.spotUid key
        r.payload) (rollBackCopy r.mishaps key)).bind fun image =>
        (step (r.mishaps .dropPending) (deleteObject r.payload.s3Key)).bind fun _ => .ret image)
      (Registered r key d objects) := by
  have hne := pending_ne_finalKey hkey
  have hcopied : Function.update objects key (some size) key = some size :=
    Function.update_self ..
  have hgone : ∀ s, s.objects = Function.update (Function.update objects key (some size)) key none →
      (s : StorageState Unit).objects key = none := by
    intro s hs
    rw [hs, Function.update_self]
  have htry : Part (Stands d d (Function.update objects key (some size)))
      (tryExcept (ImageRegistration.createImage cfg r.now r.mishaps r.imageUid r.spotUid key
        r.payload) (rollBackCopy r.mishaps key)) fun res s =>
        match res with
        | .ok image => Created r key d (Function.update objects key (some size)) (.ok image) s
        | .error e => Registered r key d objects (.error e) s := by
    apply Alone.tryCatch _ (part_createImage cfg r key hspot hexc)
    · intro image s hs
      exact hs
    · intro e s hs
      cases hs with
      | stays e he hinserts hraised hs =>
          rw [if_pos he]
          obtain ⟨res, s', hrun, rfl, hs'⟩ := part_rollBackCopy (α := SpotImage) r key e hroll s hs
          refine ⟨_, s', hrun, .stays e hcopy hinserts ?_ hs'.1⟩
          rintro ⟨hcommit, hrefresh, -⟩
          exact hraised ⟨hcommit, hrefresh⟩
      | failed e he hnot hs =>
          rw [if_pos he]
          obtain ⟨res, s', hrun, rfl, hs'⟩ := part_rollBackCopy (α := SpotImage) r key e hroll s hs
          exact ⟨_, s', hrun, .rolledBack e hcopy hnot hs'.1 (hgone s' hs'.2)⟩
  apply Alone.bind _ htry
  · intro image s hs
    obtain ⟨-, hinserts, hcommit, hrefresh, hs⟩ := hs
    cases hdrop : r.mishaps .dropPending with
    | none =>
        obtain ⟨res, s', hrun, rfl, hdb, hobjects⟩ := part_deleteObject r.payload.s3Key s hs
        refine ⟨.ok image, s', ?_,
          .registered image hcopy hinserts ⟨hcommit, hrefresh, hdrop⟩ hdb ?_⟩
        · rw [runAlone_bind]
          show (runAlone _ () (deleteObject r.payload.s3Key) s).bind _ = _
          rw [hrun]
          rfl
        · rw [hobjects, Function.update_of_ne hne, hcopied]
          rfl
    | some m =>
        have hstays : ∀ s, s.world.db = withImage r key d →
            Registered r key d objects (.error m.error) s := by
          intro s hs
          apply Registered.stays m.error hcopy hinserts _ hs
          rintro ⟨-, -, hnone⟩
          rw [hdrop] at hnone
          cases hnone
        have hstep : Part (Rests (withImage r key d) (Function.update objects key (some size)))
            (step (some m) (deleteObject r.payload.s3Key)) fun res s =>
              res = .error m.error ∧ s.world.db = withImage r key d := by
          show Part _ (if m.carriedOut then _ else _) _
          split
          · apply Alone.bind_ok (part_deleteObject r.payload.s3Key)
            exact Alone.raise m.error fun s hs => ⟨rfl, hs.1⟩
          · exact Alone.raise m.error fun s hs => ⟨rfl, hs.1⟩
        exact Alone.bind_error hstep hstays s hs
  · intro e s hs
    exact hs

/-- The outcome of a request by itself. -/
theorem part_registerImage (limits : ImageLimits) (r : RegisterCall)
    (hexc : ∀ step, ∀ m ∈ r.mishaps step, m.error.isException = true)
    (hroll : r.mishaps .rollBack = none) :
    Part (Stands d d objects)
      (registerImage cfg r.now r.mishaps limits r.peer r.credentials r.spotUid r.imageUid r.payload)
      fun res s =>
        (Admitted limits r d objects ∧ ∃ key, r.finalKey? = some key ∧
          Registered r key d objects res s) ∨
        (¬Admitted limits r d objects ∧ (∃ e, res = .error e) ∧
          Refused r.payload.s3Key d objects s) := by
  have hprogram :
      registerImage cfg r.now r.mishaps limits r.peer r.credentials r.spotUid r.imageUid
          r.payload =
        ((inSession (requireStaff r.credentials)).bind fun _ =>
          (inSession (checkRateLimit SpotImages.uploadLimit r.peer r.credentials)).bind fun _ =>
          checkUpload cfg r.mishaps limits r.spotUid r.payload.s3Key).bind fun key =>
        (step (r.mishaps .copy) (copyObject r.payload.s3Key key)).bind fun _ =>
        (tryExcept (ImageRegistration.createImage cfg r.now r.mishaps r.imageUid r.spotUid key
          r.payload) (rollBackCopy r.mishaps key)).bind fun image =>
        (step (r.mishaps .dropPending) (deleteObject r.payload.s3Key)).bind fun _ =>
          .ret image := by
    rw [Prog.bind_assoc, funext fun _ => Prog.bind_assoc ..]
    rfl
  rw [hprogram]
  apply Alone.bind _ (part_upload cfg limits r)
  · rintro key s (⟨hadmitted, hok, hs⟩ | ⟨-, ⟨e, he⟩, -⟩)
    · obtain ⟨final, hkey⟩ := Option.isSome_iff_exists.1 hadmitted.key
      have hfinal : key = final := by
        rw [hkey] at hok
        exact Except.ok.inj hok
      subst hfinal
      obtain ⟨size, hsize, -⟩ := hadmitted.finds.size
      have hleft : ∀ {p : StorageApp SpotImage},
          Part (Stands d d objects) p (Registered r key d objects) →
          ∃ res s', runAlone (fun i => execDepot i) () p s = some (res, s') ∧
            ((Admitted limits r d objects ∧ ∃ key, r.finalKey? = some key ∧
              Registered r key d objects res s') ∨
            (¬Admitted limits r d objects ∧ (∃ e, res = .error e) ∧
              Refused r.payload.s3Key d objects s')) := by
        intro p hp
        obtain ⟨res, s', hrun, hend⟩ := hp s hs
        exact ⟨res, s', hrun, .inl ⟨hadmitted, key, hkey, hend⟩⟩
      apply hleft
      cases hcopy : r.mishaps .copy with
      | none =>
          apply Alone.bind_ok (part_copyObject hsize)
          exact part_afterCopy cfg r hkey hadmitted.spot hexc hroll hcopy
      | some m =>
          have hstep : Part (Stands d d objects)
              (step (some m) (copyObject r.payload.s3Key key)) fun res s =>
                res = .error m.error ∧ Registered r key d objects (.error m.error) s := by
            show Part _ (if m.carriedOut then _ else _) _
            split
            · rename_i hdone
              apply Alone.bind_ok (part_copyObject hsize)
              apply Alone.raise
              rintro s ⟨hsees, hobjects⟩
              refine ⟨rfl, .copied _ m hcopy hdone hsees.holds.db_eq ?_⟩
              rw [hobjects, Function.update_self]
              rfl
            · rename_i hdone
              apply Alone.raise
              intro s hs
              exact ⟨rfl, .notCopied _ m hcopy (by simpa using hdone) hs.rests⟩
          exact Alone.bind_error hstep fun s hs => hs
    · cases he
  · rintro e s (⟨-, he, -⟩ | ⟨hnot, he, hs⟩)
    · cases he
    · exact .inr ⟨hnot, ⟨e, rfl⟩, hs⟩

/-! ## Clean ends -/

/-- An image that was not there has been added. -/
theorem added_withImage {key : String} (hfresh : d.images.find? r.imageUid = none)
    (h : ∀ a ∈ (withImage r key d).images.rows, ∃ b ∈ d.images.rows, b.uid = a.uid) : False := by
  have hfound : (withImage r key d).images.find? (r.image key).uid = some (r.image key) :=
    Table.find?_insert_self hfresh
  obtain ⟨b, hb, huid⟩ := h _ (Table.find?_eq_some.1 hfound).1
  exact Table.find?_eq_none.1 hfresh b hb huid

variable {s s' : StorageState Unit} {result : Except Exc SpotImage}

/-- A refused request ends cleanly if the images had their objects. -/
theorem endsCleanly_of_refused (hnot : ¬Admitted limits r s.world.db s.objects)
    (h : Refused r.payload.s3Key s.world.db s.objects s') :
    EndsCleanly r s result s' ↔ CleansUp limits r s.world.db s.objects := by
  have hobject : ∀ key ∈ r.finalKey?, s'.objects key = s.objects key := fun key hkey =>
    h.2 key (pending_ne_finalKey hkey)
  have hbacked : ∀ key ∈ r.finalKey?,
      Backed key s'.world.db s'.objects ↔ Backed key s.world.db s.objects := by
    intro key hkey
    rw [Backed, Backed, h.1, hobject key hkey]
  constructor
  · intro hclean key hkey
    refine ⟨fun _ => (hbacked key hkey).1 (hclean.backed key hkey), fun hadmitted => ?_⟩
    exact absurd hadmitted hnot
  · intro hcleans
    refine ⟨fun _ _ a ha => ⟨a, h.1 ▸ ha, rfl⟩, fun _ _ key hkey hnone => ?_, fun key hkey => ?_⟩
    · rw [hobject key hkey]
      exact hnone
    · exact (hbacked key hkey).2 ((hcleans key hkey).1 hnot)

/-- An admitted one, by what has become of its copy and its row. -/
theorem endsCleanly_of_registered {key : String} (hkey : r.finalKey? = some key)
    (hadmitted : Admitted limits r s.world.db s.objects)
    (h : Registered r key s.world.db s.objects result s') :
    EndsCleanly r s result s' ↔ CleansUp limits r s.world.db s.objects := by
  -- the final key is the one key that matters, and the request was admitted
  have hcleans : CleansUp limits r s.world.db s.objects ↔
      (∀ m ∈ r.mishaps .copy, if m.carriedOut then (s.objects key).isSome
        else Backed key s.world.db s.objects) ∧
      (r.mishaps .copy = none → ¬Inserts r s.world.db → activeUnder key s.world.db = []) ∧
      (r.mishaps .copy = none → Inserts r s.world.db →
        r.mishaps .commit = none ∧ r.mishaps .refresh = none ∧ r.mishaps .dropPending = none) := by
    constructor
    · intro hall
      exact (hall key hkey).2 hadmitted
    · intro hall key' hkey'
      obtain rfl : key = key' := Option.some.inj (hkey.symm.trans hkey')
      exact ⟨fun hnot => absurd hadmitted hnot, fun _ => hall⟩
  have honly : ∀ {P : String → Prop}, P key → ∀ key' ∈ r.finalKey?, P key' := by
    intro P hP key' hkey'
    obtain rfl : key = key' := Option.some.inj (hkey.symm.trans hkey')
    exact hP
  rw [hcleans]
  cases h with
  | notCopied e m hm hcopied hs =>
      obtain ⟨hdb, hobjects⟩ := hs
      constructor
      · intro hclean
        refine ⟨fun m' hm' => ?_, fun hnone => ?_, fun hnone => ?_⟩
        · obtain rfl : m = m' := Option.some.inj (hm.symm.trans hm')
          have hbacked := hclean.backed key hkey
          rw [hdb, hobjects] at hbacked
          rw [hcopied]
          exact hbacked
        · rw [hm] at hnone
          cases hnone
        · rw [hm] at hnone
          cases hnone
      · rintro ⟨hcopy, -, -⟩
        have hbacked := hcopy m hm
        rw [hcopied] at hbacked
        refine ⟨fun _ _ a ha => ⟨a, hdb ▸ ha, rfl⟩, fun _ _ key' _ hnone => ?_, honly ?_⟩
        · rw [hobjects]
          exact hnone
        · rw [hdb, hobjects]
          exact hbacked
  | copied e m hm hcopied hdb hobject =>
      constructor
      · intro hclean
        refine ⟨fun m' hm' => ?_, fun hnone => ?_, fun hnone => ?_⟩
        · obtain rfl : m = m' := Option.some.inj (hm.symm.trans hm')
          rw [hcopied]
          by_contra habsent
          have hnone := hclean.object e rfl key hkey (by simpa using habsent)
          rw [hnone] at hobject
          cases hobject
        · rw [hm] at hnone
          cases hnone
        · rw [hm] at hnone
          cases hnone
      · rintro ⟨hcopy, -, -⟩
        have hpresent := hcopy m hm
        rw [hcopied, if_pos rfl] at hpresent
        refine ⟨fun _ _ a ha => ⟨a, hdb ▸ ha, rfl⟩, fun _ _ => honly fun hnone => ?_,
          honly fun _ => hobject⟩
        rw [hnone] at hpresent
        cases hpresent
  | rolledBack e hcopy hnot hdb hobject =>
      constructor
      · intro hclean
        refine ⟨fun m hm => ?_, fun _ _ => ?_, fun _ hinserts => absurd hinserts hnot⟩
        · rw [hcopy] at hm
          cases hm
        · by_contra hactive
          have hbacked := hclean.backed key hkey
          rw [hdb] at hbacked
          have hsome := hbacked hactive
          rw [hobject] at hsome
          cases hsome
      · rintro ⟨-, hnone, -⟩
        refine ⟨fun _ _ a ha => ⟨a, hdb ▸ ha, rfl⟩, fun _ _ => honly fun _ => hobject,
          honly fun hactive => ?_⟩
        rw [hdb] at hactive
        exact absurd (hnone hcopy hnot) hactive
  | stays e hcopy hinserts hraised hdb =>
      constructor
      · intro hclean
        have hrows := hclean.rows e rfl
        rw [hdb] at hrows
        exact (added_withImage hinserts.fresh hrows).elim
      · rintro ⟨-, -, hall⟩
        exact absurd (hall hcopy hinserts) hraised
  | registered image hcopy hinserts hall hdb hobject =>
      constructor
      · intro _
        refine ⟨fun m hm => ?_, fun _ hnot => absurd hinserts hnot, fun _ _ => hall⟩
        rw [hcopy] at hm
        cases hm
      · intro _
        exact ⟨nofun, nofun, honly fun _ => hobject⟩

/-- A registration by itself, with exceptions at any of its steps but its compensation, ends
cleanly exactly when it cleans up. -/
theorem registers_cleanly_iff (cfg : Settings) (limits : ImageLimits) (r : RegisterCall)
    (s : StorageState Unit) (hnew : s.world.tx () = {})
    (hexc : ∀ step, ∀ m ∈ r.mishaps step, m.error.isException = true)
    (hroll : r.mishaps .rollBack = none) :
    ∃ result s', runAlone (fun i => execDepot i) () (Storage.withSession
        (registerImage cfg r.now r.mishaps limits r.peer r.credentials r.spotUid r.imageUid
          r.payload)) s = some (result, s') ∧
      (EndsCleanly r s result s' ↔ CleansUp limits r s.world.db s.objects) := by
  have hstands : Stands s.world.db s.world.db s.objects s := by
    refine ⟨⟨⟨rfl, heldByOther_unit s.world, ?_, ?_⟩, ?_, ?_⟩, rfl⟩
    · rw [hnew]
      exact nofun
    · rw [hnew]
      rfl
    · rw [hnew]
    · rw [World.view, hnew]
      rfl
  obtain ⟨result, s₁, hrun, hend⟩ := part_registerImage cfg limits r hexc hroll s hstands
  obtain ⟨result', s₂, hclose, hsame, hdb, hobjects⟩ := part_closeSession result s₁ ⟨rfl, rfl⟩
  refine ⟨result', s₂, ?_, ?_⟩
  · rw [Storage.withSession, runAlone_bind, runAlone_attempt, hrun]
    exact hclose
  -- the end of the session changes neither the rows nor the objects
  have hcleanly : EndsCleanly r s result' s₂ ↔ EndsCleanly r s result s₁ := by
    rw [hsame]
    constructor
    · rintro ⟨hrows, hobject, hbacked⟩
      rw [hdb] at hrows hbacked
      rw [hobjects] at hobject hbacked
      exact ⟨hrows, hobject, hbacked⟩
    · rintro ⟨hrows, hobject, hbacked⟩
      rw [← hdb] at hrows hbacked
      rw [← hobjects] at hobject hbacked
      exact ⟨hrows, hobject, hbacked⟩
  rw [hcleanly]
  rcases hend with ⟨hadmitted, key, hkey, hend⟩ | ⟨hnot, -, hend⟩
  · exact endsCleanly_of_registered hkey hadmitted hend
  · exact endsCleanly_of_refused hnot hend

/-! ## A refresh that raises -/

/-- The registration of the upload, whose refresh raises. -/
def unrefreshed : RegisterCall where
  __ := registration "i"
  mishaps :=
    fun step => if step = .refresh then some ⟨.database "OperationalError" "", false⟩ else none

/-- The storage with the upload in its pending place. -/
def oneUpload : StorageState Unit where
  world := World.fresh oneSpot
  objects := fun key => if key = pendingPrefix ++ "camp/" ++ uploadName then some 1 else none

/-- The program of a registration in its session. -/
abbrev registering (r : RegisterCall) : StorageApp SpotImage :=
  Storage.withSession (registerImage Sample.settings r.now r.mishaps {} r.peer r.credentials
    r.spotUid r.imageUid r.payload)

/-- A registration in which nothing goes wrong ends cleanly. -/
theorem registers_cleanly_at_peace :
    ∃ result s', runAlone (fun i => execDepot i) () (registering (registration "i")) oneUpload =
      some (result, s') ∧ EndsCleanly (registration "i") oneUpload result s' := by
  obtain ⟨result, s', hrun, hclean⟩ := registers_cleanly_iff Sample.settings {} (registration "i")
    oneUpload rfl (fun _ _ hm => by cases hm) rfl
  refine ⟨result, s', hrun, hclean.2 ?_⟩
  intro key _
  have hnone : activeUnder key oneUpload.world.db = [] := rfl
  refine ⟨fun _ hactive => absurd hnone hactive, fun _ => ⟨fun m hm => ?_, fun _ _ => hnone,
    fun _ _ => ⟨rfl, rfl, rfl⟩⟩⟩
  cases hm

/-- A registration whose refresh raises answers an error, and has added its row. -/
theorem registers_uncleanly :
    ¬∀ (r : RegisterCall) (s : StorageState Unit), s.world.tx () = {} →
      (∀ step, ∀ m ∈ r.mishaps step, m.error.isException = true) →
      r.mishaps .rollBack = none →
      (∀ step step', (r.mishaps step).isSome → (r.mishaps step').isSome → step = step') →
      ∀ result s', runAlone (fun i => execDepot i) () (registering r) s = some (result, s') →
        EndsCleanly r s result s' := by
  intro h
  have hrun : (runAlone (fun i => execDepot i) () (registering unrefreshed) oneUpload).any
      (fun out => !out.1.isOk && decide (out.2.world.db.images.rows.length = 1)) = true := by
    decide +kernel
  obtain ⟨⟨result, s'⟩, hout, hend⟩ := (Option.any_eq_true _ _).1 hrun
  simp only [Bool.and_eq_true, Bool.not_eq_true', decide_eq_true_eq] at hend
  obtain ⟨herror, hrows⟩ := hend
  have hstep : ∀ step m, unrefreshed.mishaps step = some m →
      step = .refresh ∧ m = ⟨.database "OperationalError" "", false⟩ := by
    intro step m hm
    simp only [unrefreshed] at hm
    split at hm
    · rename_i hrefresh
      cases hm
      exact ⟨hrefresh, rfl⟩
    · cases hm
  have hclean := h unrefreshed oneUpload rfl
    (fun step m hm => by rw [(hstep step m hm).2]; rfl) rfl
    (fun step step' hs hs' => by
      obtain ⟨m, hm⟩ := Option.isSome_iff_exists.1 hs
      obtain ⟨m', hm'⟩ := Option.isSome_iff_exists.1 hs'
      rw [(hstep step m hm).1, (hstep step' m' hm').1]) result s' hout
  cases result with
  | ok image => cases herror
  | error e =>
      obtain ⟨a, ha⟩ := List.length_eq_one_iff.1 hrows
      obtain ⟨b, hb, -⟩ := hclean.rows e rfl a (ha ▸ List.mem_singleton_self a)
      cases hb

end Vivac.Images
