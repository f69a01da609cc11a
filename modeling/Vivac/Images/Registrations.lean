import Vivac.Access.ReadingChecks
import Vivac.Core.Contracts
import Vivac.Images.UploadKeys

/-!
# Registrations of images

Any number of `register_image` and `delete_image` requests and of client PUTs to presigned upload
URLs, interleaved command by command. A registration may go wrong at every step.

What holds of a pool of them: a registration commits at most the row it has made a copy for, after
its count has found room and its one HEAD the uploaded object, and it answers only after it has
deleted that object; a deletion commits a soft deletion; and clients write below the pending
prefix, registrations below the final one (`knows_call`).
-/

set_option autoImplicit false

namespace Vivac.Images

open Lib App Storage ImageRegistration

/-! ## Calls -/

/-- A `register_image` request: its time, the fresh uid of its row, and what goes wrong in it. -/
structure RegisterCall where
  now : Timestamp
  imageUid : String
  spotUid : String
  peer : Peer := {}
  credentials : Credentials
  payload : SpotImageRegister
  mishaps : Mishaps := fun _ => none

/-- A `delete_image` request. -/
structure DeleteCall where
  now : Timestamp
  spotUid : String
  imageUid : String
  credentials : Credentials

/-- A call of the pool; a client knows a presigned URL by what follows the pending prefix. -/
inductive Call where
  | register (r : RegisterCall)
  | delete (r : DeleteCall)
  | put (rest : String) (size : ℕ)

/-- `_PENDING_PREFIX`, and the folder of the final keys. -/
def pendingPrefix : String := "uploads/pending/"

def finalPrefix : String := "spots/"

namespace RegisterCall

/-- The row that the request inserts, when the final key of its upload is `key`. -/
def image (r : RegisterCall) (key : String) : SpotImage :=
  newImage r.now r.imageUid r.spotUid key r.payload

/-- The final key of the upload, if the pending key is one of the spot. -/
def finalKey? (r : RegisterCall) : Option String :=
  (SpotImages.pendingKey r.spotUid r.payload.s3Key).map (finalKey r.spotUid)

end RegisterCall

/-- The soft deletion of a row. -/
def softDeleted (now : Timestamp) : Rewrite SpotImage.uid where
  apply i := some { i with deletedAt := some now, updatedAt := some now }
  keeps h := by
    cases h
    rfl

/-- The program of a call. -/
def Call.program (cfg : Settings) (limits : ImageLimits) : Call → StorageApp Unit
  | .register r => Storage.withSession do
    let _ ← registerImage cfg r.now r.mishaps limits r.peer r.credentials r.spotUid r.imageUid
      r.payload
    return ()
  | .delete r => Storage.withSession
    (inSession (SpotImages.deleteImage cfg r.now r.credentials r.spotUid r.imageUid))
  | .put rest size => putObject (pendingPrefix ++ rest) size

/-! ## What a call knows -/

section Terms

variable {ι : Type} [DecidableEq ι]

/-- What a registration knows at its commit, which is its first: the one object that its HEAD has
found is small enough, its count has found room, it has made the one copy, of its row, and deleted
nothing. -/
structure RegisterCall.Commits (limits : ImageLimits) (r : RegisterCall)
    (w : Work Db RowKey Change) (o : Stock Db RowKey Change ℕ) : Prop where
  first : o.own.commits = []
  found : ∃ size, o.heads = [some size] ∧ size ≤ limits.maxBytes
  room : ∃ d ∈ o.own.seen, (activeImages r.spotUid d).length < limits.maxCountPerSpot
  undropped : o.dropped = []
  row : ∃ key, r.finalKey? = some key ∧ o.copied = [key] ∧
    w.write = fun d => { d with images := d.images.insert (r.image key) }

/-- What a call commits. -/
def Call.Commits (limits : ImageLimits) (w : Work Db RowKey Change)
    (o : Stock Db RowKey Change ℕ) : Call → Prop
  | .register r => r.Commits limits w o
  | .delete r => ∃ uid, w.write = rewriteImage uid (softDeleted r.now)
  | .put _ _ => False

/-- A registration asks once for its object, and copies one that is small enough below the final
prefix; a PUT goes below the pending one. -/
def Call.Issues (limits : ImageLimits) (call : Call) (o : Stock Db RowKey Change ℕ) :
    ∀ {β : Type}, StoreCmd ℕ β → Prop
  | _, .head key => ∃ r, call = .register r ∧ key = r.payload.s3Key ∧ r.finalKey?.isSome ∧
    o.heads = []
  | _, .copy _ target => (∃ r, call = .register r) ∧ (∃ rest, target = finalPrefix ++ rest) ∧
    ∃ told ∈ o.heads, ∃ size ∈ told, size ≤ limits.maxBytes
  | _, .put key _ => ∃ rest size, call = .put rest size ∧ key = pendingPrefix ++ rest
  | _, .delete _ => True

/-- A registration that has answered has deleted the pending object. -/
def Call.Ends (call : Call) (out : Except Exc Unit) (o : Stock Db RowKey Change ℕ) : Prop :=
  ∀ r, call = .register r → out.isOk = true → r.payload.s3Key ∈ o.dropped

/-- The terms of a pool of calls, under a condition on their commands. -/
def imageTerms (limits : ImageLimits) (calls : ι → Call)
    (ok : CommandGuard ι Db RowKey Change Body Exc ℕ) :
      DepotTerms ι Db RowKey Change Body Exc ℕ where
  ok := ok
  commits i w o := (calls i).Commits limits w o
  issues i o := (calls i).Issues limits o

/-- A command that asks nothing of what the session knows. -/
def Harmless : ∀ {β : Type}, StorageCommand β → Prop
  | _, .base (.sql _) => True
  | _, .base .rollback => True
  | _, .base (.get _) => True
  | _, .base (.set _ _) => True
  | _, .base (.incr _) => True
  | _, .base _ => False
  | _, .store (.delete _) => True
  | _, .store _ => False

variable {limits : ImageLimits} {calls : ι → Call}
  {ok : CommandGuard ι Db RowKey Change Body Exc ℕ} {i : ι} {o : Stock Db RowKey Change ℕ}
  {α β : Type}

/-- The logic of a pool of calls. -/
abbrev imageLogic (limits : ImageLimits) (calls : ι → Call)
    (ok : CommandGuard ι Db RowKey Change Body Exc ℕ) :
    KnowledgeLogic (depot ok) (Stock Db RowKey Change ℕ) :=
  depotLogic (imageTerms limits calls ok)

/-- A program that asks nothing may go on from whatever is known. -/
theorem knows_harmless {p : StorageApp α} (hp : p.Uses Harmless) :
    Knows (imageLogic limits calls ok) i (fun _ _ => True) p o := by
  apply Knows.of_uses (P := fun _ => True) _ hp trivial
  intro β c o hc _
  cases c with
  | base c =>
      show c.Result True (fun _ _ _ => True) _ o.own fun _ _ => True
      obtain ⟨⟨work, seen, commits⟩, heads, copied, dropped⟩ := o
      cases c with
      | sql st =>
          cases work with
          | some w => exact ⟨fun _ _ _ _ _ _ => trivial, fun _ _ _ _ _ => trivial, fun _ => trivial⟩
          | none => exact ⟨trivial, fun _ => trivial⟩
      | rollback => trivial
      | get key => exact fun _ => trivial
      | set key v => trivial
      | incr key => exact ⟨trivial, trivial⟩
      | commit => exact hc.elim
      | savepoint => exact hc.elim
      | release => exact hc.elim
      | rollbackTo => exact hc.elim
  | store c =>
      cases c with
      | delete key => exact ⟨trivial, trivial⟩
      | head key => exact hc.elim
      | copy source target => exact hc.elim
      | put key object => exact hc.elim

/-! ### Programs that ask nothing -/

theorem harmless_inSession {p : App α}
    (hp : p.Uses fun c => Harmless (.base c : StorageCommand _)) : (inSession p).Uses Harmless := by
  induction p with
  | ret a => trivial
  | raise e => trivial
  | call c k ih => exact ⟨hp.1, fun r => ih r (hp.2 r)⟩

theorem harmless_bump (cfg : Settings) (key : String) :
    (inSession (Cache.bump cfg key)).Uses Harmless := by
  apply harmless_inSession
  unfold Cache.bump
  split
  · apply Prog.Uses.tryCatch
    · exact Prog.uses_perform trivial
    · intro e
      split <;> trivial
  · trivial

theorem harmless_refreshImage (uid : String) :
    (inSession (refreshImage uid)).Uses Harmless := by
  apply harmless_inSession
  apply Prog.Uses.bind
  · exact Prog.uses_perform trivial
  · intro found
    split <;> trivial

theorem harmless_step {m : Option Mishap} {p : StorageApp α} (hp : p.Uses Harmless) :
    (step m p).Uses Harmless := by
  unfold step
  split
  · exact hp
  · split
    · exact hp.bind fun _ => trivial
    · trivial

theorem harmless_tryExcept {p : StorageApp α} {h : Exc → StorageApp α} (hp : p.Uses Harmless)
    (hh : ∀ e, (h e).Uses Harmless) : (tryExcept p h).Uses Harmless := by
  apply hp.tryCatch
  intro e
  split
  · exact hh e
  · trivial

theorem harmless_deleteObject (key : String) : (deleteObject key).Uses Harmless :=
  Prog.uses_perform trivial

theorem harmless_rollBackCopy (mishaps : Mishaps) (key : String) (e : Exc) :
    (rollBackCopy mishaps key e : StorageApp α).Uses Harmless := by
  apply Prog.Uses.bind
  · apply harmless_tryExcept
    · exact harmless_step (harmless_deleteObject key)
    · intro _
      trivial
  · intro _
    trivial

/-! ### Parts of a call -/

/-- The end of a session changes neither the result nor what is known of the store. -/
theorem knows_storageSession {Q : Except Exc α → Stock Db RowKey Change ℕ → Prop}
    {p : StorageApp α} (hQ : ∀ r o own, Q r o → Q r { o with own := own })
    (h : Knows (imageLogic limits calls ok) i Q p o) :
    Knows (imageLogic limits calls ok) i Q (Storage.withSession p) o := by
  apply Knows.attempt_bind
  refine h.mono fun r o' hr => ?_
  cases r with
  | ok a => exact hQ _ o' _ hr
  | error e => exact hQ _ o' _ hr

/-- A step knows at its end what it knows if nothing goes wrong in it. -/
theorem knows_step {Q : Except Exc α → Stock Db RowKey Change ℕ → Prop} {m : Option Mishap}
    {p : StorageApp α} (hQ : ∀ e o, Q (.error e) o)
    (h : Knows (imageLogic limits calls ok) i Q p o) :
    Knows (imageLogic limits calls ok) i Q (step m p) o := by
  unfold step
  split
  · exact h
  · split
    · apply Knows.bind
      refine h.mono fun r o' _ => ?_
      cases r with
      | ok a => exact hQ _ _
      | error e => exact hQ _ _
    · exact hQ _ _

/-- Nothing has been done yet in the session; its transaction may be over. -/
structure Untried (own : Own Db RowKey Change) : Prop where
  work : ∀ w, own.work = some w → w = {}
  commits : own.commits = []

theorem Untried.start : Untried {} := by
  refine ⟨fun w hw => ?_, rfl⟩
  cases hw
  rfl

theorem Untried.broken {own : Own Db RowKey Change} (h : Untried own) : Untried own.broken :=
  ⟨nofun, h.commits⟩

/-- Reads leave it so. -/
theorem knows_reads {Q : Except Exc α → Stock Db RowKey Change ℕ → Prop} {p : App α}
    (hp : ReadOnly p) (ho : Untried o.own)
    (h : ∀ r own, Untried own → Q r { o with own := own }) :
    Knows (imageLogic limits calls ok) i Q (inSession p) o := by
  apply Knows.base
  have hreads : ∀ own, Untried own → Knows (baseLogic (imageTerms limits calls ok) o) i
      (fun _ own => Untried own) p own := by
    intro own hown
    induction hp generalizing own with
    | ret a => exact hown
    | raise e => exact hown
    | read f k _ ih =>
        have hbroken := hown.broken
        obtain ⟨work, seen, commits⟩ := own
        cases work with
        | some w =>
            obtain rfl := hown.work w rfl
            refine ⟨fun locked d _ eff heff _ => ?_, fun locked d _ e he => ?_, fun _ => ?_⟩
            · cases heff
              apply ih
              refine ⟨fun w hw => ?_, hown.commits⟩
              simp only [Own.withWork, Option.some.injEq] at hw
              rw [← hw]
              rfl
            · cases he
            · exact ih _ _ hbroken
        | none => exact ⟨ih _ _ hown, fun _ => ih _ _ hown⟩
  exact (hreads o.own ho).mono fun r own hown => h r own hown

/-- The count is that of a database that the session has seen. -/
theorem knows_count {Q : Except Exc ℕ → Stock Db RowKey Change ℕ → Prop} {spotUid : String}
    (hQ : ∀ e o, Q (.error e) o) (ho : Untried o.own)
    (h : ∀ d own, Untried own → d ∈ own.seen →
      Q (.ok (activeImages spotUid d).length) { o with own := own }) :
    Knows (imageLogic limits calls ok) i Q (inSession (countImagesBySpot spotUid)) o := by
  apply Knows.base
  obtain ⟨⟨work, seen, commits⟩, heads, copied, dropped⟩ := o
  cases work with
  | some w =>
      obtain rfl := ho.work w rfl
      refine ⟨fun locked d _ eff heff _ => ?_, fun _ _ _ _ _ => hQ _ _, fun _ => hQ _ _⟩
      cases heff
      apply h d _ _ (List.mem_cons_self ..)
      refine ⟨fun w hw => ?_, ho.commits⟩
      simp only [Own.withWork, Option.some.injEq] at hw
      rw [← hw]
      rfl
  | none => exact ⟨hQ _ _, fun _ => hQ _ _⟩

theorem knows_tryExcept {p : StorageApp α} {handler : Exc → StorageApp α}
    (h : Knows (imageLogic limits calls ok) i (fun _ _ => True) p o)
    (hh : ∀ e, (handler e).Uses Harmless) :
    Knows (imageLogic limits calls ok) i (fun _ _ => True) (tryExcept p handler) o := by
  apply Knows.tryCatch
  refine h.mono fun r o' _ => ?_
  cases r with
  | ok a => trivial
  | error e =>
      show Knows _ i _ (if e.isException then handler e else .raise e) o'
      split
      · exact knows_harmless (hh e)
      · trivial

/-- A part of a request that is only sure to be refused. -/
theorem knows_refused {Q : Except Exc β → Stock Db RowKey Change ℕ → Prop} {p : StorageApp α}
    {e : Exc} (hQ : ∀ e o, Q (.error e) o) (hp : p.Uses Harmless) :
    Knows (imageLogic limits calls ok) i Q (p.bind fun _ => .raise e) o := by
  apply Knows.bind
  refine (knows_harmless hp).mono fun r o' _ => ?_
  cases r with
  | ok a => exact hQ _ _
  | error e => exact hQ _ _

/-- The one HEAD of a registration, which goes on with a small object only. -/
theorem knows_checkSize {Q : Except Exc Unit → Stock Db RowKey Change ℕ → Prop}
    {r : RegisterCall} (hc : calls i = .register r) (hkey : r.finalKey?.isSome)
    (ho : o.heads = []) (hQ : ∀ e o, Q (.error e) o)
    (h : ∀ size, size ≤ limits.maxBytes → Q (.ok ()) { o with heads := [some size] }) :
    Knows (imageLogic limits calls ok) i Q (checkSize r.mishaps limits r.payload.s3Key) o := by
  apply Knows.bind
  apply knows_step
  · intro e o'
    exact hQ e o'
  refine ⟨⟨r, hc, rfl, hkey, ho⟩, fun answer => ?_⟩
  rw [ho]
  cases answer with
  | none => exact hQ _ _
  | some size =>
      show Knows _ i Q (if limits.maxBytes < size then _ else _) _
      split
      · apply knows_refused hQ
        apply Prog.Uses.tryCatch
        · exact harmless_step (harmless_deleteObject _)
        · intro e
          split <;> trivial
      · rename_i hsmall
        exact h size (Nat.le_of_not_lt hsmall)

theorem readOnly_findImage (spotUid imageUid : String) :
    ReadOnly (SpotImages.findImage spotUid imageUid) := by
  apply (ReadOnly.select _).bind
  intro found
  split
  · exact .ret _
  · exact .raise _

/-- What a registration whose upload is admitted knows: its HEAD and its count have passed, and
nothing is done yet. -/
structure Admission (limits : ImageLimits) (r : RegisterCall) (key : String)
    (o : Stock Db RowKey Change ℕ) : Prop where
  untried : Untried o.own
  final : r.finalKey? = some key
  found : ∃ size, o.heads = [some size] ∧ size ≤ limits.maxBytes
  room : ∃ d ∈ o.own.seen, (activeImages r.spotUid d).length < limits.maxCountPerSpot
  undropped : o.dropped = []

/-- The checks of a registration. -/
theorem knows_checkUpload {cfg : Settings} {r : RegisterCall}
    {Q : Except Exc String → Stock Db RowKey Change ℕ → Prop} (hc : calls i = .register r)
    (hQ : ∀ e o, Q (.error e) o) {own : Own Db RowKey Change} (ho : Untried own)
    (h : ∀ key o, Admission limits r key o → o.copied = [] → Q (.ok key) o) :
    Knows (imageLogic limits calls ok) i Q
      (checkUpload cfg r.mishaps limits r.spotUid r.payload.s3Key) { own := own } := by
  apply Knows.bind
  apply knows_reads (readOnly_findSpot cfg r.spotUid) ho
  intro found own₁ hown₁
  cases found with
  | error e => exact hQ _ _
  | ok spot =>
      dsimp only
      cases hkey : SpotImages.pendingKey r.spotUid r.payload.s3Key with
      | none => exact hQ _ _
      | some key =>
          have hfinal : r.finalKey? = some (finalKey r.spotUid key) := by
            rw [RegisterCall.finalKey?, hkey]
            rfl
          apply Knows.bind
          apply knows_count
          · intro e o'
            exact hQ e o'
          · exact hown₁
          intro d own₂ hown₂ hseen
          show Knows _ i Q (if limits.maxCountPerSpot ≤ _ then _ else _) _
          split
          · exact hQ _ _
          · rename_i hroom
            apply Knows.bind
            apply knows_checkSize hc _ rfl
            · intro e o'
              exact hQ e o'
            · intro size hsmall
              exact h _ _ ⟨hown₂, hfinal, ⟨size, rfl, hsmall⟩,
                ⟨d, hseen, Nat.lt_of_not_le hroom⟩, rfl⟩ rfl
            · rw [hfinal]
              rfl

/-- The insert of a registration, and its commit. -/
theorem knows_createImage {cfg : Settings} {r : RegisterCall} (hc : calls i = .register r)
    {key : String} (ho : Admission limits r key o) (hcopied : o.copied = [key]) :
    Knows (imageLogic limits calls ok) i (fun _ _ => True)
      (ImageRegistration.createImage cfg r.now r.mishaps r.imageUid r.spotUid key r.payload) o := by
  -- after the commit nothing is asked any more
  have htail : ∀ o, Knows (imageLogic limits calls ok) i (fun _ _ => True)
      ((step (r.mishaps .refresh) (inSession (refreshImage r.imageUid))).bind fun image =>
        (inSession (Cache.bumpSpotsVersion cfg)).bind fun _ =>
        (inSession (Cache.invalidateSpotDetail cfg r.spotUid)).bind fun _ =>
        .ret image) o := by
    intro o
    apply knows_harmless
    apply (harmless_step (harmless_refreshImage r.imageUid)).bind
    intro image
    apply (harmless_bump cfg _).bind
    intro _
    apply (harmless_bump cfg _).bind
    intro _
    trivial
  have hcommit : ∀ own : Own Db RowKey Change, own.commits = [] → o.own.seen ⊆ own.seen →
      (∀ w, own.work = some w →
        w.write = fun d => { d with images := d.images.insert (r.image key) }) →
      Knows (imageLogic limits calls ok) i (fun _ _ => True)
        ((step (r.mishaps .commit) (inSession commit)).bind fun _ =>
          (step (r.mishaps .refresh) (inSession (refreshImage r.imageUid))).bind fun image =>
          (inSession (Cache.bumpSpotsVersion cfg)).bind fun _ =>
          (inSession (Cache.invalidateSpotDetail cfg r.spotUid)).bind fun _ =>
          .ret image) { o with own := own } := by
    intro own hfirst hseen hown
    apply Knows.bind
    apply knows_step
    · intro e o
      trivial
    obtain ⟨work, seen, commits⟩ := own
    cases work with
    | some w =>
        refine ⟨?_, htail _, fun _ => trivial⟩
        show Call.Commits limits w _ (calls i)
        rw [hc]
        obtain ⟨d, hd, hroom⟩ := ho.room
        exact ⟨hfirst, ho.found, ⟨d, hseen hd, hroom⟩, ho.undropped,
          ⟨key, ho.final, hcopied, hown w rfl⟩⟩
    | none => exact ⟨htail _, fun _ => trivial⟩
  apply Knows.bind
  apply knows_step
  · intro e o
    trivial
  obtain ⟨⟨work, seen, commits⟩, heads, copied, dropped⟩ := o
  cases work with
  | some w =>
      obtain rfl := ho.untried.work w rfl
      refine ⟨fun locked d' _ eff heff _ => ?_, fun _ _ _ _ _ => trivial, fun _ => trivial⟩
      apply hcommit
      · exact ho.untried.commits
      · exact List.subset_cons_self _ _
      intro w hw
      simp only [Own.withWork, Option.some.injEq] at hw
      simp only [insertImageRow] at heff
      split at heff
      · cases heff
      split at heff
      · cases heff
      cases heff
      rw [← hw]
      rfl
  | none => exact ⟨trivial, fun _ => trivial⟩

/-- The places of an upload: below the pending prefix, and with the same rest below the final
one. -/
theorem finalKey?_eq {r : RegisterCall} {key : String} (h : r.finalKey? = some key) :
    ∃ rest, r.payload.s3Key = pendingPrefix ++ rest ∧ key = finalPrefix ++ rest := by
  obtain ⟨k, hk, rfl⟩ := Option.map_eq_some_iff.1 h
  refine ⟨r.spotUid ++ "/" ++ k, ?_, ?_⟩
  · have hprefix : pendingPrefix = "uploads/pending" ++ "/" := by decide +kernel
    rw [(SpotImages.pendingKey_eq_some_iff.1 hk).2, hprefix]
    simp only [String.append_assoc]
  · rw [finalKey, finalPrefix]
    simp only [String.append_assoc]

theorem finalKey?_below {r : RegisterCall} {key : String} (h : r.finalKey? = some key) :
    ∃ rest, key = finalPrefix ++ rest := by
  obtain ⟨rest, -, hfinal⟩ := finalKey?_eq h
  exact ⟨rest, hfinal⟩

theorem pending_ne_final (a b : String) : pendingPrefix ++ a ≠ finalPrefix ++ b := by
  intro h
  have hhead := congrArg (fun t : String => t.toList.head?) h
  simp [pendingPrefix, finalPrefix] at hhead

/-- A registration ends well only after the deletion of the pending object. -/
theorem knows_register {cfg : Settings} {r : RegisterCall} (hc : calls i = .register r) :
    Knows (imageLogic limits calls ok) i
      (fun out o => out.isOk = true → r.payload.s3Key ∈ o.dropped)
      ((Call.register r).program cfg limits) {} := by
  apply knows_storageSession
  · intro out o own hout
    exact hout
  apply Knows.bind
  apply Knows.bind
  apply knows_reads (readOnly_requireStaff r.credentials) Untried.start
  intro staff own hown
  cases staff with
  | error e => exact nofun
  | ok user =>
      apply Knows.bind
      apply knows_reads (readOnly_checkRateLimit _ r.peer r.credentials) hown
      intro within own₁ hown₁
      cases within with
      | error e => exact nofun
      | ok _ =>
          apply Knows.bind
          apply knows_checkUpload hc (fun _ _ => nofun) hown₁
          intro key o ho hnocopy
          apply Knows.bind
          apply knows_step
          · intro e o'
            exact nofun
          refine ⟨⟨⟨r, hc⟩, finalKey?_below ho.final, ?_⟩, ?_, nofun⟩
          · obtain ⟨size, hheads, hsmall⟩ := ho.found
            rw [hheads]
            exact ⟨_, List.mem_singleton_self _, size, rfl, hsmall⟩
          have hadmitted : Admission limits r key { o with copied := key :: o.copied } :=
            ⟨ho.untried, ho.final, ho.found, ho.room, ho.undropped⟩
          apply Knows.bind
          refine Knows.mono (knows_tryExcept (knows_createImage hc hadmitted ?_) fun e =>
            harmless_rollBackCopy r.mishaps key e) ?_
          · rw [hnocopy]
          intro created o' _
          cases created with
          | error e => exact nofun
          | ok image =>
              apply Knows.bind
              apply knows_step
              · intro e o''
                exact nofun
              exact ⟨trivial, fun _ => List.mem_cons_self ..⟩

/-- The flush of `deleted_at`, and its commit. -/
theorem knows_deleteImage {cfg : Settings} {r : DeleteCall} (hc : calls i = .delete r)
    (image : SpotImage) {own : Own Db RowKey Change} (ho : Untried own) :
    Knows (imageLogic limits calls ok) i (fun _ _ => True)
      (inSession (Vivac.deleteImage cfg r.now image)) { o with own := own } := by
  -- after the commit nothing is asked any more
  have htail : ∀ o, Knows (imageLogic limits calls ok) i (fun _ _ => True)
      (inSession ((Cache.bumpSpotsVersion cfg).bind fun _ =>
        Cache.invalidateSpotDetail cfg image.spotUid)) o := by
    intro o
    apply knows_harmless
    rw [inSession, Prog.via_bind]
    apply (harmless_bump cfg _).bind
    intro _
    exact harmless_bump cfg _
  obtain ⟨work, seen, commits⟩ := own
  cases work with
  | none => exact ⟨trivial, fun _ => trivial⟩
  | some w =>
      obtain rfl := ho.work w rfl
      refine ⟨fun locked d _ eff heff _ => ?_, fun _ _ _ _ _ => trivial, fun _ => trivial⟩
      simp only [updateImageRow] at heff
      split at heff
      · cases heff
        trivial
      split at heff
      · cases heff
      cases heff
      refine ⟨?_, htail _, fun _ => trivial⟩
      show Call.Commits limits _ _ (calls i)
      rw [hc]
      exact ⟨image.uid, rfl⟩

/-- A deletion commits its soft deletion. -/
theorem knows_delete {cfg : Settings} {r : DeleteCall} (hc : calls i = .delete r) :
    Knows (imageLogic limits calls ok) i (fun _ _ => True)
      ((Call.delete r).program cfg limits) {} := by
  have hprogram : inSession (SpotImages.deleteImage cfg r.now r.credentials r.spotUid r.imageUid) =
      (inSession (requireStaff r.credentials)).bind fun _ =>
        (inSession (SpotImages.findImage r.spotUid r.imageUid)).bind fun image =>
          inSession (Vivac.deleteImage cfg r.now image) := by
    simp only [SpotImages.deleteImage, inSession, Prog.bind_eq_bind, Prog.via_bind]
  apply knows_storageSession
  · intro _ _ _ _
    trivial
  rw [hprogram]
  apply Knows.bind
  apply knows_reads (readOnly_requireStaff r.credentials) Untried.start
  intro staff own hown
  cases staff with
  | error e => trivial
  | ok user =>
      apply Knows.bind
      apply knows_reads (readOnly_findImage r.spotUid r.imageUid) hown
      intro found own₁ hown₁
      cases found with
      | error e => trivial
      | ok image => exact knows_deleteImage hc image hown₁

/-- What every call of the pool knows. -/
theorem knows_call (cfg : Settings) :
    Knows (imageLogic limits calls ok) i (calls i).Ends ((calls i).program cfg limits) {} := by
  cases hc : calls i with
  | register r =>
      refine (knows_register hc).mono fun out o hout r' hr hok => ?_
      cases hr
      exact hout hok
  | delete r => exact (knows_delete hc).mono fun _ _ _ _ hr => nomatch hr
  | put rest size => exact ⟨⟨rest, size, hc, rfl⟩, fun _ hr => nomatch hr⟩

/-- A pool of calls knows what it commits, and what it issues to the storage. -/
theorem allAware_calls {cfg : Settings}
    {c : Config ι Exc StorageCommand (StorageState ι) Unit} (hunused : Unused c.state)
    (hc : ∀ i, c.thread i = (calls i).program cfg limits) :
    AllAware (imageLogic limits calls ok) (fun i => (calls i).Ends) c := by
  apply AllAware.of_unused hunused
  intro i
  have hknows : Knows (imageLogic limits calls ok) i (calls i).Ends
      ((calls i).program cfg limits) {} := knows_call cfg
  rw [hc i]
  exact hknows

end Terms

/-! ## Rows -/

section Rows

variable {d : Db}

/-- A row after a soft deletion is a row before it, or deleted. -/
theorem mem_softDeleted {uid : String} {now : Timestamp} {a : SpotImage}
    (h : a ∈ (rewriteImage uid (softDeleted now) d).images.rows) (hactive : a.deletedAt = none) :
    a ∈ d.images.rows := by
  obtain ⟨b, hb, rfl⟩ := List.mem_map.1 h
  split at hactive
  · cases hactive
  · rename_i hother
    rw [if_neg hother]
    exact hb

end Rows

end Vivac.Images
