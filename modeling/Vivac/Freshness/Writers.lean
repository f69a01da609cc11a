import Vivac.Core.Contracts
import Vivac.Crud.SpotImage
import Vivac.Crud.SpotReview
import Vivac.Freshness.CacheInvariant

/-!
# The writers of cached data

A writer owes a raise of each version its changes affect: of the changes it has not
committed yet (`pending`), and of those it has committed (`owed`). A commit turns what
is pending into what is owed, a raise pays one version off, and a writer that returns
owes nothing (`Writer.triple_call`).
-/

set_option autoImplicit false

namespace Vivac

open Lib App

/-- A call that changes what the public reads show. -/
inductive Writer where
  | updateSpot (identity : Option Spot) (uid : String) (data : List SpotAttr)
  | deleteSpot (spot : Spot)
  | restoreSpot (spot : Spot)
  | updatePipelineStatusBulk (uids : List String) (status : PipelineStatus)
  | decayStaleTrustTiers (thresholdDays : ℤ)
  | createImage (imageUid spotUid s3Key : String) (role : SpotImageRole) (sortOrder : ℤ)
      (isPublic : Bool) (contentType : Option String)
  | updateImage (image : SpotImage) (data : List ImageAttr)
  | deleteImage (image : SpotImage)
  | createReview (reviewUid spotUid userUid : String) (rating : ℤ) (content : Option String)
  | updateReview (review : SpotReview) (data : List ReviewAttr)
  | softDeleteReview (review : SpotReview)

/-- The versions of the list and map bodies and of a spot's detail body. -/
def listAndDetail (uid : String) : List String :=
  [Cache.spotsVersionKey, Cache.spotDetailVersionKey uid]

namespace Writer

/-- The call itself. -/
def call (cfg : Settings) (be : Backend) (now : Timestamp) : Writer → App Unit
  | .updateSpot identity uid data =>
    (Vivac.updateSpot cfg be now identity uid data).bind fun _ => .ret ()
  | .deleteSpot spot => Vivac.deleteSpot cfg be now spot
  | .restoreSpot spot => (Vivac.restoreSpot cfg be now spot).bind fun _ => .ret ()
  | .updatePipelineStatusBulk uids status =>
    (Vivac.updatePipelineStatusBulk cfg be now uids status).bind fun _ => .ret ()
  | .decayStaleTrustTiers days =>
    (Vivac.decayStaleTrustTiers cfg be now days).bind fun _ => .ret ()
  | .createImage imageUid spotUid s3Key role sortOrder isPublic contentType =>
    (Vivac.createImage cfg now imageUid spotUid s3Key role sortOrder isPublic contentType).bind
      fun _ => .ret ()
  | .updateImage image data => (Vivac.updateImage cfg now image data).bind fun _ => .ret ()
  | .deleteImage image => Vivac.deleteImage cfg now image
  | .createReview reviewUid spotUid userUid rating content =>
    (Vivac.createReview cfg be now reviewUid spotUid userUid rating content).bind fun _ => .ret ()
  | .updateReview review data =>
    (Vivac.updateReview cfg be now review data).bind fun _ => .ret ()
  | .softDeleteReview review => Vivac.softDeleteReview cfg be now review

/-- The versions of the bodies a change of the call affects. A review shows in its spot's
detail only, and only through the rating; of the decay only a lowered tier shows. -/
def affects : Writer → Change → List String
  | .updateSpot _ uid _, _ => listAndDetail uid
  | .deleteSpot spot, _ => listAndDetail spot.uid
  | .restoreSpot spot, _ => listAndDetail spot.uid
  | .updatePipelineStatusBulk _ _, .spot uid _ => listAndDetail uid
  | .decayStaleTrustTiers _, .spot uid columns =>
    if "trust_tier" ∈ columns then listAndDetail uid else []
  | .createImage _ spotUid _ _ _ _ _, _ => listAndDetail spotUid
  | .updateImage image _, _ => listAndDetail image.spotUid
  | .deleteImage image, _ => listAndDetail image.spotUid
  | .createReview _ spotUid _ _ _, _ => [Cache.spotDetailVersionKey spotUid]
  | .updateReview review data, _ =>
    if data.any ReviewAttr.isRating then [Cache.spotDetailVersionKey review.spotUid] else []
  | .softDeleteReview review, _ => [Cache.spotDetailVersionKey review.spotUid]
  | _, _ => []

end Writer

/-! ## What a writer owes -/

section Ledger

variable {ι : Type} [DecidableEq ι] {ok : ι → State ι → State ι → Prop}

/-- Session `i` has uncommitted changes that affect only `pending`, and each version its
commits affected is in `owed` or was raised since. -/
structure Ledger (w : Writer) (pending owed : List String) (i : ι) (s : State ι) : Prop where
  pending : ∀ ch ∈ (s.tx i).work.changes, ∀ vk ∈ w.affects ch, vk ∈ pending
  owed : ∀ t chs, s.At t ⟨i, .commit chs⟩ → ∀ ch ∈ chs, ∀ vk ∈ w.affects ch,
    vk ∈ owed ∨ ∃ n tb, t < tb ∧ RaisedAt vk n tb s

variable {w : Writer} {pending owed : List String} {i : ι}

omit [DecidableEq ι] in
theorem Ledger.mono {pending' owed' : List String} {s : State ι} (h : Ledger w pending owed i s)
    (hp : pending ⊆ pending') (ho : owed ⊆ owed') : Ledger w pending' owed' i s := by
  refine ⟨fun ch hch vk hvk => hp (h.pending ch hch vk hvk), ?_⟩
  intro t chs hat ch hch vk hvk
  rcases h.owed t chs hat ch hch vk hvk with hin | hraised
  · exact .inl (ho hin)
  · exact .inr hraised

omit [DecidableEq ι] in
/-- A step of the world without a commit of session `i`. -/
theorem Ledger.step {pending' : List String} {s s' : State ι} (h : Ledger w pending owed i s)
    (hT : VersionStep s s')
    (hcommit : ∀ t chs, s'.At t ⟨i, .commit chs⟩ → s.At t ⟨i, .commit chs⟩)
    (hpending : ∀ ch ∈ (s'.tx i).work.changes, ∀ vk ∈ w.affects ch, vk ∈ pending') :
    Ledger w pending' owed i s' := by
  refine ⟨hpending, ?_⟩
  intro t chs hat ch hch vk hvk
  rcases h.owed t chs (hcommit t chs hat) ch hch vk hvk with hin | ⟨n, tb, htb, hraised⟩
  · exact .inl hin
  · exact .inr ⟨n, tb, htb, hT.kept vk n tb hraised⟩

omit [DecidableEq ι] in
theorem stable_ledger :
    Stable (sessionContract CacheInvariant VersionStep) i (Ledger w pending owed i) := by
  rintro s s' - ⟨hund, hT⟩ h
  refine h.step hT (fun t chs hat => hund.at_of_own hat rfl) ?_
  rcases hund.tx with ⟨htx, -⟩ | hlost
  · rw [htx]
    exact h.pending
  · rw [hlost]
    simp

omit [DecidableEq ι] in
/-- Recording anything but a commit adds no commit. -/
theorem commit_of_log {s : State ι} {a : Action Change} (ha : ∀ chs, a ≠ .commit chs) {t : ℕ}
    {chs : List Change} (h : (s.log i a).At t ⟨i, .commit chs⟩) : s.At t ⟨i, .commit chs⟩ := by
  rcases World.at_log.1 h with h | ⟨-, he⟩
  · exact h
  · cases he
    exact absurd rfl (ha chs)

/-- A statement adds what its changes affect to what is pending. -/
theorem triple_execute {R : Type} {st : Statement R} (pending' : R → List String)
    (hpending : ∀ r, pending ⊆ pending' r)
    (hst : ∀ locked d eff, st locked d = .ok eff → ∀ ch ∈ eff.changes, ∀ vk ∈ w.affects ch,
      vk ∈ pending' eff.result) :
    Triple (sessions ok) (sessionContract CacheInvariant VersionStep) i (Ledger w pending owed i)
      (execute st) (Returns fun r => Ledger w (pending' r) owed i) := by
  refine Triple.command stable_ledger (fun r => ?_) fun s r s' hi h hexec _ => ?_
  · cases r with
    | ok a => exact stable_ledger
    | error e => exact fun _ _ _ _ _ => trivial
  · obtain ⟨hinv, hT⟩ := keeps_cacheInvariant hi (c := .sql st) trivial hexec
    refine ⟨hinv, hT, ?_⟩
    rcases exec_sql_cases hexec with ⟨-, ⟨e, rfl⟩, -⟩ | ⟨-, e, -, rfl, -⟩ | ⟨-, eff,
      heff, -, rfl, rfl⟩
    · trivial
    · trivial
    · refine h.step hT (fun t chs hat => commit_of_log (by simp) hat) ?_
      intro ch hch vk hvk
      simp only [World.setTx, Function.update_self, List.mem_append] at hch
      rcases hch with hch | hch
      · exact hpending _ (h.pending ch hch vk hvk)
      · exact hst _ _ eff heff ch hch vk hvk

/-- Statements keep the ledger when nothing but `pending` can be affected at all. -/
theorem triple_statements {α : Type} {p : App α} (hp : SqlOnly p)
    (hall : ∀ ch, ∀ vk ∈ w.affects ch, vk ∈ pending) :
    Triple (sessions ok) (sessionContract CacheInvariant VersionStep) i (Ledger w pending owed i)
      p (Returns fun _ => Ledger w pending owed i) := by
  refine (Triple.sqlOnly hp stable_ledger ?_).conseq (fun _ _ h => h) fun r s _ h => ?_
  · intro R st s r s' hi h hexec _
    obtain ⟨hinv, hT⟩ := keeps_cacheInvariant hi (c := .sql st) trivial hexec
    refine ⟨hinv, hT, ?_⟩
    rcases exec_sql_cases hexec with ⟨-, -, rfl⟩ | ⟨-, e, -, -, rfl⟩ | ⟨-, eff, -, -, -, rfl⟩
    · exact h
    · exact h.step hT (fun t chs hat => commit_of_log (by simp) hat) fun ch _ => hall ch
    · exact h.step hT (fun t chs hat => commit_of_log (by simp) hat) fun ch _ => hall ch
  · cases r with
    | ok a => exact h
    | error e => trivial

/-- Reading keeps the ledger. -/
theorem triple_reads {α : Type} {p : App α} (hp : ReadOnly p) :
    Triple (sessions ok) (sessionContract CacheInvariant VersionStep) i (Ledger w pending owed i)
      p (Returns fun _ => Ledger w pending owed i) := by
  refine (Triple.readOnly hp stable_ledger ?_).conseq (fun _ _ h => h) fun r s _ h => ?_
  · intro R f s r s' hi h hexec _
    obtain ⟨hinv, hT⟩ := keeps_cacheInvariant hi (c := .sql (Stmt.read f)) trivial hexec
    refine ⟨hinv, hT, ?_⟩
    rcases exec_sql_cases hexec with ⟨-, -, rfl⟩ | ⟨-, e, he, -, -⟩ | ⟨-, eff, heff, -, -, rfl⟩
    · exact h
    · cases he
    · cases heff
      refine h.step hT (fun t chs hat => commit_of_log (by simp) hat) ?_
      intro ch hch vk hvk
      simp only [World.setTx, Function.update_self, List.append_nil] at hch
      exact h.pending ch hch vk hvk
  · cases r with
    | ok a => exact h
    | error e => trivial

/-- A commit turns what is pending into what is owed. -/
theorem triple_commit :
    Triple (sessions ok) (sessionContract CacheInvariant VersionStep) i (Ledger w pending [] i)
      commit (Returns fun _ => Ledger w [] pending i) := by
  refine Triple.command stable_ledger (fun r => ?_) fun s r s' hi h hexec _ => ?_
  · cases r with
    | ok a => exact stable_ledger
    | error e => exact fun _ _ _ _ _ => trivial
  · obtain ⟨hinv, hT⟩ := keeps_cacheInvariant hi (c := .commit) trivial hexec
    refine ⟨hinv, hT, ?_⟩
    have hempty : ∀ t : State ι, ((endTx i t).tx i).work.changes = [] := fun t => by
      simp [endTx, World.setTx]
    rcases exec_commit_cases hexec with ⟨-, rfl, rfl⟩ | ⟨-, rfl, rfl⟩ | ⟨-, ⟨e, rfl⟩, -⟩
    · refine ⟨fun ch hch => by simp [execCommit, hempty] at hch, ?_⟩
      intro t chs hat ch hch vk hvk
      rcases World.at_log.1 (show (World.log _ i _).At t _ from hat) with hat | ⟨-, he⟩
      · rcases h.owed t chs hat ch hch vk hvk with hin | ⟨n, tb, htb, hraised⟩
        · cases hin
        · exact .inr ⟨n, tb, htb, hT.kept vk n tb hraised⟩
      · cases he
        exact .inl (h.pending ch hch vk hvk)
    · have hnone : Ledger w [] [] i (endTx i (s.log i .rollback)) := by
        refine h.step hT (fun t chs hat => commit_of_log (by simp) hat) ?_
        intro ch hch
        simp [hempty] at hch
      exact hnone.mono (List.Subset.refl _) (List.nil_subset _)
    · trivial

variable {cfg : Settings}

/-- A raise pays one version off. -/
theorem triple_bump (hcfg : cfg.redisUrl = true) {vk : String} (hvk : Cache.IsVersionKey vk) :
    Triple (sessions ok) (sessionContract CacheInvariant VersionStep) i
      (Ledger w pending (vk :: owed) i) (Cache.bump cfg vk)
      (Returns fun _ => Ledger w pending owed i) := by
  have hincr : Triple (sessions ok) (sessionContract CacheInvariant VersionStep) i
      (Ledger w pending (vk :: owed) i) (.perform (.incr vk) : App Unit) fun r s =>
        match r with
        | .ok _ => Ledger w pending owed i s
        | .error _ => False := by
    refine Triple.command stable_ledger (fun r => ?_) fun s r s' hi h hexec _ => ?_
    · cases r with
      | ok a => exact stable_ledger
      | error e => exact fun _ _ _ _ h => h.elim
    · obtain ⟨hinv, hT⟩ := keeps_cacheInvariant hi (c := .incr vk) trivial hexec
      refine ⟨hinv, hT, ?_⟩
      rcases exec_incr_cases hexec with ⟨v, p, hbody, -, -⟩ | ⟨-, rfl, rfl⟩
      · exact absurd hbody (hi.no_body vk hvk v p)
      · refine ⟨h.pending, ?_⟩
        intro t chs hat ch hch vk' hvk'
        have hold : s.At t ⟨i, .commit chs⟩ := commit_of_log (by simp) hat
        rcases h.owed t chs hold ch hch vk' hvk' with hin | ⟨n, tb, htb, hraised⟩
        · rcases List.mem_cons.1 hin with rfl | hin
          · refine .inr ⟨s.counter vk' + 1, s.clock, World.lt_clock_of_at hold, ?_⟩
            exact raisedAt_log_incr.2 (.inr ⟨rfl, rfl, rfl⟩)
          · exact .inl hin
        · exact .inr ⟨n, tb, htb, hT.kept vk' n tb hraised⟩
  have hfits : (sessionContract CacheInvariant VersionStep).Fits
      (sessions ok : System ι Exc Command (State ι)) :=
        sessionContract_fits sharedStep_cacheInvariant
  unfold Cache.bump
  rw [if_pos hcfg]
  refine Triple.tryCatch hfits _ hincr (fun a => ?_) fun e => fun _ _ h => h.elim
  exact Triple.ret_returns stable_ledger fun _ _ h => h

/-- Every version a commit of session `i` affected was raised after it. -/
def Settled (w : Writer) (i : ι) (s : State ι) : Prop :=
  ∀ t chs, s.At t ⟨i, .commit chs⟩ → ∀ ch ∈ chs, ∀ vk ∈ w.affects ch,
    ∃ n tb, t < tb ∧ RaisedAt vk n tb s

omit [DecidableEq ι] in
theorem Ledger.settled {s : State ι} (h : Ledger w pending [] i s) : Settled w i s := by
  intro t chs hat ch hch vk hvk
  rcases h.owed t chs hat ch hch vk hvk with hin | hraised
  · cases hin
  · exact hraised

omit [DecidableEq ι] in
theorem stable_settled : Stable (sessionContract CacheInvariant VersionStep) i (Settled w i) := by
  rintro s s' - ⟨hund, hT⟩ h t chs hat ch hch vk hvk
  obtain ⟨n, tb, htb, hraised⟩ := h t chs (hund.at_of_own hat rfl) ch hch vk hvk
  exact ⟨n, tb, htb, hT.kept vk n tb hraised⟩

/-- A call that returns with nothing owed. -/
theorem triple_return {α : Type} (a : α) :
    Triple (sessions ok) (sessionContract CacheInvariant VersionStep) i (Ledger w pending [] i)
      (.ret a : App α) (Returns fun _ => Settled w i) :=
  Triple.ret_returns stable_ledger fun _ _ h => h.settled

/-- A call that ends with its last raise. -/
theorem triple_lastBump (hcfg : cfg.redisUrl = true) {vk : String} (hvk : Cache.IsVersionKey vk) :
    Triple (sessions ok) (sessionContract CacheInvariant VersionStep) i (Ledger w pending [vk] i)
      (Cache.bump cfg vk) (Returns fun _ => Settled w i) := by
  refine (triple_bump hcfg hvk).conseq (fun _ _ h => h) fun r s _ h => ?_
  cases r with
  | ok a => exact Ledger.settled h
  | error e => trivial

end Ledger

/-! ## The statements of the writers -/

section Statements

variable (be : Backend) (now : Timestamp)

theorem sqlOnly_flushSpot (loaded : Spot) (data : List SpotAttr) :
    SqlOnly (flushSpot be now loaded data) := by
  unfold flushSpot
  dsimp only
  split
  · exact .ret _
  · refine (SqlOnly.execute _).bind fun uids => ?_
    split
    · exact .raise _
    · exact .ret _

theorem sqlOnly_flushImage (loaded : SpotImage) (data : List ImageAttr) :
    SqlOnly (flushImage now loaded data) := by
  unfold flushImage
  dsimp only
  split
  · exact .ret _
  · refine (SqlOnly.execute _).bind fun found => ?_
    split
    · exact .ret _
    · exact .raise _

theorem sqlOnly_flushReview (loaded : SpotReview) (data : List ReviewAttr) :
    SqlOnly (flushReview now loaded data) := by
  unfold flushReview
  dsimp only
  split
  · exact .ret _
  · split
    · refine (SqlOnly.execute _).bind fun found => ?_
      split
      · exact .ret _
      · exact .raise _
    · exact .raise _

theorem sqlOnly_recalculateSpotRating (spotUid : String) :
    SqlOnly (recalculateSpotRating be now spotUid) :=
  (ReadOnly.select _).sqlOnly.bind fun _ => (SqlOnly.execute _).bind fun _ => .ret _

theorem readOnly_refreshSpot (uid : String) : ReadOnly (refreshSpot uid) := by
  refine (ReadOnly.select _).bind fun found => ?_
  cases found with
  | some s => exact .ret _
  | none => exact .raise _

theorem readOnly_refreshImage (uid : String) : ReadOnly (refreshImage uid) := by
  refine (ReadOnly.select _).bind fun found => ?_
  cases found with
  | some i => exact .ret _
  | none => exact .raise _

theorem readOnly_refreshReview (uid : String) : ReadOnly (refreshReview uid) := by
  refine (ReadOnly.select _).bind fun found => ?_
  cases found with
  | some r => exact .ret _
  | none => exact .raise _

/-- The changes of a spot update: its rows, with the columns it sets. -/
theorem changes_updateSpots {p : Spot → Bool} {f : Rewrite Spot.uid} {columns : List String}
    {locked : RowKey → Bool} {d : Db} {eff : Effect Db RowKey Change (List String)}
    (h : updateSpots be p f columns locked d = .ok eff) :
    eff.changes = eff.result.map fun u => Change.spot u columns := by
  simp only [updateSpots] at h
  split at h
  · cases h
  · cases h
    rfl

/-- The rows of a spot update are rows that meet its condition. -/
theorem result_updateSpots {p : Spot → Bool} {f : Rewrite Spot.uid} {columns : List String}
    {locked : RowKey → Bool} {d : Db} {eff : Effect Db RowKey Change (List String)}
    (h : updateSpots be p f columns locked d = .ok eff) :
    eff.result = (d.spots.select p).map Spot.uid := by
  simp only [updateSpots] at h
  split at h
  · cases h
  · cases h
    rfl

end Statements

/-! ## The writers -/

section Calls

variable {ι : Type} [DecidableEq ι] {ok : ι → State ι → State ι → Prop} {i : ι} {w : Writer}
  {cfg : Settings} (be : Backend) (now : Timestamp)

theorem cacheFits : (sessionContract CacheInvariant VersionStep).Fits
    (sessions ok : System ι Exc Command (State ι)) := sessionContract_fits sharedStep_cacheInvariant

/-- Nothing is owed at first, so anything may be taken as what will be pending. -/
theorem triple_start {α : Type} {p : App α} {Q : Except Exc α → State ι → Prop}
    (keys : List String)
    (h : Triple (sessions ok) (sessionContract CacheInvariant VersionStep) i
      (Ledger w keys [] i) p Q) :
    Triple (sessions ok) (sessionContract CacheInvariant VersionStep) i (Ledger w [] [] i) p Q :=
  h.conseq (fun _ _ hl => hl.mono (List.nil_subset _) (List.Subset.refl _)) fun _ _ _ h => h

/-- Raise the list version, then the detail version of one spot. -/
theorem triple_bumpBoth (hcfg : cfg.redisUrl = true) (uid : String) :
    Triple (sessions ok) (sessionContract CacheInvariant VersionStep) i
      (Ledger w [] (listAndDetail uid) i)
      ((Cache.bumpSpotsVersion cfg).bind fun _ => Cache.invalidateSpotDetail cfg uid)
      (Returns fun _ => Settled w i) := by
  refine Triple.bind_returns cacheFits _ (triple_bump hcfg (.inl rfl)) fun _ => ?_
  exact triple_lastBump hcfg (.inr ⟨uid, rfl⟩)

/-- The same, with a value to return. -/
theorem triple_bumpBoth_return {α : Type} (hcfg : cfg.redisUrl = true) (uid : String) (a : α) :
    Triple (sessions ok) (sessionContract CacheInvariant VersionStep) i
      (Ledger w [] (listAndDetail uid) i)
      ((Cache.bumpSpotsVersion cfg).bind fun _ =>
        (Cache.invalidateSpotDetail cfg uid).bind fun _ => .ret a)
      (Returns fun _ => Settled w i) := by
  refine Triple.bind_returns cacheFits _ (triple_bump hcfg (.inl rfl)) fun _ => ?_
  refine Triple.bind_returns cacheFits _ (triple_bump hcfg (.inr ⟨uid, rfl⟩)) fun _ => ?_
  exact triple_return a

theorem triple_updateSpot (hcfg : cfg.redisUrl = true) {uid : String}
    (hw : ∀ ch, ∀ vk ∈ w.affects ch, vk ∈ listAndDetail uid) (identity : Option Spot)
    (data : List SpotAttr) :
    Triple (sessions ok) (sessionContract CacheInvariant VersionStep) i (Ledger w [] [] i)
      (updateSpot cfg be now identity uid data) (Returns fun _ => Settled w i) := by
  refine triple_start (listAndDetail uid) ?_
  refine Triple.bind_returns cacheFits _
    (triple_statements (ReadOnly.select _).sqlOnly hw) fun found => ?_
  cases found with
  | none => exact triple_return none
  | some row =>
    refine Triple.bind_returns cacheFits _
      (triple_statements (sqlOnly_flushSpot be now _ data) hw) fun _ => ?_
    refine Triple.bind_returns cacheFits _ triple_commit fun _ => ?_
    refine Triple.bind_returns cacheFits _ (triple_reads (readOnly_refreshSpot uid)) fun spot => ?_
    exact triple_bumpBoth_return hcfg uid (some spot)

theorem triple_deleteSpot (hcfg : cfg.redisUrl = true) {spot : Spot}
    (hw : ∀ ch, ∀ vk ∈ w.affects ch, vk ∈ listAndDetail spot.uid) :
    Triple (sessions ok) (sessionContract CacheInvariant VersionStep) i (Ledger w [] [] i)
      (deleteSpot cfg be now spot) (Returns fun _ => Settled w i) := by
  refine triple_start (listAndDetail spot.uid) ?_
  refine Triple.bind_returns cacheFits _ (triple_statements (SqlOnly.execute _) hw) fun _ => ?_
  refine Triple.bind_returns cacheFits _ triple_commit fun _ => ?_
  exact triple_bumpBoth hcfg spot.uid

theorem triple_restoreSpot (hcfg : cfg.redisUrl = true) {spot : Spot}
    (hw : ∀ ch, ∀ vk ∈ w.affects ch, vk ∈ listAndDetail spot.uid) :
    Triple (sessions ok) (sessionContract CacheInvariant VersionStep) i (Ledger w [] [] i)
      (restoreSpot cfg be now spot) (Returns fun _ => Settled w i) := by
  refine triple_start (listAndDetail spot.uid) ?_
  refine Triple.bind_returns cacheFits _ (triple_statements (SqlOnly.execute _) hw) fun _ => ?_
  refine Triple.bind_returns cacheFits _ triple_commit fun _ => ?_
  refine Triple.bind_returns cacheFits _ (triple_reads (readOnly_refreshSpot _)) fun fresh => ?_
  exact triple_bumpBoth_return hcfg spot.uid fresh

/-- Raise the list version, then the detail versions of the spots. -/
theorem triple_invalidateSpots {α : Type} (hcfg : cfg.redisUrl = true) (uids : List String)
    (a : α) :
    Triple (sessions ok) (sessionContract CacheInvariant VersionStep) i
      (Ledger w [] (Cache.spotsVersionKey :: uids.map Cache.spotDetailVersionKey) i)
      ((invalidateSpots cfg uids).bind fun _ => .ret a) (Returns fun _ => Settled w i) := by
  have hloop : ∀ uids : List String,
      Triple (sessions ok) (sessionContract CacheInvariant VersionStep) i
        (Ledger w [] (uids.map Cache.spotDetailVersionKey) i)
        (forEach (Cache.invalidateSpotDetail cfg) uids) (Returns fun _ => Ledger w [] [] i) := by
    intro uids
    induction uids with
    | nil => exact Triple.ret_returns stable_ledger fun _ _ h => h
    | cons uid uids ih =>
      exact Triple.bind_returns cacheFits _ (triple_bump hcfg (.inr ⟨uid, rfl⟩)) fun _ => ih
  refine Triple.bind_returns cacheFits (fun _ => Ledger w [] [] i) ?_ fun _ => triple_return a
  exact Triple.bind_returns cacheFits _ (triple_bump hcfg (.inl rfl)) fun _ => hloop uids

theorem triple_updatePipelineStatusBulk (hcfg : cfg.redisUrl = true)
    (hw : ∀ uid columns, ∀ vk ∈ w.affects (.spot uid columns), vk ∈ listAndDetail uid)
    (uids : List String) (status : PipelineStatus) :
    Triple (sessions ok) (sessionContract CacheInvariant VersionStep) i (Ledger w [] [] i)
      (updatePipelineStatusBulk cfg be now uids status) (Returns fun _ => Settled w i) := by
  refine Triple.bind_returns cacheFits _ (triple_reads (ReadOnly.select _)) fun found => ?_
  split
  · exact triple_return []
  · refine Triple.bind_returns cacheFits _ (triple_execute
      (fun _ => Cache.spotsVersionKey :: found.map Cache.spotDetailVersionKey)
      (fun _ => List.nil_subset _) ?_) fun _ => ?_
    · -- the rows changed are among those found
      intro locked d eff heff ch hch vk hvk
      rw [changes_updateSpots be heff] at hch
      obtain ⟨uid, huid, rfl⟩ := List.mem_map.1 hch
      rw [result_updateSpots be heff] at huid
      obtain ⟨s, hs, rfl⟩ := List.mem_map.1 huid
      have hfound : s.uid ∈ found := by simpa using (Table.mem_select.1 hs).2
      rcases List.mem_cons.1 (hw _ _ vk hvk) with rfl | hvk
      · exact List.mem_cons_self ..
      · rw [List.mem_singleton.1 hvk]
        exact List.mem_cons_of_mem _ (List.mem_map_of_mem hfound)
    · refine Triple.bind_returns cacheFits _ triple_commit fun _ => ?_
      exact triple_invalidateSpots hcfg found found

theorem triple_decayStaleTrustTiers (hcfg : cfg.redisUrl = true)
    (hw : ∀ uid columns, ∀ vk ∈ w.affects (.spot uid columns),
      "trust_tier" ∈ columns ∧ vk ∈ listAndDetail uid) (days : ℤ) :
    Triple (sessions ok) (sessionContract CacheInvariant VersionStep) i (Ledger w [] [] i)
      (decayStaleTrustTiers cfg be now days) (Returns fun _ => Settled w i) := by
  refine Triple.bind_returns cacheFits _ (triple_execute (fun r => r.flatMap listAndDetail)
    (fun _ => List.nil_subset _) ?_) fun downgraded => ?_
  · intro locked d eff heff ch hch vk hvk
    rw [changes_updateSpots be heff] at hch
    obtain ⟨uid, huid, rfl⟩ := List.mem_map.1 hch
    exact List.mem_flatMap.2 ⟨uid, huid, (hw _ _ vk hvk).2⟩
  · refine Triple.bind_returns cacheFits _ (triple_execute
      (fun _ => downgraded.flatMap listAndDetail) (fun _ => List.Subset.refl _) ?_)
      fun requeued => ?_
    · -- going back to the queue shows in no body
      intro locked d eff heff ch hch vk hvk
      rw [changes_updateSpots be heff] at hch
      obtain ⟨uid, -, rfl⟩ := List.mem_map.1 hch
      exact absurd (hw _ _ vk hvk).1 (by decide)
    · refine Triple.bind_returns cacheFits _ triple_commit fun _ => ?_
      split
      · rename_i hempty
        rw [List.isEmpty_iff.1 hempty]
        exact triple_return _
      · refine (triple_invalidateSpots hcfg downgraded _).conseq (fun s _ h => ?_)
          fun _ _ _ h => h
        refine h.mono (List.Subset.refl _) ?_
        intro vk hvk
        obtain ⟨uid, huid, hvk⟩ := List.mem_flatMap.1 hvk
        rcases List.mem_cons.1 hvk with rfl | hvk
        · exact List.mem_cons_self ..
        · rw [List.mem_singleton.1 hvk]
          exact List.mem_cons_of_mem _ (List.mem_map_of_mem huid)

theorem triple_createImage (hcfg : cfg.redisUrl = true) {spotUid : String}
    (hw : ∀ ch, ∀ vk ∈ w.affects ch, vk ∈ listAndDetail spotUid) (imageUid s3Key : String)
    (role : SpotImageRole) (sortOrder : ℤ) (isPublic : Bool) (contentType : Option String) :
    Triple (sessions ok) (sessionContract CacheInvariant VersionStep) i (Ledger w [] [] i)
      (createImage cfg now imageUid spotUid s3Key role sortOrder isPublic contentType)
      (Returns fun _ => Settled w i) := by
  refine triple_start (listAndDetail spotUid) ?_
  refine Triple.bind_returns cacheFits _ (triple_statements (SqlOnly.execute _) hw) fun _ => ?_
  refine Triple.bind_returns cacheFits _ triple_commit fun _ => ?_
  refine Triple.bind_returns cacheFits _ (triple_reads (readOnly_refreshImage _)) fun image => ?_
  exact triple_bumpBoth_return hcfg spotUid image

theorem triple_updateImage (hcfg : cfg.redisUrl = true) {image : SpotImage}
    (hw : ∀ ch, ∀ vk ∈ w.affects ch, vk ∈ listAndDetail image.spotUid) (data : List ImageAttr) :
    Triple (sessions ok) (sessionContract CacheInvariant VersionStep) i (Ledger w [] [] i)
      (updateImage cfg now image data) (Returns fun _ => Settled w i) := by
  refine triple_start (listAndDetail image.spotUid) ?_
  refine Triple.bind_returns cacheFits _
    (triple_statements (sqlOnly_flushImage now image data) hw) fun _ => ?_
  refine Triple.bind_returns cacheFits _ triple_commit fun _ => ?_
  refine Triple.bind_returns cacheFits _ (triple_reads (readOnly_refreshImage _)) fun fresh => ?_
  exact triple_bumpBoth_return hcfg image.spotUid fresh

theorem triple_deleteImage (hcfg : cfg.redisUrl = true) {image : SpotImage}
    (hw : ∀ ch, ∀ vk ∈ w.affects ch, vk ∈ listAndDetail image.spotUid) :
    Triple (sessions ok) (sessionContract CacheInvariant VersionStep) i (Ledger w [] [] i)
      (deleteImage cfg now image) (Returns fun _ => Settled w i) := by
  refine triple_start (listAndDetail image.spotUid) ?_
  refine Triple.bind_returns cacheFits _
    (triple_statements (SqlOnly.execute _) hw) fun found => ?_
  refine Triple.bind_returns cacheFits (fun _ => Ledger w (listAndDetail image.spotUid) [] i) ?_
    fun _ => ?_
  · cases found with
    | true => exact Triple.ret_returns stable_ledger fun _ _ h => h
    | false => exact Triple.raise_returns
  · refine Triple.bind_returns cacheFits _ triple_commit fun _ => ?_
    exact triple_bumpBoth hcfg image.spotUid

theorem triple_createReview (hcfg : cfg.redisUrl = true) {spotUid : String}
    (hw : ∀ ch, ∀ vk ∈ w.affects ch, vk ∈ [Cache.spotDetailVersionKey spotUid])
    (reviewUid userUid : String) (rating : ℤ) (content : Option String) :
    Triple (sessions ok) (sessionContract CacheInvariant VersionStep) i (Ledger w [] [] i)
      (createReview cfg be now reviewUid spotUid userUid rating content)
      (Returns fun _ => Settled w i) := by
  refine triple_start [Cache.spotDetailVersionKey spotUid] ?_
  refine Triple.bind_returns cacheFits _
    (triple_statements (ReadOnly.select _).sqlOnly hw) fun active => ?_
  cases active with
  | some review => exact Triple.raise_returns
  | none =>
    refine Triple.bind_returns cacheFits _ (triple_statements (SqlOnly.execute _) hw) fun _ => ?_
    refine Triple.bind_returns cacheFits _
      (triple_statements (sqlOnly_recalculateSpotRating be now spotUid) hw) fun _ => ?_
    refine Triple.bind_returns cacheFits _ triple_commit fun _ => ?_
    refine Triple.bind_returns cacheFits _
      (triple_reads (readOnly_refreshReview reviewUid)) fun review => ?_
    refine Triple.bind_returns cacheFits _ (triple_bump hcfg (.inr ⟨spotUid, rfl⟩)) fun _ => ?_
    exact triple_return review

/-- Without a rating among the pairs nothing cached changes. -/
theorem triple_updateReview (hcfg : cfg.redisUrl = true) {review : SpotReview}
    {data : List ReviewAttr}
    (hw : ∀ ch, ∀ vk ∈ w.affects ch,
      data.any ReviewAttr.isRating = true ∧ vk = Cache.spotDetailVersionKey review.spotUid) :
    Triple (sessions ok) (sessionContract CacheInvariant VersionStep) i (Ledger w [] [] i)
      (updateReview cfg be now review data) (Returns fun _ => Settled w i) := by
  have hflush : SqlOnly (flushReview now review data) := sqlOnly_flushReview now review data
  unfold updateReview
  cases hrating : data.any ReviewAttr.isRating with
  | false =>
    have hnone : ∀ ch, ∀ vk ∈ w.affects ch, vk ∈ ([] : List String) := by
      intro ch vk hvk
      have := (hw ch vk hvk).1
      rw [hrating] at this
      cases this
    refine Triple.bind_returns cacheFits _ (triple_statements hflush hnone) fun _ => ?_
    refine Triple.bind_returns cacheFits _ (triple_statements (SqlOnly.ret ()) hnone) fun _ => ?_
    refine Triple.bind_returns cacheFits _ triple_commit fun _ => ?_
    refine Triple.bind_returns cacheFits _
      (triple_reads (readOnly_refreshReview _)) fun fresh => ?_
    exact triple_return fresh
  | true =>
    have hone : ∀ ch, ∀ vk ∈ w.affects ch, vk ∈ [Cache.spotDetailVersionKey review.spotUid] := by
      intro ch vk hvk
      rw [(hw ch vk hvk).2]
      exact List.mem_singleton_self _
    refine triple_start [Cache.spotDetailVersionKey review.spotUid] ?_
    refine Triple.bind_returns cacheFits _ (triple_statements hflush hone) fun _ => ?_
    refine Triple.bind_returns cacheFits _
      (triple_statements (sqlOnly_recalculateSpotRating be now review.spotUid) hone) fun _ => ?_
    refine Triple.bind_returns cacheFits _ triple_commit fun _ => ?_
    refine Triple.bind_returns cacheFits _
      (triple_reads (readOnly_refreshReview _)) fun fresh => ?_
    refine Triple.bind_returns cacheFits _
      (triple_bump hcfg (.inr ⟨review.spotUid, rfl⟩)) fun _ => ?_
    exact triple_return fresh

theorem triple_softDeleteReview (hcfg : cfg.redisUrl = true) {review : SpotReview}
    (hw : ∀ ch, ∀ vk ∈ w.affects ch, vk ∈ [Cache.spotDetailVersionKey review.spotUid]) :
    Triple (sessions ok) (sessionContract CacheInvariant VersionStep) i (Ledger w [] [] i)
      (softDeleteReview cfg be now review) (Returns fun _ => Settled w i) := by
  refine triple_start [Cache.spotDetailVersionKey review.spotUid] ?_
  refine Triple.bind_returns cacheFits _ (triple_statements (SqlOnly.execute _) hw) fun _ => ?_
  refine Triple.bind_returns cacheFits _
    (triple_statements (sqlOnly_recalculateSpotRating be now review.spotUid) hw) fun _ => ?_
  refine Triple.bind_returns cacheFits _ triple_commit fun _ => ?_
  exact triple_lastBump hcfg (.inr ⟨review.spotUid, rfl⟩)

/-- A writer that returns has raised every version its commit affected, after the commit. -/
theorem Writer.triple_call (hcfg : cfg.redisUrl = true) (w : Writer) :
    Triple (sessions ok) (sessionContract CacheInvariant VersionStep) i (Ledger w [] [] i)
      (w.call cfg be now) (Returns fun _ => Settled w i) := by
  have hdone : ∀ {α : Type} {p : App α},
      Triple (sessions ok) (sessionContract CacheInvariant VersionStep) i (Ledger w [] [] i) p
        (Returns fun _ => Settled w i) →
      Triple (sessions ok) (sessionContract CacheInvariant VersionStep) i (Ledger w [] [] i)
        (p.bind fun _ => .ret ()) (Returns fun _ => Settled w i) := fun hp =>
    Triple.bind_returns cacheFits _ hp fun _ => Triple.ret_returns stable_settled fun _ _ h => h
  cases w with
  | updateSpot identity uid data =>
    refine hdone (triple_updateSpot be now hcfg ?_ identity data)
    exact fun _ _ h => h
  | deleteSpot spot => exact triple_deleteSpot be now hcfg fun _ _ h => h
  | restoreSpot spot => exact hdone (triple_restoreSpot be now hcfg fun _ _ h => h)
  | updatePipelineStatusBulk uids status =>
    refine hdone (triple_updatePipelineStatusBulk be now hcfg ?_ uids status)
    exact fun _ _ _ h => h
  | decayStaleTrustTiers days =>
    refine hdone (triple_decayStaleTrustTiers be now hcfg ?_ days)
    intro uid columns vk hvk
    simp only [Writer.affects] at hvk
    split at hvk
    · rename_i hcol
      exact ⟨hcol, hvk⟩
    · cases hvk
  | createImage imageUid spotUid s3Key role sortOrder isPublic contentType =>
    refine hdone (triple_createImage now hcfg ?_ _ _ _ _ _ _)
    exact fun _ _ h => h
  | updateImage image data =>
    refine hdone (triple_updateImage now hcfg ?_ data)
    exact fun _ _ h => h
  | deleteImage image => exact triple_deleteImage now hcfg fun _ _ h => h
  | createReview reviewUid spotUid userUid rating content =>
    refine hdone (triple_createReview be now hcfg ?_ _ _ _ _)
    exact fun _ _ h => h
  | updateReview review data =>
    refine hdone (triple_updateReview be now hcfg ?_)
    intro ch vk hvk
    simp only [Writer.affects] at hvk
    split at hvk
    · rename_i hrating
      exact ⟨hrating, List.mem_singleton.1 hvk⟩
    · cases hvk
  | softDeleteReview review => exact triple_softDeleteReview be now hcfg fun _ _ h => h

end Calls

end Vivac
