import Vivac.Freshness.PublicCache
import Vivac.Lib.Outages

/-!
# Readers and writers without an answer from Redis

Every command to Redis may fail without effect, each for itself (`Outages`). A writer then raises
less, and a reader goes on with version 0, takes a probe for a miss, or stores nothing
(`Reader.withOutages_program`).

Version 0 is the version before the first raise. A reader whose version read fails and whose probe
does not finds what was stored before every raise (`stale_after_outage`). Where such readers find
nothing, whoever starts after a writer whose raises succeeded is answered from queries after its
commit, and a failed read makes a reader query (`fail_open_fresh`).
-/

set_option autoImplicit false

namespace Vivac

open Lib App

/-- What the commands of a session to Redis raise, by their number; `none` is one that is carried
out. -/
structure Outages where
  fails : ℕ → Option Exc
  isException : ∀ n e, fails n = some e → e.isException = true

/-- No command fails. -/
def Outages.none : Outages := ⟨fun _ => Option.none, fun _ _ h => nomatch h⟩

/-- A program some of whose commands to Redis fail. -/
def withOutages {α : Type} (o : Outages) (p : App α) : App α :=
  p.failing (fun c => !c.isDatabase) o.fails

/-- Every caller in a session of its own, with its outages. -/
def flakyRequests {ι : Type} (cfg : Settings) (be : Backend) (calls : ι → Caller)
    (outages : ι → Outages) (i : ι) : App (Option Reply) :=
  withSession (withOutages (outages i) ((calls i).program cfg be))

/-! ## What a reader makes of an outage -/

section Fallback

variable (cfg : Settings) (o : Outages)

/-- The version, or 0. -/
def readVersion (vk : String) : App ℕ :=
  if (o.fails 0).isSome then .ret 0 else Cache.getVersion cfg vk

/-- The body under a key, or none. -/
def probe (key : String) : App (Option Reply) :=
  if (o.fails 1).isSome then .ret none else Cache.getCached cfg key

/-- The body is stored, or not. -/
def keep (key : String) (body : Body) : App Unit :=
  if (o.fails 2).isSome then .ret () else Cache.setCached cfg key body

/-- A body that is read through the cache. -/
def readThrough {β : Type} (vk : String) (make : ℕ → String) (query : App β) (body : β → Body) :
    App (Option Reply) :=
  (readVersion cfg o vk).bind fun n => (probe cfg o (make n)).bind fun cached =>
    match cached with
    | some reply => .ret (some reply)
    | none => query.bind fun response =>
      (keep cfg o (make n) (body response)).bind fun _ => .ret (some (.inr (body response)))

/-- The request with its outages: a failed version read is version 0, a failed probe a miss, and a
failed store none; no failure ends it. -/
def Reader.fallback (be : Backend) : Reader → App (Option Reply)
  | .list req => (Prog.ofExcept (parseOptionalBbox req.bbox)).bind fun bbox =>
      readThrough cfg o Cache.spotsVersionKey
        (fun n => Cache.spotsListKey n (be.sha256 (Cache.rawParams req.params)))
        (Explore.listBody cfg be req
          { category := req.category, regionProvince := req.regionProvince, bbox := bbox }) .list
  | .map req => (Prog.ofExcept (parseOptionalBbox req.bbox)).bind fun bbox =>
      readThrough cfg o Cache.spotsVersionKey
        (fun n => Cache.spotsListKey n (be.sha256 (Cache.rawParams req.params)))
        (Explore.mapBody cfg be req
          { category := req.category, regionProvince := req.regionProvince, bbox := bbox }) .map
  | .detail uid =>
      readThrough cfg o (Cache.spotDetailVersionKey uid) (Cache.spotDetailBodyKey uid)
        (Explore.detailBody cfg be uid) .detail

variable {cfg} {o} {α β : Type}

/-- The commands to Redis. -/
abbrev AtStore {γ : Type} (c : Command γ) : Bool := !c.isDatabase

variable {fails : ℕ → Option Exc}

/-- A command to Redis that is given up for a value, and what follows it. -/
theorem failing_tryExcept (hfails : ∀ n e, fails n = some e → e.isException = true) {p : App β}
    (hp : p.StartsMarked AtStore) (hraise : ∀ e, p.afterError e = .raise e) (x : β)
    (f : β → App α) :
    ((tryExcept p fun _ => .ret x).bind f).failing AtStore fails =
      (if (fails 0).isSome then .ret x else tryExcept p fun _ => .ret x).bind fun b =>
        (f b).failing AtStore fun n => fails (n + 1) := by
  have hcaught : (tryExcept p fun _ => .ret x).StartsMarked AtStore := by
    refine hp.tryCatch fun e => ?_
    split <;> trivial
  cases h : fails 0 with
  | none => exact Prog.failing_bind_of_answered hcaught h
  | some e =>
      have herror : (tryExcept p fun _ => .ret x).afterError e = .ret x := by
        cases p with
        | ret a => exact hp.elim
        | raise e => exact hp.elim
        | call c k =>
            have hk : k (.error e) = .raise e := hraise e
            show ((k (.error e)).tryCatch fun e => if e.isException then .ret x else .raise e) = _
            rw [hk]
            exact if_pos (hfails 0 e h)
      rw [Prog.failing_bind_of_some hcaught h, herror]
      rfl

variable (hcfg : cfg.redisUrl = true) (hfails : ∀ n e, fails n = some e → e.isException = true)
include hcfg hfails

theorem failing_getVersion (vk : String) (f : ℕ → App α) :
    ((Cache.getVersion cfg vk).bind f).failing AtStore fails =
      (if (fails 0).isSome then .ret 0 else Cache.getVersion cfg vk).bind fun n =>
        (f n).failing AtStore fun n => fails (n + 1) := by
  have hstart : ((Prog.perform (.get vk) : App (Option Reply)).bind fun v =>
      .ofExcept (Cache.versionOf v)).StartsMarked AtStore :=
    (Prog.startsMarked_perform rfl).bind fun _ => Prog.uses_ofExcept _
  unfold Cache.getVersion
  rw [if_pos hcfg]
  exact failing_tryExcept hfails hstart (fun _ => rfl) 0 f

theorem failing_getCached (key : String) (f : Option Reply → App α) :
    ((Cache.getCached cfg key).bind f).failing AtStore fails =
      (if (fails 0).isSome then .ret none else Cache.getCached cfg key).bind fun c =>
        (f c).failing AtStore fun n => fails (n + 1) := by
  unfold Cache.getCached
  rw [if_pos hcfg]
  exact failing_tryExcept hfails (Prog.startsMarked_perform rfl) (fun _ => rfl) none f

theorem failing_setCached (key : String) (body : Body) (f : Unit → App α) :
    ((Cache.setCached cfg key body).bind f).failing AtStore fails =
      (if (fails 0).isSome then .ret () else Cache.setCached cfg key body).bind fun u =>
        (f u).failing AtStore fun n => fails (n + 1) := by
  unfold Cache.setCached
  rw [if_pos hcfg]
  exact failing_tryExcept hfails (Prog.startsMarked_perform rfl) (fun _ => rfl) () f

omit hcfg hfails in
/-- A query is no command to Redis. -/
theorem failing_readOnly {p : App β} (hp : ReadOnly p) (f : β → App α) :
    (p.bind f).failing AtStore fails = p.bind fun b => (f b).failing AtStore fails :=
  Prog.failing_bind_of_unmarked (hp.uses fun _ => rfl)

omit hfails in
/-- Reading through the cache, with outages. -/
theorem withOutages_cachedRead (o : Outages) (vk : String) (make : ℕ → String) {query : App β}
    (hquery : ReadOnly query) (body : β → Body) {answer : String → Option Reply → App Reply}
    (hhit : ∀ key reply, answer key (some reply) = .ret reply)
    (hmiss : ∀ key, answer key none = query.bind fun response =>
      (Cache.setCached cfg key (body response)).bind fun _ => .ret (.inr (body response))) :
    withOutages o ((((Cache.getVersion cfg vk).bind fun n => .ret (make n)).bind fun key =>
      (Cache.getCached cfg key).bind (answer key)).bind fun reply => .ret (some reply)) =
      readThrough cfg o vk make query body := by
  simp only [Prog.bind_assoc, Prog.bind_ret]
  unfold withOutages
  rw [failing_getVersion hcfg o.isException]
  refine Prog.bind_congr fun n => ?_
  rw [failing_getCached hcfg fun n => o.isException (n + 1)]
  refine Prog.bind_congr fun c => ?_
  cases c with
  | some reply =>
      rw [hhit]
      rfl
  | none =>
      rw [hmiss]
      simp only [Prog.bind_assoc, Prog.bind_ret]
      rw [failing_readOnly hquery]
      refine Prog.bind_congr fun response => ?_
      exact failing_setCached hcfg (fun n => o.isException (n + 2)) (make n) (body response)
        fun _ => (.ret (some (Sum.inr (body response))) : App (Option Reply))

omit hfails in
/-- No outage ends a request: it only loses what the cache would have given or kept. -/
theorem Reader.withOutages_program (be : Backend) (o : Outages) (r : Reader) :
    withOutages o (r.program cfg be) = r.fallback cfg o be := by
  have hparse : ∀ {γ : Type} (parsed : Except Exc γ) (f : γ → App Reply),
      withOutages o (((Prog.ofExcept parsed).bind f).bind fun reply => .ret (some reply)) =
        (Prog.ofExcept parsed).bind fun x =>
          withOutages o ((f x).bind fun reply => .ret (some reply)) := by
    intro γ parsed f
    cases parsed <;> rfl
  cases r with
  | list req =>
      refine (hparse _ _).trans (Prog.bind_congr fun bbox => ?_)
      exact withOutages_cachedRead hcfg o Cache.spotsVersionKey
        (fun n => Cache.spotsListKey n (be.sha256 (Cache.rawParams req.params)))
        (readOnly_listBody cfg be req _) .list (fun _ _ => rfl) fun _ => rfl
  | map req =>
      refine (hparse _ _).trans (Prog.bind_congr fun bbox => ?_)
      exact withOutages_cachedRead hcfg o Cache.spotsVersionKey
        (fun n => Cache.spotsListKey n (be.sha256 (Cache.rawParams req.params)))
        (readOnly_mapBody cfg be req _) .map (fun _ _ => rfl) fun _ => rfl
  | detail uid =>
      exact withOutages_cachedRead hcfg o (Cache.spotDetailVersionKey uid)
        (Cache.spotDetailBodyKey uid) (readOnly_detailBody cfg be uid) .detail (fun _ _ => rfl)
        fun _ => rfl

end Fallback

/-! ## What a reader answers from -/

section Knowledge

variable {ι : Type} [DecidableEq ι] {ok : ι → State ι → State ι → Prop} {E : State ι → Prop}
  {vk : String} {k : ℕ} {Good : ℕ → Prop} {n : ℕ} {j : ι} {cfg : Settings} {o : Outages}

/-- A step of session `j` that finds a body. -/
def FindsBody (j : ι) (s s' : State ι) : Prop :=
  ∃ key v p, s.redis key = some (.body v p) ∧ s'.trace = s.trace ++ [⟨j, .get key⟩]

/-- A probe that may find no body. -/
theorem triple_getCached_missing (hkept : Kept ok E) (hmiss : ∀ s s', ok j s s' → ¬FindsBody j s s')
    (hcfg : cfg.redisUrl = true) (hvk : Cache.IsVersionKey vk) (key : String) :
    Triple (sessions ok) (cacheContract E) j (Tracking vk k Good n j) (Cache.getCached cfg key)
      (Returns fun _ => Tracking vk k Good n j) := by
  unfold Cache.getCached
  rw [if_pos hcfg]
  refine triple_tryExcept hkept.sharedStep (stable_tracking hvk) ?_
  refine Triple.command (stable_tracking hvk) (fun _ => stable_tracking hvk)
    fun s r s' hi h hexec hok => ?_
  obtain ⟨hinv, hT⟩ := hkept.exec hi (c := .get key) trivial hexec hok
  refine ⟨hinv, hT, ?_⟩
  rcases exec_get_cases hexec with ⟨-, -, rfl⟩ | ⟨m, -, -, rfl⟩ | ⟨v, p, hbody, -, rfl⟩
  · exact h.idle hvk hT rfl
  · exact h.idle hvk hT rfl
  · exact absurd ⟨key, v, p, hbody, rfl⟩ (hmiss _ _ hok)

/-- A reader that starts at version `k` or later, and finds nothing when its version read has
failed, answers from good queries. -/
theorem triple_readThrough (hkept : Kept ok E) (hvet : Vetted E vk k Good)
    (hcfg : cfg.redisUrl = true) {make : ℕ → String} (hmake : ∀ n, Cache.BodyUnder vk n (make n))
    (hmiss : (o.fails 0).isSome = true → ∀ s s', ok j s s' → ¬FindsBody j s s') {β : Type}
    {query : App β} (hquery : ReadOnly query) (body : β → Body) :
    Triple (sessions ok) (cacheContract E) j (Ready vk k j)
      (readThrough cfg o vk make query body) (Returns fun _ => Informed Good j) := by
  have hvk : Cache.IsVersionKey vk := (hmake 0).isVersionKey
  -- without an answer the reader goes on as if nothing was raised yet
  have hfrom : ∃ k', ((o.fails 0).isSome = false → k' = k) ∧
      Triple (sessions ok) (cacheContract E) j (Ready vk k j) (readVersion cfg o vk)
        (Returns fun n => Tracking vk k' Good n j) := by
    unfold readVersion
    cases hlost : (o.fails 0).isSome with
    | false => exact ⟨k, fun _ => rfl, triple_getVersion Good hkept hcfg hvk⟩
    | true =>
        refine ⟨0, Bool.noConfusion, ?_⟩
        refine Triple.ret_returns (stable_ready hvk) fun s _ hs => ?_
        refine ⟨?_, le_rfl, fun t ht => ?_⟩
        · rw [hs.1]
          exact .nil (Nat.zero_le _)
        · rw [hs.1] at ht
          cases ht
  obtain ⟨k', hk', hversion⟩ := hfrom
  refine Triple.bind_returns hkept.fits _ hversion fun n => ?_
  refine Triple.bind_returns hkept.fits (fun _ => Tracking vk k' Good n j) ?_ fun cached => ?_
  · unfold probe
    split
    · exact Triple.ret_returns (stable_tracking hvk) fun _ _ h => h
    · cases hlost : (o.fails 0).isSome with
      | true => exact triple_getCached_missing hkept (hmiss hlost) hcfg hvk (make n)
      | false =>
          rw [hk' hlost]
          exact triple_getCached hkept hvet hcfg (hmake n)
  · cases cached with
    | some reply => exact Triple.ret_returns (stable_tracking hvk) fun _ _ h => h.informed
    | none =>
        refine Triple.bind_returns hkept.fits _
          (triple_queries hkept hvet.young hquery hvk) fun response => ?_
        refine Triple.bind_returns hkept.fits (fun _ => Tracking vk k' Good n j) ?_ fun _ => ?_
        · unfold keep
          split
          · exact Triple.ret_returns (stable_tracking hvk) fun _ _ h => h
          · exact triple_setCached hkept hcfg (hmake n)
        · exact Triple.ret_returns (stable_tracking hvk) fun _ _ h => h.informed

theorem Reader.triple_fallback (be : Backend) (hkept : Kept ok E) (hcfg : cfg.redisUrl = true)
    (r : Reader) (hvet : Vetted E r.versionKey k Good)
    (hmiss : (o.fails 0).isSome = true → ∀ s s', ok j s s' → ¬FindsBody j s s') :
    Triple (sessions ok) (cacheContract E) j (Ready r.versionKey k j) (r.fallback cfg o be)
      (Returns fun _ => Informed Good j) := by
  cases r with
  | list req =>
      refine triple_ofExcept fun bbox _ => ?_
      exact triple_readThrough hkept hvet hcfg (fun n => Cache.bodyUnder_spotsListKey n _) hmiss
        (readOnly_listBody cfg be req _) .list
  | map req =>
      refine triple_ofExcept fun bbox _ => ?_
      exact triple_readThrough hkept hvet hcfg (fun n => Cache.bodyUnder_spotsListKey n _) hmiss
        (readOnly_mapBody cfg be req _) .map
  | detail uid =>
      exact triple_readThrough hkept hvet hcfg (fun n => Cache.bodyUnder_spotDetailBodyKey uid n)
        hmiss (readOnly_detailBody cfg be uid) .detail

/-- All that session `j` knows it has queried itself. -/
def OwnQueries (j : ι) (s : State ι) : Prop := ∀ t ∈ s.prov j, s.At t ⟨j, .query⟩

omit [DecidableEq ι] in
theorem stable_ownQueries : Stable (cacheContract E) j (OwnQueries j) := by
  rintro s s' - ⟨hund, -⟩ h t ht
  rw [hund.prov] at ht
  exact hund.at_of_at (h t ht)

/-- A command that probes no key of a body, unless the version read has failed. -/
def ProbesVersions (lost : Bool) {β : Type} : Command β → Prop
  | .get key => lost = true ∨ Cache.IsVersionKey key
  | _ => True

theorem OwnQueries.exec {lost : Bool} {β : Type} {c : Command β} {s s' : State ι}
    {r : Except Exc β} (h : OwnQueries j s) (hi : CacheInvariant s) (hc : ProbesVersions lost c)
    (hmiss : lost = true → ¬FindsBody j s s') (hexec : exec j c s = some (r, s')) :
    OwnQueries j s' := by
  intro t ht
  rcases prov_of_exec hexec with hprov | ⟨hprov, htrace⟩ | ⟨key, v, p, hget, hbody, htrace, -⟩
  · rw [hprov] at ht
    exact at_of_exec hexec (h t ht)
  · rw [hprov] at ht
    rcases List.mem_cons.1 ht with rfl | ht
    · simp [World.At, World.clock, htrace]
    · exact at_of_exec hexec (h t ht)
  · -- the key of a body is probed only where nothing is found
    rcases hget (ProbesVersions lost) hc with hlost | hvk
    · exact absurd ⟨key, v, p, hbody, htrace⟩ (hmiss hlost)
    · exact absurd hbody (hi.no_body key hvk v p)

/-- A reader whose version read or probe fails probes no body, unless its version read has
failed. -/
theorem probesVersions_readThrough (hfailed : (o.fails 0).isSome = true ∨ (o.fails 1).isSome = true)
    (hvk : Cache.IsVersionKey vk) (make : ℕ → String) {β : Type} {query : App β}
    (hquery : ReadOnly query) (body : β → Body) :
    (readThrough cfg o vk make query body).Uses (ProbesVersions (o.fails 0).isSome) := by
  have hversion : (readVersion cfg o vk).Uses (ProbesVersions (o.fails 0).isSome) := by
    unfold readVersion Cache.getVersion
    split
    · trivial
    · split
      · refine Prog.Uses.tryCatch ?_ fun e => ?_
        · exact (Prog.uses_perform (.inr hvk)).bind fun v => Prog.uses_ofExcept _
        · split <;> trivial
      · trivial
  have hprobe : ∀ key, (probe cfg o key).Uses (ProbesVersions (o.fails 0).isSome) := by
    intro key
    unfold probe Cache.getCached
    split
    · trivial
    · rename_i hanswered
      split
      · refine Prog.Uses.tryCatch (Prog.uses_perform (.inl ?_)) fun e => ?_
        · exact hfailed.resolve_right hanswered
        · split <;> trivial
      · trivial
  have hkeep : ∀ key body, (keep cfg o key body).Uses (ProbesVersions (o.fails 0).isSome) := by
    intro key body
    unfold keep Cache.setCached
    split
    · trivial
    · split
      · refine Prog.Uses.tryCatch (Prog.uses_perform trivial) fun e => ?_
        split <;> trivial
      · trivial
  refine hversion.bind fun n => (hprobe (make n)).bind fun cached => ?_
  cases cached with
  | some reply => trivial
  | none =>
      refine Prog.Uses.bind (hquery.uses fun _ => trivial) fun response => ?_
      exact (hkeep (make n) (body response)).bind fun _ => trivial

theorem Reader.probesVersions_fallback (be : Backend) (r : Reader)
    (hfailed : (o.fails 0).isSome = true ∨ (o.fails 1).isSome = true) :
    (r.fallback cfg o be).Uses (ProbesVersions (o.fails 0).isSome) := by
  cases r with
  | list req =>
      refine (Prog.uses_ofExcept _).bind fun bbox => ?_
      exact probesVersions_readThrough hfailed (.inl rfl) _ (readOnly_listBody cfg be req _) .list
  | map req =>
      refine (Prog.uses_ofExcept _).bind fun bbox => ?_
      exact probesVersions_readThrough hfailed (.inl rfl) _ (readOnly_mapBody cfg be req _) .map
  | detail uid =>
      exact probesVersions_readThrough hfailed (.inr ⟨uid, rfl⟩) _ (readOnly_detailBody cfg be uid)
        .detail

end Knowledge

/-! ## Writers -/

/-- A command that stores no body. -/
def NoStore {β : Type} : Command β → Prop
  | .set _ _ => False
  | _ => True

theorem admits_noStore : Admits NoStore := ⟨⟨fun _ => trivial, fun _ => trivial⟩, trivial, trivial⟩

/-- No writer stores a body. -/
theorem Writer.uses_call (cfg : Settings) (be : Backend) (now : Timestamp) (w : Writer) :
    (w.call cfg be now).Uses NoStore := by
  have hsql : ∀ {α : Type} {p : App α}, SqlOnly p → p.Uses NoStore :=
    fun h => h.uses fun _ => trivial
  have hreads : ∀ {α : Type} {p : App α}, ReadOnly p → p.Uses NoStore :=
    fun h => h.uses fun _ => trivial
  have hbump : ∀ key, (Cache.bump cfg key).Uses NoStore := fun key => admits_noStore.bump cfg key
  have hspots : ∀ uids, (invalidateSpots cfg uids).Uses NoStore :=
    fun uids => (hbump _).bind fun _ => Admits.forEach (fun _ => hbump _) uids
  cases w with
  | updateSpot identity uid data =>
      refine Prog.Uses.bind (admits_noStore.read_bind fun found => ?_) fun _ => trivial
      cases found with
      | none => trivial
      | some row =>
          refine (hsql (sqlOnly_flushSpot be now _ data)).bind fun _ => ?_
          refine admits_noStore.commit_bind ((hreads (readOnly_refreshSpot uid)).bind fun _ => ?_)
          exact (hbump _).bind fun _ => (hbump _).bind fun _ => trivial
  | deleteSpot spot =>
      refine (hsql (SqlOnly.execute _)).bind fun _ => admits_noStore.commit_bind ?_
      exact (hbump _).bind fun _ => hbump _
  | restoreSpot spot =>
      refine Prog.Uses.bind ((hsql (SqlOnly.execute _)).bind fun _ => ?_) fun _ => trivial
      refine admits_noStore.commit_bind ((hreads (readOnly_refreshSpot _)).bind fun _ => ?_)
      exact (hbump _).bind fun _ => (hbump _).bind fun _ => trivial
  | updatePipelineStatusBulk uids status =>
      refine Prog.Uses.bind (admits_noStore.read_bind fun found => ?_) fun _ => trivial
      split
      · trivial
      · refine (hsql (SqlOnly.execute _)).bind fun _ => admits_noStore.commit_bind ?_
        exact (hspots _).bind fun _ => trivial
  | decayStaleTrustTiers days =>
      refine Prog.Uses.bind ((hsql (SqlOnly.execute _)).bind fun downgraded => ?_) fun _ => trivial
      refine (hsql (SqlOnly.execute _)).bind fun _ => admits_noStore.commit_bind ?_
      split
      · trivial
      · exact (hspots _).bind fun _ => trivial
  | createImage imageUid spotUid s3Key role sortOrder isPublic contentType =>
      refine Prog.Uses.bind ((hsql (SqlOnly.execute _)).bind fun _ => ?_) fun _ => trivial
      refine admits_noStore.commit_bind ((hreads (readOnly_refreshImage _)).bind fun _ => ?_)
      exact (hbump _).bind fun _ => (hbump _).bind fun _ => trivial
  | updateImage image data =>
      refine Prog.Uses.bind ((hsql (sqlOnly_flushImage now image data)).bind fun _ => ?_)
        fun _ => trivial
      refine admits_noStore.commit_bind ((hreads (readOnly_refreshImage _)).bind fun _ => ?_)
      exact (hbump _).bind fun _ => (hbump _).bind fun _ => trivial
  | deleteImage image =>
      refine (hsql (SqlOnly.execute _)).bind fun found => Prog.Uses.bind ?_ fun _ => ?_
      · exact Admits.whenever trivial
      · exact admits_noStore.commit_bind ((hbump _).bind fun _ => hbump _)
  | createReview reviewUid spotUid userUid rating content =>
      refine Prog.Uses.bind (admits_noStore.read_bind fun active => ?_) fun _ => trivial
      cases active with
      | some review => trivial
      | none =>
          refine (hsql (SqlOnly.execute _)).bind fun _ => ?_
          refine (hsql (sqlOnly_recalculateSpotRating be now spotUid)).bind fun _ => ?_
          refine admits_noStore.commit_bind ((hreads (readOnly_refreshReview _)).bind fun _ => ?_)
          exact (hbump _).bind fun _ => trivial
  | updateReview review data =>
      refine Prog.Uses.bind ((hsql (sqlOnly_flushReview now review data)).bind fun _ => ?_)
        fun _ => trivial
      refine Prog.Uses.bind (Admits.whenever
        (hsql (sqlOnly_recalculateSpotRating be now review.spotUid))) fun _ => ?_
      refine admits_noStore.commit_bind ((hreads (readOnly_refreshReview _)).bind fun _ => ?_)
      exact (Admits.whenever (hbump _)).bind fun _ => trivial
  | softDeleteReview review =>
      refine (hsql (SqlOnly.execute _)).bind fun _ => ?_
      refine (hsql (sqlOnly_recalculateSpotRating be now review.spotUid)).bind fun _ => ?_
      exact admits_noStore.commit_bind (hbump _)

/-! ## Runs with outages -/

section Runs

variable {ι : Type} [DecidableEq ι] (calls : ι → Caller) (outages : ι → Outages)

/-- The step is none by which a reader whose version read has failed finds a body. -/
def MissesUnread (i : ι) (s s' : State ι) : Prop :=
  ∀ r, calls i = .reader r → ((outages i).fails 0).isSome = true → ¬FindsBody i s s'

/-- Whoever starts after a writer has returned, all of whose raises were carried out, is answered
from queries after the writer's commit. -/
def NeverOlder (start : ι → App (Option Reply))
    (c₁ c₂ : Config ι Exc Command (State ι) (Option Reply)) : Prop :=
  ∀ i j now w r a b tc chs ch, calls i = .writer now w → calls j = .reader r →
    (∀ n, (outages i).fails n = none) → c₁.thread i = closeSession (.ok a) →
    c₁.thread j = start j → c₂.thread j = closeSession (.ok b) →
    c₁.state.At tc ⟨i, .commit chs⟩ → ch ∈ chs → r.versionKey ∈ w.affects ch →
    ∀ t ∈ c₂.state.prov j, tc < t

/-- A reader one of whose reads of Redis has failed is answered from queries of its own. -/
def FromDatabase (c : Config ι Exc Command (State ι) (Option Reply)) : Prop :=
  ∀ j r b, calls j = .reader r →
    ((outages j).fails 0).isSome = true ∨ ((outages j).fails 1).isSome = true →
    c.thread j = closeSession (.ok b) → ∀ t ∈ c.state.prov j, c.state.At t ⟨j, .query⟩

/-- What a caller that has returned leaves: a writer whose raises were carried out owes nothing, and
a reader that Redis has failed has queried itself. -/
structure LeavesBehind (i : ι) (s : State ι) : Prop where
  writer : ∀ now w, calls i = .writer now w → (∀ n, (outages i).fails n = none) → Settled w i s
  reader : ∀ r, calls i = .reader r →
    ((outages i).fails 0).isSome = true ∨ ((outages i).fails 1).isSome = true → OwnQueries i s

variable {calls outages} {E : State ι → Prop} {cfg : Settings} (be : Backend)

theorem Kept.triple_noStore {ok : ι → State ι → State ι → Prop} (hkept : Kept ok E) {i : ι}
    {α : Type} {p : App α} (hp : p.Uses NoStore) :
    Triple (sessions ok) (cacheContract E) i (fun _ => True) p fun _ _ => True := by
  refine Triple.of_uses (fun _ _ _ _ _ => trivial) (fun c hc s r s' hi _ hstep => ?_) hp
  have hstores : StoresAsOf i c s := by
    cases c with
    | set key v => exact hc.elim
    | _ => trivial
  obtain ⟨hinv, hT⟩ := hkept.exec hi hstores hstep.1 hstep.2
  exact ⟨hinv, ⟨hT, fun j hj => exec_undisturbed hj hstep.1⟩, trivial⟩

/-- A reader with outages, in its session. -/
theorem Reader.meets_fallback (hkept : Kept (MissesUnread calls outages) E)
    (hcfg : cfg.redisUrl = true) {j : ι} {r : Reader} (hj : calls j = .reader r) {k : ℕ}
    {Good : ℕ → Prop} (hvet : Vetted E r.versionKey k Good) {s : State ι}
    (hi : CacheInvariant s ∧ E s) (hready : Ready r.versionKey k j s) :
    Meets (sessions (MissesUnread calls outages)) (cacheContract E) j
      (Returns fun _ s => Informed Good j s ∧
        (((outages j).fails 0).isSome = true ∨ ((outages j).fails 1).isSome = true →
          OwnQueries j s))
      (withSession (r.fallback cfg (outages j) be)) s := by
  have hmiss : ((outages j).fails 0).isSome = true → ∀ s s', MissesUnread calls outages j s s' →
      ¬FindsBody j s s' := fun hlost s s' hok => hok r hj hlost
  have hinformed := triple_informedSession hkept
    (r.triple_fallback (o := outages j) be hkept hcfg hvet hmiss) s hi hready
  by_cases hfailed : ((outages j).fails 0).isSome = true ∨ ((outages j).fails 1).isSome = true
  · have hown : OwnQueries j s := by
      intro t ht
      rw [hready.1] at ht
      cases ht
    have hsession : (withSession (r.fallback cfg (outages j) be)).Uses
        (ProbesVersions ((outages j).fails 0).isSome) := by
      refine (r.probesVersions_fallback be hfailed).attempt.bind fun out => ?_
      exact Prog.Uses.bind (Prog.uses_perform trivial) fun _ => Prog.uses_ofExcept out
    refine (hinformed.and_of_uses stable_ownQueries (fun c hc s r' s' hi hs hstep => ?_) hsession
      hown).mono fun out s _ h => ?_
    · exact hs.exec hi.1 hc (fun hlost => hmiss hlost s s' hstep.2) hstep.1
    · cases out with
      | ok b => exact ⟨h.1, fun _ => h.2⟩
      | error e => trivial
  · refine hinformed.mono fun out s _ h => ?_
    cases out with
    | ok b => exact ⟨h, fun hf => absurd hf hfailed⟩
    | error e => trivial

/-- Every caller meets its contract from a cold start, whatever fails. -/
theorem ColdStart.allMeet_flaky (hcfg : cfg.redisUrl = true) {s : State ι} (h : ColdStart s) :
    AllMeet (sessions (MissesUnread calls outages)) (cacheContract fun _ => True)
      (fun i => Returns fun _ => LeavesBehind calls outages i)
      ⟨s, flakyRequests cfg be calls outages⟩ := by
  refine ⟨⟨h.cacheInvariant, trivial⟩, fun i => ?_⟩
  simp only [flakyRequests]
  cases hi : calls i with
  | reader r =>
      show Meets _ _ i _ (withSession (withOutages (outages i) (r.program cfg be))) s
      rw [r.withOutages_program hcfg be]
      refine (Reader.meets_fallback be kept_true hcfg hi (vetted_true _)
        ⟨h.cacheInvariant, trivial⟩ ⟨(h.idle i).2, Nat.zero_le _⟩).mono fun out s _ hout => ?_
      cases out with
      | ok b =>
          refine ⟨fun now w hw => ?_, fun _ _ => hout.2⟩
          rw [hi] at hw
          cases hw
      | error e => trivial
  | writer now w =>
      by_cases hanswered : ∀ n, (outages i).fails n = none
      · have hwhole : withOutages (outages i) ((Caller.writer now w).program cfg be) =
            (Caller.writer now w).program cfg be := Prog.failing_of_none hanswered
        rw [hwhole]
        refine Meets.mono (fun out s _ hout => ?_) (kept_true.meets (fun _ h => h.1)
          (fun _ h => h) (w.triple_request hcfg be now i s h.cacheInvariant (h.ledger w i)))
        cases out with
        | ok b =>
            refine ⟨fun now' w' hw _ => ?_, fun r hr => ?_⟩
            · rw [hi] at hw
              cases hw
              exact hout
            · rw [hi] at hr
              cases hr
        | error e => trivial
      · have huses : (withSession (withOutages (outages i)
            ((Caller.writer now w).program cfg be))).Uses NoStore := by
          refine admits_noStore.session (Prog.Uses.failing ?_)
          exact (w.uses_call cfg be now).bind fun _ => trivial
        refine (kept_true.triple_noStore huses s ⟨h.cacheInvariant, trivial⟩ trivial).mono
          fun out s _ _ => ?_
        cases out with
        | ok b =>
            refine ⟨fun now' w' hw hall => absurd hall hanswered, fun r hr => ?_⟩
            rw [hi] at hr
            cases hr
        | error e => trivial

/-- Where no reader finds a body after its version read has failed, outages make nobody see older
data, and make a reader query. -/
theorem fail_open_fresh (hcfg : cfg.redisUrl = true) {s₀ : State ι} (hcold : ColdStart s₀)
    {c₁ c₂ : Config ι Exc Command (State ι) (Option Reply)}
    (h₁ : Run (sessions (MissesUnread calls outages)) ⟨s₀, flakyRequests cfg be calls outages⟩ c₁)
    (h₂ : Run (sessions (MissesUnread calls outages)) c₁ c₂) :
    NeverOlder calls outages (flakyRequests cfg be calls outages) c₁ c₂ ∧
      FromDatabase calls outages c₂ ∧
      ∀ j r, calls j = .reader r → flakyRequests cfg be calls outages j =
        withSession (r.fallback cfg (outages j) be) := by
  have hkeepAll : Kept (MissesUnread calls outages) fun _ => True := kept_true
  have hclose : ∀ j s, MissesUnread calls outages j s (endTx j (s.log j .rollback)) := by
    rintro j s r - - ⟨key, v, p, -, htrace⟩
    have hlast : (s.log j .rollback).trace = s.trace ++ [⟨j, .get key⟩] := htrace
    simp [World.log] at hlast
  have hreads : ∀ j r, calls j = .reader r → flakyRequests cfg be calls outages j =
      withSession (r.fallback cfg (outages j) be) := by
    intro j r hj
    rw [← r.withOutages_program hcfg be]
    simp only [flakyRequests, hj]
    rfl
  have hall₀ : AllMeet _ _ (fun i => Returns fun _ => LeavesBehind calls outages i)
      ⟨s₀, flakyRequests cfg be calls outages⟩ := hcold.allMeet_flaky be hcfg
  have hall₁ := h₁.allMeet hkeepAll.fits hall₀
  refine ⟨?_, ?_, hreads⟩
  · intro i j now w r a b tc chs ch hi hj hanswered hreturned hstart hdone hcommit hch haffects
    -- up to `c₁` every contract holds, so the writer's raise lies after its commit
    obtain ⟨n, tb, htb, hraised⟩ : ∃ n tb, tc < tb ∧ RaisedAt r.versionKey n tb c₁.state := by
      have hmeets := hall₁.meets i
      rw [hreturned] at hmeets
      have hleaves := Meets.of_returned hkeepAll.sharedStep (hclose i _) hall₁.inv hmeets
      obtain ⟨n, tb, htb, hraised⟩ := hleaves.writer now w hi hanswered tc chs
        (World.at_log.2 (.inl hcommit)) ch hch r.versionKey haffects
      exact ⟨n, tb, htb, (raisedAt_log (by simp) _ n tb).1 hraised⟩
    -- from `c₁` on the contracts are about this raise
    have hkept : Kept (MissesUnread calls outages) (RaisedAt r.versionKey n tb) :=
      .of_versionStep fun _ _ hT h => hT.kept _ n tb h
    have hall₂ : AllMeet (sessions (MissesUnread calls outages))
        (cacheContract (RaisedAt r.versionKey n tb))
        (fun i => Returns fun _ => LeavesBehind calls outages i) c₁ := by
      refine ⟨⟨hall₁.inv.1, hraised⟩, fun k => ?_⟩
      exact hkept.meets (fun _ h => ⟨h.1, trivial⟩) (fun _ h => h.1) (hall₁.meets k)
    have hprov : c₁.state.prov j = [] :=
      (prov_of_idle (Run.of_guarded h₁) hstart).trans (hcold.idle j).2
    have hmeets := Reader.meets_fallback be hkept hcfg hj vetted_raisedAt hall₂.inv
      ⟨hprov, hall₁.inv.1.raised_le _ n tb r.isVersionKey hraised⟩
    rw [← hreads j r hj, ← hstart] at hmeets
    have hend := AllMeet.returned hkept (hclose j) hall₂ h₂ hmeets hdone
    intro t ht
    exact htb.trans (hend.1 t ht)
  · intro j r b hj hfailed hdone
    have hall₂ := h₂.allMeet hkeepAll.fits hall₁
    have hmeets := hall₂.meets j
    rw [hdone] at hmeets
    have hleaves := Meets.of_returned hkeepAll.sharedStep (hclose j _) hall₂.inv hmeets
    intro t ht
    rcases World.at_log.1 (hleaves.reader r hj hfailed t ht) with hat | ⟨-, he⟩
    · exact hat
    · cases he

end Runs

/-! ## One reader before a deletion and one after it -/

namespace Sample

/-- A reader, a writer, and a reader that starts when the writer has returned. -/
inductive Turn where
  | early
  | writer
  | late
  deriving DecidableEq

def outageCalls : Turn → Caller
  | .writer => .writer 0 (.deleteSpot (spot "a"))
  | _ => .reader (.list listAll)

/-- The first `n` commands of the last reader to Redis fail. -/
def lateOutage (n : ℕ) : Turn → Outages
  | .late => ⟨fun m => if m < n then some (.redis "") else none, fun m e h => by
      split at h
      · cases h
        rfl
      · cases h⟩
  | _ => .none

def outageRequests (n : ℕ) : Turn → App (Option Reply) :=
  flakyRequests settings backend outageCalls (lateOutage n)

/-- The last reader probes no key in this step. -/
def probesNothing (t : Turn) (s s' : State Turn) : Bool :=
  t != .late || s'.trace.length == s.trace.length || s'.trace.getLast?.all fun e =>
    match e.action with
    | .get _ => false
    | _ => true

theorem missesUnread_of_probesNothing {t : Turn} {s s' : State Turn}
    (h : probesNothing t s s' = true) : MissesUnread outageCalls (lateOutage 2) t s s' := by
  rintro r - hlost ⟨key, v, p, -, htrace⟩
  cases t with
  | early => cases hlost
  | writer => cases hlost
  | late => simp [probesNothing, htrace] at h

/-- The three callers one after the other, and what the last two leave. -/
def inTurn (ok : Turn → State Turn → State Turn → Prop) [∀ t s s', Decidable (ok t s s')] (n : ℕ)
    (shows : State Turn → State Turn → Bool) : Option Unit :=
  let alone := fun t s =>
    runAlone (guardExec (fun t => exec t) ok) t
      (withOutages (lateOutage n t) ((outageCalls t).program settings backend)) s
  (alone .early (World.fresh oneSpot)).bind fun out₁ =>
    (alone .writer out₁.2).bind fun out₂ =>
      (alone .late out₂.2).bind fun out₃ =>
        if out₂.1.isOk ∧ out₃.1.isOk ∧ shows out₂.2 out₃.2 = true then some () else none

theorem run_inTurn {ok : Turn → State Turn → State Turn → Prop} [∀ t s s', Decidable (ok t s s')]
    {n : ℕ} {shows : State Turn → State Turn → Bool} (h : inTurn ok n shows = some ()) :
    ∃ c₁ c₂ : Config Turn Exc Command (State Turn) (Option Reply), ∃ a b,
      Run (sessions ok) ⟨World.fresh oneSpot, outageRequests n⟩ c₁ ∧
      Run (sessions ok) c₁ c₂ ∧ shows c₁.state c₂.state = true ∧
      c₁.thread .writer = closeSession (.ok a) ∧ c₁.thread .late = outageRequests n .late ∧
      c₂.thread .late = closeSession (.ok b) := by
  have hok : ∀ {r : Except Exc (Option Reply)}, r.isOk = true → ∃ a, r = .ok a := by
    intro r hr
    cases r with
    | ok a => exact ⟨a, rfl⟩
    | error e => cases hr
  obtain ⟨⟨r₁, t₁⟩, hrun₁, h⟩ := Option.bind_eq_some_iff.1 h
  obtain ⟨⟨r₂, t₂⟩, hrun₂, h⟩ := Option.bind_eq_some_iff.1 h
  obtain ⟨⟨r₃, t₃⟩, hrun₃, h⟩ := Option.bind_eq_some_iff.1 h
  split at h
  · rename_i hall
    obtain ⟨hok₂, hok₃, hshows⟩ := hall
    obtain ⟨a, rfl⟩ := hok hok₂
    obtain ⟨b, rfl⟩ := hok hok₃
    let start := outageRequests n
    let second := Function.update start .early (closeSession r₁)
    let third := Function.update second .writer (closeSession (.ok a))
    have h₁ : Run (sessions ok) ⟨World.fresh oneSpot, start⟩ ⟨t₁, second⟩ :=
      Run.of_guardExec (run_of_runAlone hrun₁ rfl)
    have h₂ : Run (sessions ok) ⟨t₁, second⟩ ⟨t₂, third⟩ :=
      Run.of_guardExec (run_of_runAlone hrun₂ rfl)
    have h₃ : Run (sessions ok) ⟨t₂, third⟩
        ⟨t₃, Function.update third .late (closeSession (.ok b))⟩ :=
      Run.of_guardExec (run_of_runAlone hrun₃ rfl)
    exact ⟨_, _, a, b, h₁.trans h₂, h₃, hshows, rfl, rfl, rfl⟩
  · cases h

theorem coldStart_oneSpot : ColdStart (World.fresh oneSpot : State Turn) :=
  ⟨fun _ _ _ => nofun, rfl, fun _ => ⟨rfl, rfl⟩⟩

/-- The deletion. -/
def deletion : Event Turn Change := ⟨.writer, .commit [.spot "a" ["deleted_at"]]⟩

/-- The deletion commits at time 7, and the last reader is answered from queries at these times. -/
def answeredFrom (times : List ℕ) (s s' : State Turn) : Bool :=
  decide (s.trace[7]? = some deletion) && decide (s'.prov .late = times)

theorem of_answeredFrom {times : List ℕ} {s s' : State Turn} (h : answeredFrom times s s' = true) :
    s.At 7 deletion ∧ s'.prov .late = times := by
  simpa only [World.At, answeredFrom, Bool.and_eq_true, decide_eq_true_eq] using h

end Sample

/-- The version read of the last reader fails, and its probe: it is answered from queries after the
deletion. -/
theorem fail_open_fresh_longOutage :
    ∃ c₁ c₂ : Config Sample.Turn Exc Command (State Sample.Turn) (Option Reply),
      c₁.state.At 7 Sample.deletion ∧ c₂.state.prov .late = [11, 10] ∧
      NeverOlder Sample.outageCalls (Sample.lateOutage 2) (Sample.outageRequests 2) c₁ c₂ ∧
      FromDatabase Sample.outageCalls (Sample.lateOutage 2) c₂ := by
  have hrun : Sample.inTurn (fun t s s' => Sample.probesNothing t s s' = true) 2
      (Sample.answeredFrom [11, 10]) = some () := by
    decide +kernel
  obtain ⟨c₁, c₂, a, b, h₁, h₂, hshows, -⟩ := Sample.run_inTurn hrun
  obtain ⟨hcommit, hprov⟩ := Sample.of_answeredFrom hshows
  have hguard : ∀ t s s', Sample.probesNothing t s s' = true →
      MissesUnread Sample.outageCalls (Sample.lateOutage 2) t s s' :=
    fun _ _ _ => Sample.missesUnread_of_probesNothing
  have hfresh := fail_open_fresh Sample.backend rfl Sample.coldStart_oneSpot
    (h₁.guarded_mono hguard) (h₂.guarded_mono hguard)
  exact ⟨c₁, c₂, hcommit, hprov, hfresh.1, hfresh.2.1⟩

/-- Only the version read of the last reader fails. It starts after the deletion has returned, and
is answered with the body that was stored before, under version 0. -/
theorem stale_after_outage :
    ∃ c₁ c₂ : Config Sample.Turn Exc Command (State Sample.Turn) (Option Reply),
      Run platform ⟨World.fresh Sample.oneSpot, Sample.outageRequests 1⟩ c₁ ∧
      Run platform c₁ c₂ ∧
      ¬NeverOlder Sample.outageCalls (Sample.lateOutage 1) (Sample.outageRequests 1) c₁ c₂ := by
  have hrun : Sample.inTurn (fun _ _ _ => True) 1 (Sample.answeredFrom [4, 3, 2]) = some () := by
    decide +kernel
  obtain ⟨c₁, c₂, a, b, h₁, h₂, hshows, hreturned, hstart, hdone⟩ := Sample.run_inTurn hrun
  obtain ⟨hcommit, hprov⟩ := Sample.of_answeredFrom hshows
  have hlate : (4 : ℕ) ∈ c₂.state.prov .late := by
    rw [hprov]
    exact List.mem_cons_self
  refine ⟨c₁, c₂, Run.of_guarded h₁, Run.of_guarded h₂, fun hnever => ?_⟩
  have hyounger := hnever .writer .late 0 _ _ a b 7 _ _ rfl rfl (fun _ => rfl) hreturned hstart
    hdone hcommit (List.mem_singleton_self _) (List.mem_cons_self ..) 4 hlate
  exact absurd hyounger (by decide)

end Vivac
