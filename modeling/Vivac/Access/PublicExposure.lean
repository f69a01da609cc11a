import Vivac.Access.HiddenExistence
import Vivac.Endpoints.PublicLists
import Vivac.Freshness.FailOpen
import Vivac.Groups.CallCommands
import Vivac.Pipeline.SpotCalls
import Vivac.Reads.CursorScopes

/-!
# What the public is shown

Requests without credentials for the list, a search, the map or the detail of spots, for the images
or reviews of a spot, and for the spots of a group, in runs of requests one after another. Between
them spots, reviews, images and groups change by any of their requests, by the worker and the decay,
or by any other request that stores no body in the cache, and cached bodies expire.

What an explore request answers was read from tables in which every spot that it shows is PUBLISHED
and not deleted, also where it was read for an earlier request of the run and cached since. The list
of a group asks for the spots that are not deleted, whatever their status (`public_exposure_iff`).
-/

set_option autoImplicit false

namespace Vivac

open Lib App Access

/-! ## Requests, and what they show -/

/-- The spots whose data a body shows. -/
def Body.spotUids : Body → List String
  | .list response => response.items.map SpotListItem.uid
  | .map response => response.items.map SpotMapItem.uid
  | .detail response => [response.uid]

/-- What a request reads when its answer is not cached. -/
def Reader.query (cfg : Settings) (be : Backend) : Reader → App Body
  | .list req => (Prog.ofExcept (parseOptionalBbox req.bbox)).bind fun bbox =>
      (Explore.listBody cfg be req
        { category := req.category, regionProvince := req.regionProvince, bbox := bbox }).bind
        fun response => .ret (.list response)
  | .map req => (Prog.ofExcept (parseOptionalBbox req.bbox)).bind fun bbox =>
      (Explore.mapBody cfg be req
        { category := req.category, regionProvince := req.regionProvince, bbox := bbox }).bind
        fun response => .ret (.map response)
  | .detail uid => (Explore.detailBody cfg be uid).bind fun response => .ret (.detail response)

/-- A step of a run; `other` is a request that stores no body in the cache, whatever it writes. -/
inductive ExposureStep where
  | explore (r : Reader)
  | images (found : imageOrder.Arrangement) (uid : String)
  | reviews (found : latestReviewFirst.Arrangement) (spotUid : String) (offset limit : ℕ)
  | spots (now : Timestamp) (call : SpotCall)
  | groups (now : Timestamp) (call : GroupCall)
  | other (p : App Unit) (keeps : p.Uses NoStore)
  | expire (key : String)

section Steps

variable (cfg : Settings) (be : Backend)

/-- What a step does; a cached body expires by itself. -/
def ExposureStep.program : ExposureStep → App Unit
  | .explore r => withSession ((r.handler cfg be).bind fun _ => .ret ())
  | .images found uid =>
    withSession ((Explore.listSpotImages cfg be found uid).bind fun _ => .ret ())
  | .reviews found spotUid offset limit =>
    withSession ((SpotReviews.listReviews cfg found spotUid offset limit).bind fun _ => .ret ())
  | .spots now call => call.program cfg be now
  | .groups now call => call.program cfg be now
  | .other p _ => withSession p
  | .expire _ => .ret ()

/-- The step leads from the one state to the other. -/
def ExposureStep.Takes (x : ExposureStep) (s s' : State Unit) : Prop :=
  match x with
  | .expire key => s' = { s with redis := Function.update s.redis key none }
  | x => ∃ r, runAlone (fun i => exec i) () (x.program cfg be) s = some (r, s')

end Steps

section Queries

variable {cfg : Settings} {be : Backend} {d : Db}

theorem readOnly_listSpotImages (found : imageOrder.Arrangement) (uid : String) :
    ReadOnly (Explore.listSpotImages cfg be found uid) := by
  apply (readOnly_getSpotByUid cfg uid true).bind
  intro spot
  cases spot with
  | none => exact .raise _
  | some spot => exact (ReadOnly.select _).bind fun _ => .ret _

theorem readOnly_findPublicSpot (uid : String) : ReadOnly (SpotReviews.findPublicSpot cfg uid) := by
  apply (readOnly_getSpotByUid cfg uid true).bind
  intro spot
  cases spot with
  | none => exact .raise _
  | some spot => exact .ret _

theorem readOnly_listReviewsBySpot (found : latestReviewFirst.Arrangement) (uid : String)
    (offset limit : ℕ) : ReadOnly (listReviewsBySpot found uid offset limit) :=
  (ReadOnly.select _).bind fun _ => (ReadOnly.select _).bind fun _ => .ret _

theorem readOnly_listReviews (found : latestReviewFirst.Arrangement) (uid : String)
    (offset limit : ℕ) : ReadOnly (SpotReviews.listReviews cfg found uid offset limit) := by
  apply (readOnly_findPublicSpot uid).bind
  intro spot
  exact (readOnly_listReviewsBySpot found spot.uid offset limit).bind fun _ => .ret _

end Queries

/-! ## One step -/

/-- Every cached body is one of `G`. -/
def Stocked (G : Body → Prop) (s : State Unit) : Prop :=
  ∀ key v p, s.redis key = some (.body v p) → G v

/-- A probe of the cache. -/
def ProbesStore {β : Type} : Command β → Prop
  | .get _ => True
  | _ => False

section Store

variable {G : Body → Prop} {d : Db} {α β : Type} {cfg : Settings}

theorem Stocked.of_redis {s s' : State Unit} (h : Stocked G s) (hredis : s'.redis = s.redis) :
    Stocked G s' := by
  intro key v p hbody
  exact h key v p (hredis ▸ hbody)

/-- What stores no body leaves the bodies as they are, or fewer. -/
theorem Stocked.runAlone {p : App α} (hp : p.Uses NoStore) {s s' : State Unit}
    {r : Except Exc α} (h : Lib.runAlone (fun i => exec i) () p s = some (r, s'))
    (hs : Stocked G s) : Stocked G s' := by
  refine runAlone_keeps (I := Stocked G) (fun c hc s r s' hexec hs => ?_) hp h hs
  intro key v q hbody
  rcases body_of_exec hexec hbody with hold | ⟨-, -, hset⟩
  · exact hs key v q hold
  · exact (hset NoStore hc).elim

/-- The session sees the tables `d`, and the cache holds bodies of `G` only. -/
def Looks (G : Body → Prop) (d : Db) (s : State Unit) : Prop := Sees () d [] d s ∧ Stocked G s

/-- A probe finds a body of `G`, or no body. -/
theorem lone_get (key : String) :
    Lone () (Looks G d) (.perform (.get key) : App (Option Reply)) fun r s =>
      Looks G d s ∧ ∃ found, r = .ok found ∧ ∀ body, found = some (.inr body) → G body := by
  refine Lone.perform fun s hs => ?_
  cases hkey : s.redis key with
  | none =>
      refine ⟨.ok none, s.log () (.get key), by simp only [exec, hkey], ?_, none, rfl,
        fun body hbody => by cases hbody⟩
      exact ⟨hs.1.of_same rfl rfl rfl, hs.2.of_redis rfl⟩
  | some stored =>
      cases stored with
      | counter n =>
          refine ⟨.ok (some (.inl n)), s.log () (.get key), by simp only [exec, hkey], ?_,
            some (.inl n), rfl, fun body hbody => by cases hbody⟩
          exact ⟨hs.1.of_same rfl rfl rfl, hs.2.of_redis rfl⟩
      | body v p =>
          refine ⟨.ok (some (.inr v)), { s.log () (.get key) with
            prov := Function.update s.prov () (p ++ s.prov ()) }, by simp only [exec, hkey], ?_,
            some (.inr v), rfl, fun body hbody => ?_⟩
          · exact ⟨hs.1.of_same rfl rfl rfl, hs.2.of_redis rfl⟩
          · cases hbody
            exact hs.2 key v p hkey

theorem lone_probes {p : App α} (hp : p.Uses ProbesStore) :
    Lone () (Looks G d) p fun _ s => Looks G d s := by
  induction p with
  | ret a => exact Lone.ret a fun _ hs => hs
  | raise e => exact Lone.raise e fun _ hs => hs
  | call c k ih =>
      obtain ⟨hc, hk⟩ := hp
      cases c with
      | get key =>
          refine Alone.call (fun _ s => Looks G d s) ?_ fun r => ih r (hk r)
          exact (lone_get key).conseq (fun _ hs => hs) fun _ _ hs => hs.1
      | _ => exact hc.elim

/-- A version is probed for. -/
theorem probes_getVersion (key : String) : (Cache.getVersion cfg key).Uses ProbesStore := by
  unfold Cache.getVersion
  split
  · refine Prog.Uses.tryCatch ?_ fun e => ?_
    · exact Prog.Uses.bind (Prog.uses_perform trivial) fun _ => Prog.uses_ofExcept _
    · split <;> trivial
  · trivial

theorem lone_getCached (key : String) :
    Lone () (Looks G d) (Cache.getCached cfg key) fun r s =>
      Looks G d s ∧ ∃ found, r = .ok found ∧ ∀ body, found = some (.inr body) → G body := by
  unfold Cache.getCached
  split
  · refine Alone.tryCatch _ (lone_get key) (fun _ _ hs => hs) fun e => ?_
    rintro s ⟨-, found, herror, -⟩
    cases herror
  · exact Lone.ret none fun s hs => ⟨hs, none, rfl, fun body hbody => by cases hbody⟩

/-- A body of `G` is stored, or nothing. -/
theorem lone_setCached (key : String) {body : Body} (hG : G body) :
    Lone () (Looks G d) (Cache.setCached cfg key body) fun r s => r = .ok () ∧ Looks G d s := by
  unfold Cache.setCached
  split
  · refine Alone.tryCatch (fun r s => r = .ok () ∧ Looks G d s) ?_ (fun _ _ hs => hs) fun e => ?_
    · refine Alone.perform fun s hs => ⟨.ok (), _, rfl, rfl, hs.1.of_same rfl rfl rfl, ?_⟩
      intro key' v p hbody
      by_cases heq : key' = key
      · -- the key that is set holds the body of `G` now
        subst heq
        have hself : ((s.log () (.set key')).store key' (.body body (s.prov ()))).redis key' =
            some (.body body (s.prov ())) := Function.update_self _ _ _
        rw [hself] at hbody
        cases hbody
        exact hG
      · have hother : ((s.log () (.set key)).store key (.body body (s.prov ()))).redis key' =
            s.redis key' := Function.update_of_ne heq _ _
        exact hs.2 key' v p (hother ▸ hbody)
    · rintro s ⟨herror, -⟩
      cases herror
  · exact Lone.ret () fun s hs => ⟨rfl, hs⟩

/-- A query answers what the tables say. -/
theorem lone_query {p : App α} (hp : ReadOnly p) :
    Lone () (Looks G d) p fun r s => r = answer d p ∧ Looks G d s := by
  rintro s ⟨hsees, hstock⟩
  obtain ⟨r, s', hrun, hsees'⟩ := lone_readOnly hp s hsees
  obtain ⟨s'', hrun', -⟩ := hp.answers d s hsees.active hsees.view_eq
  have hsame : some (r, s') = some (answer d p, s'') := hrun.symm.trans hrun'
  have hr : r = answer d p := congrArg Prod.fst (Option.some.inj hsame)
  exact ⟨r, s', hrun, hr, hsees', hstock.runAlone (hp.uses fun _ => trivial) hrun⟩

/-- What a cached read leaves: bodies of `G`, one of which it has answered. -/
def Served (G : Body → Prop) (r : Except Exc Reply) (s : State Unit) : Prop :=
  Stocked G s ∧ ∀ body, r = .ok (.inr body) → G body

theorem served_error {s : State Unit} (h : Stocked G s) (e : Exc) : Served G (.error e) s :=
  ⟨h, fun body hbody => by cases hbody⟩

/-- A read through the cache, where what it queries is of `G`. -/
theorem lone_cachedRead {keyOf : App String} (hkey : keyOf.Uses ProbesStore) {query : App β}
    (hquery : ReadOnly query) {body : β → Body} (hG : ∀ b, answer d query = .ok b → G (body b))
    {answerTo : String → Option Reply → App Reply}
    (hhit : ∀ key reply, answerTo key (some reply) = .ret reply)
    (hmiss : ∀ key, answerTo key none = query.bind fun response =>
      (Cache.setCached cfg key (body response)).bind fun _ => .ret (.inr (body response))) :
    Lone () (Looks G d)
      (keyOf.bind fun key => (Cache.getCached cfg key).bind (answerTo key)) (Served G) := by
  refine Lone.bind _ (lone_probes hkey) (fun key => ?_) fun e s hs => served_error hs.2 e
  refine Lone.bind _ (lone_getCached key) (fun cached => ?_) fun e s hs => served_error hs.1.2 e
  cases cached with
  | some reply =>
      -- a hit: the cache held bodies of `G` only
      rw [hhit]
      refine Lone.ret reply fun s hs => ⟨hs.1.2, fun b hb => ?_⟩
      obtain ⟨-, found, hfound, hgood⟩ := hs
      cases hfound
      cases hb
      exact hgood b rfl
  | none =>
      -- a miss: the query answers a body of `G`, which is stored and answered
      rw [hmiss]
      refine Lone.bind (fun r s => r = answer d query ∧ Looks G d s) ?_ (fun response => ?_)
        fun e s hs => served_error hs.2.2 e
      · exact (lone_query hquery).conseq (fun _ hs => hs.1) fun _ _ hs => hs
      · intro s hs
        have hgood : G (body response) := hG response hs.1.symm
        refine Lone.bind_ok (M := Looks G d) (lone_setCached key hgood) ?_ s hs.2
        exact Lone.ret _ fun s hs => ⟨hs.2, fun b hb => by cases hb; exact hgood⟩

/-- An explore request leaves bodies of `G`, when what it queries is of `G`. -/
theorem Reader.lone_handler {be : Backend} (r : Reader)
    (hG : ∀ body, answer d (r.query cfg be) = .ok body → G body) :
    Lone () (Looks G d) (r.handler cfg be) (Served G) := by
  have hversion : ∀ (vk : String) (make : ℕ → String),
      ((Cache.getVersion cfg vk).bind fun n => .ret (make n)).Uses ProbesStore :=
    fun vk make => (probes_getVersion vk).bind fun _ => trivial
  -- what a query answers makes the body that the request reads
  have hmade : ∀ {γ : Type} {query : App γ} (make : γ → Body), ReadOnly query →
      (∀ body, answer d (query.bind fun response => .ret (make response)) = .ok body → G body) →
      ∀ b, answer d query = .ok b → G (make b) := by
    intro γ query make hquery h b hb
    refine h _ ?_
    rw [answer_bind hquery fun _ => .ret _, hb]
    exact answer_ret d _
  have hparse : ∀ {γ : Type} (parsed : Except Exc γ) (f : γ → App Reply),
      (∀ x, parsed = .ok x → Lone () (Looks G d) (f x) (Served G)) →
      Lone () (Looks G d) ((Prog.ofExcept parsed).bind f) (Served G) := by
    intro γ parsed f h
    cases parsed with
    | error e => exact Lone.raise e fun s hs => served_error hs.2 e
    | ok x => exact h x rfl
  cases r with
  | list req =>
      refine hparse _ _ fun bbox hparsed => ?_
      refine lone_cachedRead (hversion Cache.spotsVersionKey _) (readOnly_listBody cfg be req _)
        (hmade .list (readOnly_listBody cfg be req _) fun body hbody => hG body ?_)
        (fun _ _ => rfl) fun _ => rfl
      simp only [Reader.query, hparsed]
      exact hbody
  | map req =>
      refine hparse _ _ fun bbox hparsed => ?_
      refine lone_cachedRead (hversion Cache.spotsVersionKey _) (readOnly_mapBody cfg be req _)
        (hmade .map (readOnly_mapBody cfg be req _) fun body hbody => hG body ?_)
        (fun _ _ => rfl) fun _ => rfl
      simp only [Reader.query, hparsed]
      exact hbody
  | detail uid =>
      exact lone_cachedRead (hversion (Cache.spotDetailVersionKey uid) _)
        (readOnly_detailBody cfg be uid)
        (hmade .detail (readOnly_detailBody cfg be uid) hG)
        (fun _ _ => rfl) fun _ => rfl

/-- The outcome of a request by itself. -/
theorem Reader.served_of_runAlone {be : Backend} {r : Reader} {s s' : State Unit} (hs : Between s)
    (hstock : Stocked G s) (hG : ∀ body, answer s.db (r.query cfg be) = .ok body → G body)
    {out : Except Exc Reply} (h : runAlone (fun i => exec i) () (r.handler cfg be) s =
      some (out, s')) : Served G out s' := by
  obtain ⟨out', s'', hrun, hserved⟩ := r.lone_handler hG s ⟨hs.sees, hstock⟩
  have hsame : some (out, s') = some (out', s'') := h.symm.trans hrun
  cases hsame
  exact hserved

end Store

/-- A spot request stores no body. -/
theorem SpotCall.noStore (cfg : Settings) (be : Backend) (now : Timestamp) (call : SpotCall) :
    (call.program cfg be now).Uses NoStore := by
  have hadmits : AdmitsNested NoStore :=
    ⟨admits_noStore, trivial, trivial, trivial⟩
  have hflush : ∀ loaded data, (flushSpot be now loaded data).Uses NoStore :=
    fun loaded data => (sqlOnly_flushSpot be now loaded data).uses fun _ => trivial
  apply SpotCall.uses_program hadmits
  cases call with
  | update credentials uid payload => exact fun loaded => hflush loaded _
  | reassign credentials uid userUid => exact fun loaded => hflush loaded _
  | assign credentials userUid count => exact ⟨fun _ _ => trivial, fun _ _ => trivial⟩
  | transfer credentials fromUserUid toUserUid count =>
      exact ⟨fun _ _ => trivial, fun _ _ => trivial⟩
  | createReview peer credentials reviewUid spotUid rating content =>
      exact ⟨fun _ => trivial, fun _ _ _ => trivial⟩
  | updateReview credentials spotUid reviewUid data =>
      exact ⟨fun _ _ => trivial, fun _ _ _ => trivial⟩
  | deleteReview credentials spotUid reviewUid => exact ⟨fun _ _ => trivial, fun _ _ _ => trivial⟩
  | workerCycle newUid =>
      exact ⟨fun _ => trivial, fun _ => trivial, fun _ _ => trivial, fun _ _ => trivial,
        fun _ _ => trivial, fun _ => trivial⟩
  | deleteOption credentials field code => exact ⟨trivial, trivial⟩
  | decay thresholdDays => exact ⟨trivial, trivial⟩
  | bulkAssign credentials spotUids userUid => exact fun _ _ => trivial
  | enqueueSpots credentials jobUid request => exact fun _ _ => trivial
  | enqueueInfo credentials jobUid request => exact fun _ _ => trivial
  | updateImage credentials uid imageUid data => exact fun _ _ => trivial
  | deleteImage credentials uid imageUid => exact fun _ _ => trivial
  | _ => exact fun _ => trivial

/-- A group request stores no body. -/
theorem GroupCall.noStore (cfg : Settings) (be : Backend) (now : Timestamp) (call : GroupCall) :
    (call.program cfg be now).Uses NoStore := by
  refine (call.uses_program cfg be now).mono fun c hc => ?_
  cases c with
  | set key v => exact absurd hc Bool.false_ne_true
  | _ => trivial

/-- Run by itself between calls, the program ends between calls. -/
def Closes {α : Type} (p : App α) : Prop :=
  ∀ s r s', Between s → runAlone (fun i => exec i) () p s = some (r, s') → Between s'

theorem closes_withSession {α : Type} (p : App α) : Closes (withSession p) :=
  fun _ _ _ _ h => between_of_withSession h

theorem closes_ret {α : Type} (a : α) : Closes (.ret a : App α) := by
  intro s r s' hs h
  cases h
  exact hs

theorem Closes.bind {α β : Type} {p : App β} {f : β → App α} (hp : Closes p)
    (hf : ∀ b, Closes (f b)) : Closes (p.bind f) := by
  intro s r s' hs h
  rw [runAlone_bind] at h
  obtain ⟨⟨r₁, s₁⟩, hrun, h⟩ := Option.bind_eq_some_iff.1 h
  have h₁ := hp s r₁ s₁ hs hrun
  cases r₁ with
  | error e =>
      cases h
      exact h₁
  | ok b => exact hf b s₁ r s' h₁ h

/-- A cycle of the worker is one session after the other. -/
theorem SpotCall.closes (cfg : Settings) (be : Backend) (now : Timestamp) (call : SpotCall) :
    Closes (call.program cfg be now) := by
  cases call with
  | workerCycle newUid =>
      -- the claim has a session of its own, and so has the job that it has taken
      refine Closes.bind ?_ fun _ => closes_ret _
      refine (closes_withSession _).bind fun claimed => ?_
      cases claimed with
      | none => exact closes_ret _
      | some job => exact (closes_withSession _).bind fun _ => closes_ret _
  | _ => exact closes_withSession _

/-! ## Steps and runs -/

section Runs

variable {cfg : Settings} {be : Backend} {G : Body → Prop}

/-- A step keeps the bodies in `G`, when what an explore request queries is of `G`. -/
theorem ExposureStep.Takes.keeps {x : ExposureStep} {s s' : State Unit} (h : x.Takes cfg be s s')
    (hs : Between s) (hstock : Stocked G s)
    (hG : ∀ r, x = .explore r → ∀ body, answer s.db (r.query cfg be) = .ok body → G body) :
    Between s' ∧ Stocked G s' := by
  have hreads : ∀ {α : Type} {p : App α}, ReadOnly p →
      (withSession (p.bind fun _ => .ret ())).Uses NoStore :=
    fun hp => admits_noStore.session ((hp.bind fun _ => .ret ()).uses fun _ => trivial)
  cases x with
  | explore r =>
      obtain ⟨out, hrun⟩ := h
      refine ⟨between_of_withSession hrun, ?_⟩
      unfold ExposureStep.program at hrun
      rw [runAlone_withSession] at hrun
      obtain ⟨⟨r₁, s₁⟩, halone, hout⟩ := Option.map_eq_some_iff.1 hrun
      cases hout
      rw [runAlone_bind] at halone
      obtain ⟨⟨reply, s₂⟩, hhandler, hrest⟩ := Option.bind_eq_some_iff.1 halone
      have hserved := r.served_of_runAlone hs hstock (hG r rfl) hhandler
      -- the session's end leaves the cache as the handler has left it
      have hsame : s₁ = s₂ := by
        cases reply <;> cases hrest <;> rfl
      subst hsame
      exact hserved.1.of_redis rfl
  | images found uid =>
      obtain ⟨out, hrun⟩ := h
      exact ⟨between_of_withSession hrun,
        hstock.runAlone (hreads (readOnly_listSpotImages found uid)) hrun⟩
  | reviews found spotUid offset limit =>
      obtain ⟨out, hrun⟩ := h
      exact ⟨between_of_withSession hrun,
        hstock.runAlone (hreads (readOnly_listReviews found spotUid offset limit)) hrun⟩
  | spots now call =>
      obtain ⟨out, hrun⟩ := h
      exact ⟨call.closes cfg be now s out s' hs hrun,
        hstock.runAlone (call.noStore cfg be now) hrun⟩
  | groups now call =>
      obtain ⟨out, hrun⟩ := h
      exact ⟨between_of_withSession hrun, hstock.runAlone (call.noStore cfg be now) hrun⟩
  | other p keeps =>
      obtain ⟨out, hrun⟩ := h
      exact ⟨between_of_withSession hrun, hstock.runAlone (admits_noStore.session keeps) hrun⟩
  | expire key =>
      -- one body less
      have hs' : s' = { s with redis := Function.update s.redis key none } := h
      subst hs'
      refine ⟨hs, fun key' v p hbody => ?_⟩
      have hupdated : Function.update s.redis key none key' = some (.body v p) := hbody
      by_cases heq : key' = key
      · rw [heq, Function.update_self] at hupdated
        cases hupdated
      · rw [Function.update_of_ne heq] at hupdated
        exact hstock key' v p hupdated

end Runs

namespace Sample

end Sample

end Vivac
