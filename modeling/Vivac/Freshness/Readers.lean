import Vivac.Core.Contracts
import Vivac.Endpoints.Explore
import Vivac.Freshness.CacheInvariant

/-!
# The cached reads

The list, map and detail handlers store only what they learnt after they read the
version, and answer only what is as of that version. What is good of every query from
now on, and of the bodies from version `k` on (`Vetted`), is then good of the answer of
a read that starts at version `k` or later (`Reader.triple_handler`).
-/

set_option autoImplicit false

namespace Vivac

open Lib App

/-- A request whose answer is cached. -/
inductive Reader where
  | list (req : ListRequest)
  | map (req : MapRequest)
  | detail (uid : String)

namespace Reader

/-- The version its body lies under. -/
def versionKey : Reader → String
  | .list _ => Cache.spotsVersionKey
  | .map _ => Cache.spotsVersionKey
  | .detail uid => Cache.spotDetailVersionKey uid

/-- The handler of the request. -/
def handler (cfg : Settings) (be : Backend) : Reader → App Reply
  | .list req => Explore.listSpots cfg be req
  | .map req => Explore.listSpotsForMap cfg be req
  | .detail uid => Explore.getSpot cfg be uid

/-- The handler among programs of which some have no answer. -/
def program (cfg : Settings) (be : Backend) (r : Reader) : App (Option Reply) :=
  (r.handler cfg be).bind fun answer => .ret (some answer)

theorem isVersionKey (r : Reader) : Cache.IsVersionKey r.versionKey := by
  cases r with
  | list req => exact .inl rfl
  | map req => exact .inl rfl
  | detail uid => exact .inr ⟨uid, rfl⟩

end Reader

/-! ## The queries behind a body -/

section ReadOnly

variable (cfg : Settings) (be : Backend)

theorem readOnly_listSpots (cursor : Option String) (limit : ℕ) (flt : ExploreFilter) :
    ReadOnly (listSpots cfg be cursor limit flt) := by
  have hpage : ∀ (p : Spot → Bool) (next : List Spot → App (List Spot × Option String × Bool)),
      (∀ spots, ReadOnly (next spots)) → ReadOnly ((select fun d =>
        (orderByUid (d.spots.select p)).take (limit + 1)).bind next) :=
    fun p next h => (ReadOnly.select _).bind h
  have hnext : ∀ spots : List Spot, ReadOnly (if limit < spots.length then
      (Prog.ofExcept (lastOf (spots.take limit)) : App Spot).bind fun last => .ret
        (spots.take limit, some (scopeToken be flt.bbox ++ ":" ++ last.uid), true)
      else .ret (spots, none, false)) := by
    intro spots
    split
    · exact (ReadOnly.ofExcept _).bind fun _ => .ret _
    · exact .ret _
  refine (ReadOnly.ofExcept _).bind fun shown => ?_
  cases cursor with
  | none => exact hpage _ _ hnext
  | some c =>
    dsimp only
    split
    · exact hpage _ _ hnext
    · exact (ReadOnly.ofExcept _).bind fun _ => hpage _ _ hnext

theorem readOnly_searchSpots (query : String) (flt : ExploreFilter) (cursor : Option String)
    (limit : ℕ) : ReadOnly (searchSpots cfg be query flt cursor limit) := by
  have hpage : ∀ (p : Spot → Bool) (next : List Spot → App (List Spot × Option String × Bool)),
      (∀ rows, ReadOnly (next rows)) → ReadOnly ((select fun d =>
        (orderBySearch be query (d.spots.select p)).take (limit + 1)).bind next) :=
    fun p next h => (ReadOnly.select _).bind h
  have hnext : ∀ rows : List Spot, ReadOnly (if limit < rows.length then
      (Prog.ofExcept (lastOf (rows.take limit)) : App Spot).bind fun last => .ret
        (rows.take limit, some (encodeSearchCursor be (be.searchScore last query) last.ratingAvg
          last.uid (scopeToken be flt.bbox)), true)
      else .ret (rows, none, false)) := by
    intro rows
    split
    · exact (ReadOnly.ofExcept _).bind fun _ => .ret _
    · exact .ret _
  refine (ReadOnly.ofExcept _).bind fun shown => ?_
  cases cursor with
  | none => exact hpage _ _ hnext
  | some c =>
    dsimp only
    split
    · exact hpage _ _ hnext
    · refine (ReadOnly.ofExcept _).bind fun last => ?_
      exact (ReadOnly.ofExcept _).bind fun _ => hpage _ _ hnext

theorem readOnly_countSpots (query : Option String) (flt : ExploreFilter) :
    ReadOnly (countSpots cfg be query flt) := by
  unfold countSpots
  refine (ReadOnly.ofExcept _).bind fun shown => ?_
  refine (ReadOnly.select _).bind fun total => ?_
  split <;> exact .ret _

theorem readOnly_listSpotsMap (query : Option String) (flt : ExploreFilter) (limit : ℕ) :
    ReadOnly (listSpotsMap cfg be query flt limit) := by
  unfold listSpotsMap
  refine (ReadOnly.ofExcept _).bind fun shown => ?_
  exact (ReadOnly.select _).bind fun spots => .ret _

theorem readOnly_getSpotByUid (uid : String) (publishedOnly : Bool) :
    ReadOnly (getSpotByUid cfg uid publishedOnly) := by
  cases publishedOnly with
  | false => exact .select _
  | true => exact (ReadOnly.ofExcept _).bind fun shown => .select _

/-- A list body is a page, the count and the thumbnails of the page. -/
theorem listBody_eq (req : ListRequest) (flt : ExploreFilter) :
    Explore.listBody cfg be req flt =
      (if nonblank req.q then searchSpots cfg be (req.q.getD "") flt req.cursor req.limit
        else listSpots cfg be req.cursor req.limit flt).bind fun page =>
        (countSpots cfg be req.q flt).bind fun counted =>
          (getThumbnailsBySpots (page.1.map Spot.uid)).bind fun thumbnails =>
            .ret ⟨page.1.map (Explore.toListItem be thumbnails), page.2.1, page.2.2, counted.1,
              counted.2⟩ := by
  unfold Explore.listBody
  split <;> rfl

theorem readOnly_page (req : ListRequest) (flt : ExploreFilter) :
    ReadOnly (if nonblank req.q then searchSpots cfg be (req.q.getD "") flt req.cursor req.limit
      else listSpots cfg be req.cursor req.limit flt) := by
  split
  · exact readOnly_searchSpots cfg be _ _ _ _
  · exact readOnly_listSpots cfg be _ _ _

theorem readOnly_listBody (req : ListRequest) (flt : ExploreFilter) :
    ReadOnly (Explore.listBody cfg be req flt) := by
  rw [listBody_eq]
  apply (readOnly_page cfg be req flt).bind
  intro page
  apply (readOnly_countSpots cfg be req.q flt).bind
  intro counted
  exact (readOnly_getThumbnailsBySpots _).bind fun _ => .ret _

theorem readOnly_mapBody (req : MapRequest) (flt : ExploreFilter) :
    ReadOnly (Explore.mapBody cfg be req flt) := by
  unfold Explore.mapBody
  exact (readOnly_listSpotsMap cfg be _ _ _).bind fun found => .ret _

theorem readOnly_detailBody (uid : String) : ReadOnly (Explore.detailBody cfg be uid) := by
  unfold Explore.detailBody
  refine (readOnly_getSpotByUid cfg _ _).bind fun found => ?_
  split
  · exact .raise _
  · exact (readOnly_getThumbnailsBySpots _).bind fun thumbnails => .ret _

end ReadOnly

/-! ## What a reader knows -/

section Knowledge

variable {ι : Type} [DecidableEq ι] {ok : ι → State ι → State ι → Prop}
  {E : State ι → Prop}

/-- Sessions that keep the cache's invariant, and `E`. -/
abbrev cacheContract (E : State ι → Prop) : Contract ι (State ι) :=
  sessionContract (fun s => CacheInvariant s ∧ E s) VersionStep

/-- Every step that is allowed keeps `E`. -/
structure Kept (ok : ι → State ι → State ι → Prop) (E : State ι → Prop) : Prop where
  command : ∀ (i : ι) {β : Type} (c : Command β) (s : State ι) (r : Except Exc β) (s' : State ι),
    CacheInvariant s → E s → exec i c s = some (r, s') → ok i s s' → CacheInvariant s' →
    VersionStep s s' → E s'
  env : ∀ s s' : State ι, CacheInvariant s → E s → Env s s' → E s'

/-- In the states with `E`, `Good` holds of the queries from now on and of those behind the
bodies from version `k` of `vk` on. -/
structure Vetted (E : State ι → Prop) (vk : String) (k : ℕ) (Good : ℕ → Prop) : Prop where
  young : ∀ s, E s → ∀ t, s.clock ≤ t → Good t
  bodies : ∀ s, CacheInvariant s → E s → ∀ n key v p, Cache.BodyUnder vk n key →
    s.redis key = some (.body v p) → k ≤ n → ∀ t ∈ p, Good t

theorem Kept.sharedStep (h : Kept ok E) :
    SharedStep (fun s => CacheInvariant s ∧ E s) VersionStep where
  refl := .refl
  trans := .trans
  env henv hi := by
    obtain ⟨hinv, hT⟩ := sharedStep_cacheInvariant.env henv hi.1
    exact ⟨⟨hinv, h.env _ _ hi.1 hi.2 henv⟩, hT⟩

theorem Kept.fits (h : Kept ok E) :
    (cacheContract E).Fits (sessions ok : System ι Exc Command (State ι)) :=
  sessionContract_fits h.sharedStep

/-- Whoever keeps the cache's invariant keeps `E` too. -/
theorem Kept.meets (h : Kept ok E) {Inv : State ι → Prop}
    (hinv : ∀ s, CacheInvariant s ∧ E s → Inv s) (hcache : ∀ s, Inv s → CacheInvariant s)
    {α : Type} {i : ι} {p : App α} {s : State ι} {Q : Except Exc α → State ι → Prop}
    (hp : Meets (sessions ok) (sessionContract Inv VersionStep) i Q p s) :
    Meets (sessions ok) (cacheContract E) i Q p s := by
  refine hp.strengthen hinv fun c s r s' hi hexec hok hinv' hT => ?_
  exact ⟨hcache s' hinv', h.command i c s r s' hi.1 hi.2 hexec hok (hcache s' hinv') hT⟩

/-- What every step keeps anyway. -/
theorem Kept.of_versionStep (hE : ∀ s s', VersionStep s s' → E s → E s') : Kept ok E where
  command _ _ _ s _ s' _ h _ _ _ hT := hE s s' hT h
  env s s' hi h henv := hE s s' (sharedStep_cacheInvariant.env henv hi).2 h

/-- Session `j` knows nothing yet, and version `k` has been reached. -/
def Ready (vk : String) (k : ℕ) (j : ι) (s : State ι) : Prop :=
  s.prov j = [] ∧ k ≤ s.counter vk

/-- All session `j` knows is good. -/
def Informed (Good : ℕ → Prop) (j : ι) (s : State ι) : Prop := ∀ t ∈ s.prov j, Good t

/-- Session `j` has read version `n`, no earlier than `k`; all it knows is as of `n`, and good. -/
structure Tracking (vk : String) (k : ℕ) (Good : ℕ → Prop) (n : ℕ) (j : ι) (s : State ι) :
    Prop where
  asOf : AsOf vk n (s.prov j) s
  reached : k ≤ n
  informed : Informed Good j s

variable {vk : String} {k : ℕ} {Good : ℕ → Prop} {n : ℕ} {j : ι}

omit [DecidableEq ι] in
theorem stable_ready (hvk : Cache.IsVersionKey vk) : Stable (cacheContract E) j (Ready vk k j) := by
  rintro s s' - ⟨hund, hstep⟩ ⟨hprov, hk⟩
  exact ⟨hund.prov.trans hprov, hk.trans (hstep.counter_le vk hvk)⟩

omit [DecidableEq ι] in
/-- A step that leaves the session's knowledge alone, or adds what is as of the version and
good. -/
theorem Tracking.step {s s' : State ι} (hvk : Cache.IsVersionKey vk) (hT : VersionStep s s')
    {p : List ℕ} (hprov : s'.prov j = p ++ s.prov j) (hp : AsOf vk n p s)
    (hgood : ∀ t ∈ p, Good t) (h : Tracking vk k Good n j s) : Tracking vk k Good n j s' := by
  refine ⟨?_, h.reached, fun t ht => ?_⟩
  · rw [hprov]
    exact (hp.append h.asOf).mono hvk hT
  · rw [hprov] at ht
    rcases List.mem_append.1 ht with ht | ht
    · exact hgood t ht
    · exact h.informed t ht

omit [DecidableEq ι] in
/-- A step that leaves the session's knowledge alone. -/
theorem Tracking.idle {s s' : State ι} (hvk : Cache.IsVersionKey vk) (hT : VersionStep s s')
    (hprov : s'.prov j = s.prov j) (h : Tracking vk k Good n j s) : Tracking vk k Good n j s' :=
  h.step hvk hT (p := []) hprov (.nil h.asOf.1) (by simp)

omit [DecidableEq ι] in
theorem stable_tracking (hvk : Cache.IsVersionKey vk) :
    Stable (cacheContract E) j (Tracking vk k Good n j) := by
  rintro s s' - ⟨hund, hstep⟩ h
  exact h.idle hvk hstep hund.prov

omit [DecidableEq ι] in
theorem stable_informed :
    Stable (cacheContract E) j (Informed Good j) := by
  rintro s s' - ⟨hund, -⟩ h t ht
  exact h t (hund.prov ▸ ht)

/-- A command other than a store keeps the invariant and `E`. -/
theorem Kept.exec (hkept : Kept ok E) {β : Type} {c : Command β} {s s' : State ι}
    {r : Except Exc β} (hi : CacheInvariant s ∧ E s) (hc : StoresAsOf j c s)
    (hexec : exec j c s = some (r, s')) (hok : ok j s s') :
    (CacheInvariant s' ∧ E s') ∧ VersionStep s s' := by
  obtain ⟨hinv, hT⟩ := keeps_cacheInvariant hi.1 hc hexec
  exact ⟨⟨hinv, hkept.command j c s r s' hi.1 hi.2 hexec hok hinv hT⟩, hT⟩

variable {cfg : Settings}

/-- Reading the version: what the session will learn is as of it. -/
theorem triple_getVersion (Good : ℕ → Prop) (hkept : Kept ok E) (hcfg : cfg.redisUrl = true)
    (hvk : Cache.IsVersionKey vk) :
    Triple (sessions ok) (cacheContract E) j (Ready vk k j) (Cache.getVersion cfg vk)
      (Returns fun n => Tracking vk k Good n j) := by
  -- a version key holds no body, so `int(value)` cannot fail
  have hget : Triple (sessions ok) (cacheContract E) j (Ready vk k j)
      (.perform (.get vk) : App (Option Reply))
      (Succeeds fun v s => ∃ n, Cache.versionOf v = .ok n ∧ Tracking vk k Good n j s) := by
    refine Triple.command (stable_ready hvk) (fun r => ?_) fun s r s' hi hready hexec hok => ?_
    · cases r with
      | error e => exact fun _ _ _ _ h => h.elim
      | ok v =>
        rintro s s' hi hr ⟨n, hn, h⟩
        exact ⟨n, hn, stable_tracking hvk s s' hi hr h⟩
    · obtain ⟨hinv, hT⟩ := hkept.exec hi (c := .get vk) trivial hexec hok
      have hread : ∀ n, s.counter vk = n → s'.prov j = s.prov j → Tracking vk k Good n j s' := by
        rintro n rfl hprov
        have hnow : Tracking vk k Good (s.counter vk) j s := by
          refine ⟨hready.1 ▸ .nil le_rfl, hready.2, fun t ht => ?_⟩
          rw [hready.1] at ht
          cases ht
        exact hnow.idle hvk hT hprov
      refine ⟨hinv, hT, ?_⟩
      rcases exec_get_cases hexec with ⟨hkey, rfl, rfl⟩ | ⟨n, hkey, rfl, rfl⟩ | ⟨v, p, hkey, -, -⟩
      · exact ⟨0, rfl, hread 0 (by simp only [World.counter, hkey]) rfl⟩
      · exact ⟨n, rfl, hread n (by simp only [World.counter, hkey]) rfl⟩
      · exact absurd hkey (hi.1.no_body vk hvk v p)
  unfold Cache.getVersion
  rw [if_pos hcfg]
  refine Triple.tryCatch hkept.fits (Succeeds fun n => Tracking vk k Good n j) ?_ (fun n => ?_)
    fun e => ?_
  · refine Triple.bind hkept.fits
      (fun v s => ∃ n, Cache.versionOf v = .ok n ∧ Tracking vk k Good n j s)
      (hget.conseq (fun _ _ h => h) ?_) fun v => ?_
    · intro r s _ h
      cases r with
      | ok v => exact h
      | error e => exact h.elim
    · rintro s hi ⟨n, hn, h⟩
      rw [hn]
      exact fun s' hi' hr => stable_tracking hvk s s' hi' hr h
  · exact Triple.ret_returns (stable_tracking hvk) fun _ _ h => h
  · exact fun _ _ h => h.elim

/-- A probe adds to the session's knowledge what is as of the version it probes under. -/
theorem triple_getCached (hkept : Kept ok E) (hvet : Vetted E vk k Good)
    (hcfg : cfg.redisUrl = true) {key : String} (hkey : Cache.BodyUnder vk n key) :
    Triple (sessions ok) (cacheContract E) j (Tracking vk k Good n j) (Cache.getCached cfg key)
      (Returns fun _ => Tracking vk k Good n j) := by
  have hvk := hkey.isVersionKey
  unfold Cache.getCached
  rw [if_pos hcfg]
  refine triple_tryExcept hkept.sharedStep (stable_tracking hvk) ?_
  refine Triple.command (stable_tracking hvk) (fun _ => stable_tracking hvk)
    fun s r s' hi h hexec hok => ?_
  obtain ⟨hinv, hT⟩ := hkept.exec hi (c := .get key) trivial hexec hok
  refine ⟨hinv, hT, ?_⟩
  rcases exec_get_cases hexec with ⟨-, -, rfl⟩ | ⟨m, -, -, rfl⟩ | ⟨v, p, hbody, -, rfl⟩
  · exact h.idle hvk hT rfl
  · exact h.idle hvk hT rfl
  · exact h.step hvk hT (Function.update_self _ _ _) (hi.1.bodies vk n key v p hkey hbody)
      (hvet.bodies s hi.1 hi.2 n key v p hkey hbody h.reached)

/-- A body is stored with the knowledge of its session. -/
theorem triple_setCached (hkept : Kept ok E) (hcfg : cfg.redisUrl = true) {key : String} {v : Body}
    (hkey : Cache.BodyUnder vk n key) :
    Triple (sessions ok) (cacheContract E) j (Tracking vk k Good n j) (Cache.setCached cfg key v)
      (Returns fun _ => Tracking vk k Good n j) := by
  have hvk := hkey.isVersionKey
  unfold Cache.setCached
  rw [if_pos hcfg]
  refine triple_tryExcept hkept.sharedStep (stable_tracking hvk) ?_
  refine Triple.command (stable_tracking hvk) (fun _ => stable_tracking hvk)
    fun s r s' hi h hexec hok => ?_
  obtain ⟨hinv, hT⟩ := hkept.exec hi (c := .set key v) ⟨vk, n, hkey, h.asOf⟩ hexec hok
  refine ⟨hinv, hT, ?_⟩
  obtain ⟨-, rfl⟩ := exec_set_eq hexec
  exact h.idle hvk hT rfl

/-- Queries add times of now. -/
theorem triple_queries (hkept : Kept ok E) (hyoung : ∀ s, E s → ∀ t, s.clock ≤ t → Good t)
    {α : Type} {p : App α} (hp : ReadOnly p) (hvk : Cache.IsVersionKey vk) :
    Triple (sessions ok) (cacheContract E) j (Tracking vk k Good n j) p
      (Returns fun _ => Tracking vk k Good n j) := by
  refine (Triple.readOnly hp (stable_tracking hvk) ?_).conseq (fun _ _ h => h) ?_
  · intro R f s r s' hi h hexec hok
    obtain ⟨hinv, hT⟩ := hkept.exec hi (c := .sql (Stmt.read f)) trivial hexec hok
    refine ⟨hinv, hT, ?_⟩
    rcases exec_sql_cases hexec with ⟨-, -, rfl⟩ | ⟨-, e, he, -, -⟩ | ⟨-, eff, -, -, -, rfl⟩
    · exact h
    · cases he
    · refine h.step hvk hT (p := [s.clock]) (Function.update_self _ _ _) (.now h.asOf.1) ?_
      intro t ht
      rw [List.mem_singleton.1 ht]
      exact hyoung s hi.2 _ le_rfl
  · intro r s _ h
    cases r with
    | ok a => exact h
    | error e => trivial

/-- `key` lies under the version session `j` has read. -/
def UnderKey (vk : String) (k : ℕ) (Good : ℕ → Prop) (j : ι) (key : String) (s : State ι) : Prop :=
  ∃ n, Cache.BodyUnder vk n key ∧ Tracking vk k Good n j s

/-- Probe a key, and on a miss query and store: the answer is as of the version read. -/
theorem triple_cachedBody (hkept : Kept ok E) (hvet : Vetted E vk k Good) {β : Type}
    (hcfg : cfg.redisUrl = true) {key : String} {query : App β} {body : β → Body}
    (hquery : ReadOnly query) :
    Triple (sessions ok) (cacheContract E) j (UnderKey vk k Good j key)
      ((Cache.getCached cfg key).bind fun c =>
        match c with
        | some cached => .ret cached
        | none => query.bind fun response =>
          (Cache.setCached cfg key (body response)).bind fun _ => .ret (.inr (body response)))
      (Returns fun _ => Informed Good j) := by
  rintro s hi ⟨n, hkey, hs⟩
  have hvk := hkey.isVersionKey
  refine Triple.bind_returns hkept.fits _ (triple_getCached hkept hvet hcfg hkey) ?_ s hi hs
  intro c
  cases c with
  | some cached => exact Triple.ret_returns (stable_tracking hvk) fun _ _ h => h.informed
  | none =>
    refine Triple.bind_returns hkept.fits _
      (triple_queries hkept hvet.young hquery hvk) fun response => ?_
    refine Triple.bind_returns hkept.fits _ (triple_setCached hkept hcfg hkey) fun _ => ?_
    exact Triple.ret_returns (stable_tracking hvk) fun _ _ h => h.informed

/-- A key made from the version read lies under it. -/
theorem triple_key (Good : ℕ → Prop) (hkept : Kept ok E) (hcfg : cfg.redisUrl = true)
    (hvk : Cache.IsVersionKey vk) {make : ℕ → String} (hmake : ∀ n, Cache.BodyUnder vk n (make n)) :
    Triple (sessions ok) (cacheContract E) j (Ready vk k j)
      ((Cache.getVersion cfg vk).bind fun n => .ret (make n))
      (Returns (UnderKey vk k Good j)) := by
  refine Triple.bind_returns hkept.fits _ (triple_getVersion Good hkept hcfg hvk) fun n => ?_
  exact Triple.ret_returns (stable_tracking hvk) fun _ _ h => ⟨n, hmake n, h⟩

/-- A reader that knows nothing yet and starts at version `k` or later answers from good
queries. -/
theorem Reader.triple_handler (be : Backend) (hkept : Kept ok E) (hcfg : cfg.redisUrl = true)
    (r : Reader) (hvet : Vetted E r.versionKey k Good) :
    Triple (sessions ok) (cacheContract E) j (Ready r.versionKey k j) (r.handler cfg be)
      (Returns fun _ => Informed Good j) := by
  cases r with
  | list req =>
    refine triple_ofExcept fun bbox _ => ?_
    refine Triple.bind_returns hkept.fits _ (triple_key Good hkept hcfg (.inl rfl) fun n =>
      Cache.bodyUnder_spotsListKey n (be.sha256 (Cache.rawParams req.params))) fun key => ?_
    exact triple_cachedBody hkept hvet hcfg (readOnly_listBody cfg be req _)
  | map req =>
    refine triple_ofExcept fun bbox _ => ?_
    refine Triple.bind_returns hkept.fits _ (triple_key Good hkept hcfg (.inl rfl) fun n =>
      Cache.bodyUnder_spotsListKey n (be.sha256 (Cache.rawParams req.params))) fun key => ?_
    exact triple_cachedBody hkept hvet hcfg (readOnly_mapBody cfg be req _)
  | detail uid =>
    refine Triple.bind_returns hkept.fits _ (triple_key Good hkept hcfg (.inr ⟨uid, rfl⟩) fun n =>
      Cache.bodyUnder_spotDetailBodyKey uid n) fun key => ?_
    exact triple_cachedBody hkept hvet hcfg (readOnly_detailBody cfg be uid)

/-- The same in the session of the request. -/
theorem triple_informedSession (hkept : Kept ok E) {P : State ι → Prop} {α : Type} {p : App α}
    (hp : Triple (sessions ok) (cacheContract E) j P p (Returns fun _ => Informed Good j)) :
    Triple (sessions ok) (cacheContract E) j P (withSession p)
      (Returns fun _ => Informed Good j) := by
  refine triple_withSession hkept.sharedStep (fun _ => stable_informed) hp fun s hi hok => ?_
  obtain ⟨hinv, hT⟩ := hkept.exec hi (c := .rollback) trivial rfl hok
  exact ⟨hinv, hT, fun _ h => h⟩

theorem Reader.triple_request (be : Backend) (hkept : Kept ok E) (hcfg : cfg.redisUrl = true)
    (r : Reader) (hvet : Vetted E r.versionKey k Good) :
    Triple (sessions ok) (cacheContract E) j (Ready r.versionKey k j)
      (withSession (r.program cfg be)) (Returns fun _ => Informed Good j) := by
  refine triple_informedSession hkept ?_
  refine Triple.bind_returns hkept.fits _ (r.triple_handler be hkept hcfg hvet) fun _ => ?_
  exact Triple.ret_returns stable_informed fun _ _ h => h

/-- In a pool that keeps its contracts, a session that is done has what its program ends with. -/
theorem AllMeet.returned (hkept : Kept ok E)
    (hclose : ∀ s, ok j s (endTx j (s.log j .rollback)))
    {Q : ι → Except Exc (Option Reply) → State ι → Prop}
    {c₁ c₂ : Config ι Exc Command (State ι) (Option Reply)}
    (hall : AllMeet (sessions ok) (cacheContract E) Q c₁) (hrun : Run (sessions ok) c₁ c₂)
    {M : State ι → Prop}
    (hmeets : Meets (sessions ok) (cacheContract E) j (Returns fun _ => M) (c₁.thread j) c₁.state)
    {b : Option Reply} (hdone : c₂.thread j = closeSession (.ok b)) :
    M (endTx j (c₂.state.log j .rollback)) := by
  let post := Function.update Q j (Returns fun _ => M)
  have hpost : post j = Returns fun _ => M := Function.update_self ..
  have hall₁ : AllMeet (sessions ok) (cacheContract E) post c₁ := by
    refine ⟨hall.inv, fun i => ?_⟩
    by_cases hij : i = j
    · subst hij
      rw [hpost]
      exact hmeets
    · rw [show post i = Q i from Function.update_of_ne hij _ _]
      exact hall.meets i
  have hall₂ := hrun.allMeet hkept.fits hall₁
  have hend := hall₂.meets j
  rw [hdone, hpost] at hend
  exact Meets.of_returned hkept.sharedStep (hclose _) hall₂.inv hend

/-- In a pool that keeps its contracts, a reader that starts at version `k` or later and is
done has been answered from good queries. -/
theorem Reader.informed_of_run (be : Backend) (hkept : Kept ok E) (hcfg : cfg.redisUrl = true)
    (hclose : ∀ s, ok j s (endTx j (s.log j .rollback))) {r : Reader}
    (hvet : Vetted E r.versionKey k Good)
    {Q : ι → Except Exc (Option Reply) → State ι → Prop}
    {c₁ c₂ : Config ι Exc Command (State ι) (Option Reply)}
    (hall : AllMeet (sessions ok) (cacheContract E) Q c₁) (hrun : Run (sessions ok) c₁ c₂)
    (hstart : c₁.thread j = withSession (r.program cfg be))
    (hready : Ready r.versionKey k j c₁.state) {b : Option Reply}
    (hdone : c₂.thread j = closeSession (.ok b)) : Informed Good j c₂.state := by
  have hmeets : Meets (sessions ok) (cacheContract E) j (Returns fun _ => Informed Good j)
      (c₁.thread j) c₁.state := by
    rw [hstart]
    exact r.triple_request be hkept hcfg hvet c₁.state hall.inv hready
  exact AllMeet.returned hkept hclose hall hrun hmeets hdone

end Knowledge

end Vivac
