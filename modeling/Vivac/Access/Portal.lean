import Vivac.Access.Accounts

/-!
# Requests that make and bring tokens

Any number of requests log in, renew their tokens, ask who they are or do something else,
interleaved statement by statement, while time passes and connections are lost (`Portal`). A bearer
brings tokens that were made here, or such as cannot be read.

Every run keeps the portal sound (`sound_of_run`): each token was made at a login or for a refresh
token that was made before, and each request that is let in has brought a token that was made.
-/

set_option autoImplicit false

namespace Vivac.Access

open Lib App

/-- What the requests take from outside. -/
structure AuthServer (Token : Type) where
  be : Backend
  dbLower : String → String
  cfg : TokenSettings
  jwt : Jwt Token

/-- A request, with what it brings. -/
inductive AuthCall (Token : Type) where
  | googleLogin (uid : String) (nicknames : ℕ → String) (info : Option GoogleInfo)
      (inviteUid : Option String)
  | refresh (refreshToken : Token)
  | adminGoogleLogin (info : Option GoogleInfo)
  | me (bearer : Option Token)
  | other (p : App Unit)

/-- What a request is to answer; `waiting` is before it has come, and `answered` after the
answer. -/
inductive Reply where
  | waiting
  | tokens (userUid : String)
  | adminToken (user : User)
  | profile (user : User)
  | done
  | answered

/-- A token that was made, for which request and when. -/
structure Ticket (ι : Type) where
  payload : Payload
  request : ι
  issuedAt : Timestamp

/-- A request that was let in, and as whom. -/
structure Admission (ι : Type) where
  request : ι
  user : User
  answeredAt : Timestamp

section Programs

variable {Token : Type} (v : AuthServer Token) (now : Timestamp)

/-- The handler of a request that comes at `now`. -/
def AuthCall.handler : AuthCall Token → App Reply
  | .googleLogin uid nicknames info inviteUid =>
    (Auth.googleLogin v.be now uid nicknames info inviteUid).bind fun userUid =>
      .ret (.tokens userUid)
  | .refresh token => (Auth.refresh v.jwt now token).bind fun userUid => .ret (.tokens userUid)
  | .adminGoogleLogin info =>
    (AdminAuth.adminGoogleLogin v.be v.dbLower v.cfg info).bind fun user => .ret (.adminToken user)
  | .me bearer => (Auth.me v.jwt now bearer).bind fun user => .ret (.profile user)
  | .other p => p.bind fun _ => .ret .done

/-- A handler that has raised leaves its session. -/
def closeOnError : Except Exc Reply → App Reply
  | .ok reply => .ret reply
  | .error e => closeSession (.error e)

/-- The program of a request up to its answer. -/
def AuthCall.program (call : AuthCall Token) : App Reply :=
  (call.handler v now).attempt.bind closeOnError

/-- The token that a request brings. -/
def AuthCall.token : AuthCall Token → Option Token
  | .refresh token => some token
  | .me bearer => bearer
  | _ => none

variable {ι : Type} (i : ι)

/-- The tokens that are made for an answer. -/
def ticketsOf (cfg : TokenSettings) : Reply → List (Ticket ι)
  | .tokens userUid =>
      [⟨accessClaims cfg now userUid, i, now⟩, ⟨refreshClaims cfg now userUid, i, now⟩]
  | .adminToken user => [⟨AdminAuth.adminTokenOf cfg now user, i, now⟩]
  | _ => []

/-- Who is let in by an answer. -/
def admissionsOf : Reply → List (Admission ι)
  | .profile user => [⟨i, user, now⟩]
  | _ => []

end Programs

/-- The sessions of the requests, the clock, the tokens made and the requests let in so far, and the
committed database of each command with its time. -/
structure Portal (ι : Type) where
  config : Config ι Exc Command (State ι) Reply
  now : Timestamp
  tickets : List (Ticket ι) := []
  admitted : List (Admission ι) := []
  past : List (Timestamp × Db) := []

/-- No request has come yet. -/
def Portal.start {ι : Type} (db : Db) (now : Timestamp) : Portal ι where
  config := ⟨World.fresh db, fun _ => .ret .waiting⟩
  now := now

section Steps

variable {ι Token : Type} [DecidableEq ι] (v : AuthServer Token) (calls : ι → AuthCall Token)
  (arrival : ι → Timestamp)

/-- A token that can be read was made here, by now. -/
def Known (tickets : List (Ticket ι)) (now : Timestamp) (token : Token) : Prop :=
  ∀ t payload, v.jwt.decode t token = some payload →
    ∃ k ∈ tickets, token = v.jwt.encode k.payload ∧ k.issuedAt ≤ now

/-- Time passes, a request comes, a command runs, or a request answers. -/
inductive PortalStep : Portal ι → Portal ι → Prop
  | wait {s : Portal ι} (later : Timestamp) (h : s.now ≤ later) :
      PortalStep s { s with now := later }
  | arrive {s : Portal ι} (i : ι) (hwaiting : s.config.thread i = .ret .waiting)
      (hnow : arrival i = s.now) (hknown : ∀ token, (calls i).token = some token →
        Known v s.tickets s.now token) :
      PortalStep s { s with config := s.config.give i ((calls i).program v s.now) }
  | command {s : Portal ι} (config : Config ι Exc Command (State ι) Reply)
      (h : Step platform s.config config) :
      PortalStep s { s with
        config := config
        past := s.past ++ [(s.now, s.config.state.db)] }
  | answer {s : Portal ι} (i : ι) (reply : Reply) (h : s.config.thread i = .ret reply)
      (hcome : reply ≠ .waiting) :
      PortalStep s { s with
        config := s.config.give i (closeSession (.ok .answered))
        tickets := s.tickets ++ ticketsOf s.now i v.cfg reply
        admitted := s.admitted ++ admissionsOf s.now i reply }

/-- Any number of steps. -/
abbrev PortalRun : Portal ι → Portal ι → Prop :=
  Relation.ReflTransGen (PortalStep v calls arrival)

/-! ## What a token rests on -/

/-- The user was there when the request looked, between its arrival and `t`. -/
def Portal.Saw (s : Portal ι) (i : ι) (t : Timestamp) (user : User) : Prop :=
  ∃ at' d, (at', d) ∈ s.past ∧ arrival i ≤ at' ∧ at' ≤ t ∧ d.users.find? user.uid = some user

/-- The token was made at a login. -/
inductive SignedIn (s : Portal ι) (k : Ticket ι) : Prop
  | google {uid : String} {nicknames : ℕ → String} {info : GoogleInfo} {inviteUid : Option String}
      {user : User} (hk : k ∈ s.tickets)
      (hcall : calls k.request = .googleLogin uid nicknames (some info) inviteUid)
      (hsaw : s.Saw arrival k.request k.issuedAt user) (huser : k.payload.sub = user.uid)
      (hactive : user.isActive = true) (hsub : user.googleSub = info.sub)
  | staff {info : GoogleInfo} {user : User} (hk : k ∈ s.tickets)
      (hcall : calls k.request = .adminGoogleLogin (some info))
      (hsaw : s.Saw arrival k.request k.issuedAt user)
      (hpayload : k.payload = AdminAuth.adminTokenOf v.cfg k.issuedAt user)
      (hactive : user.isActive = true) (hstaff : user.isStaff = true)
      (hdomain : domainAllowed v.be v.cfg info.email = true)
      (haddress : v.dbLower user.email = v.be.lower info.email)

/-- The token `k` was made for the refresh token `r`, which was valid then, and for its user, who
was active. -/
structure Renewed (s : Portal ι) (r k : Ticket ι) : Prop where
  old : r ∈ s.tickets
  new : k ∈ s.tickets
  call : calls k.request = .refresh (v.jwt.encode r.payload)
  type : r.payload.type = "refresh"
  issued : r.issuedAt ≤ arrival k.request
  valid : r.payload.ValidAt (arrival k.request)
  sub : k.payload.sub = r.payload.sub
  active : ∃ user, s.Saw arrival k.request k.issuedAt user ∧ k.payload.sub = user.uid ∧
    user.isActive = true

/-- The token goes back to the login at which `first` was made. -/
abbrev Portal.Descends (s : Portal ι) (first k : Ticket ι) : Prop :=
  SignedIn v calls arrival s first ∧ Relation.ReflTransGen (Renewed v calls arrival s) first k

/-- Who is let in has an access token that was valid when the request came, and was active when the
request looked. -/
structure LetIn (s : Portal ι) (a : Admission ι) (k : Ticket ι) : Prop where
  made : k ∈ s.tickets
  call : calls a.request = .me (some (v.jwt.encode k.payload))
  type : k.payload.type = "access"
  issued : k.issuedAt ≤ arrival a.request
  valid : k.payload.ValidAt (arrival a.request)
  sub : k.payload.sub = a.user.uid
  active : a.user.isActive = true
  saw : s.Saw arrival a.request a.answeredAt a.user

end Steps

/-! ## What the sessions know -/

section Knowledge

variable {ι Token : Type} [DecidableEq ι] {v : AuthServer Token} {calls : ι → AuthCall Token}
  {arrival : ι → Timestamp} {drawn : String → String} {start : Db}

/-- Every login has drawn a uid of its own, and the other requests keep the accounts. -/
structure WellDrawn (drawn : String → String) (start : Db) (calls : ι → AuthCall Token) : Prop where
  login : ∀ i uid nicknames info inviteUid,
    calls i = .googleLogin uid nicknames (some info) inviteUid →
      start.users.find? uid = none ∧ drawn uid = info.sub
  other : ∀ i p, calls i = .other p → p.Uses (Cmd.Moves (AccountsKept drawn))

/-- What the reply of a request that came at `now` rests on; `met` are the users it has met. -/
inductive RestsOn (v : AuthServer Token) (now : Timestamp) (met : User → Prop) :
    AuthCall Token → Reply → Prop
  | google {uid : String} {nicknames : ℕ → String} {info : GoogleInfo} {inviteUid : Option String}
      {user : User} (hsub : user.googleSub = info.sub) (hactive : user.isActive = true)
      (hmet : met user) :
      RestsOn v now met (.googleLogin uid nicknames (some info) inviteUid) (.tokens user.uid)
  | refresh {token : Token} {payload : Payload} {user : User}
      (hdecode : v.jwt.decode now token = some payload) (htype : payload.type = "refresh")
      (hsub : payload.sub = user.uid) (hactive : user.isActive = true) (hmet : met user) :
      RestsOn v now met (.refresh token) (.tokens user.uid)
  | staff {info : GoogleInfo} {user : User} (hdomain : domainAllowed v.be v.cfg info.email = true)
      (haddress : v.dbLower user.email = v.be.lower info.email) (hstaff : user.isStaff = true)
      (hactive : user.isActive = true) (hmet : met user) :
      RestsOn v now met (.adminGoogleLogin (some info)) (.adminToken user)
  | me {token : Token} {payload : Payload} {user : User}
      (hdecode : v.jwt.decode now token = some payload) (htype : payload.type = "access")
      (hsub : payload.sub = user.uid) (hactive : user.isActive = true) (hmet : met user) :
      RestsOn v now met (.me (some token)) (.profile user)
  | done {call : AuthCall Token} : RestsOn v now met call .done

theorem RestsOn.mono {now : Timestamp} {met met' : User → Prop} {call : AuthCall Token}
    {reply : Reply} (h : RestsOn v now met call reply) (hmet : ∀ user, met user → met' user) :
    RestsOn v now met' call reply := by
  cases h with
  | google hsub hactive huser => exact .google hsub hactive (hmet _ huser)
  | refresh hdecode htype hsub hactive huser =>
      exact .refresh hdecode htype hsub hactive (hmet _ huser)
  | staff hdomain haddress hstaff hactive huser =>
      exact .staff hdomain haddress hstaff hactive (hmet _ huser)
  | me hdecode htype hsub hactive huser => exact .me hdecode htype hsub hactive (hmet _ huser)
  | done => exact .done

/-- How a request ends; one that has not come has done nothing. -/
def Ends (v : AuthServer Token) (call : AuthCall Token) (now : Timestamp) (i : ι) :
    Except Exc Reply → State ι → Prop
  | .error _, _ => True
  | .ok .waiting, s => ({} : Own Db RowKey Change).Of i s
  | .ok .answered, _ => True
  | .ok reply, s => RestsOn v now (fun user => ∃ d ∈ s.seen i, d.users.find? user.uid = some user)
      call reply

/-- The database of a step keeps the accounts of the start. -/
abbrev OnAccount (drawn : String → String) (start : Db) : ι → State ι → State ι → Prop :=
  fun _ s _ => AccountsKept drawn start s.db

/-- The terms of the sessions. -/
abbrev portalContract (drawn : String → String) (start : Db) : Contract ι (State ι) :=
  (ownTerms (fun _ _ _ _ => True) (OnAccount drawn start)).contract

theorem fits_portalContract :
    (portalContract drawn start : Contract ι (State ι)).Fits
      (sessions (OnAccount drawn start) : System ι Exc Command (State ι)) :=
  ownTerms_fair.fits (framed_sessions _)

/-- A handler that answers a reply which it rests on. -/
theorem meets_program {i : ι} {call : AuthCall Token} {now : Timestamp} {s : State ι} {α : Type}
    {p : App α} {f : α → Reply} {M : α → Own Db RowKey Change → Prop}
    (hcall : call.handler v now = p.bind fun a => .ret (f a)) (hp : Answers drawn start M p {})
    (hM : ∀ a o s, o.Of i s → M a o → Ends v call now i (.ok (f a)) s)
    (ho : ({} : Own Db RowKey Change).Of i s) :
    Meets (sessions (OnAccount drawn start)) (portalContract drawn start) i (Ends v call now i)
      (call.program v now) s := by
  have hreply : Answers drawn start (fun reply o => ∃ a, reply = f a ∧ M a o)
      (call.program v now) {} := by
    unfold AuthCall.program
    rw [hcall]
    apply Warrants.bind
    apply Warrants.attempt
    apply Warrants.bind
    refine hp.mono fun r o h => ?_
    cases r with
    | ok a => exact ⟨a, rfl, h⟩
    | error e => trivial
  refine (hreply.meets (fun _ _ _ h => h) ho).mono fun r s _ h => ?_
  cases r with
  | error e => trivial
  | ok reply =>
      obtain ⟨o, hof, a, rfl, hm⟩ := h
      exact hM a o s hof hm

/-- A request of another kind has nothing to answer. -/
theorem mayReturn_other {p : App Unit} {now : Timestamp} {reply : Reply}
    (h : ((AuthCall.other p).program v now).MayReturn reply) : reply = .done := by
  obtain ⟨r, hr, hclose⟩ := Prog.mayReturn_bind.1 h
  cases r with
  | error e =>
      obtain ⟨_, _, hraise⟩ := Prog.mayReturn_bind.1 hclose
      exact hraise.elim
  | ok reply' =>
      obtain ⟨_, _, hdone⟩ := Prog.mayReturn_bind.1 (mayReturn_of_attempt hr)
      have hdone' : reply' = .done := hdone.symm
      have hsame : reply = reply' := hclose.symm
      exact hsame.trans hdone'

theorem mayReturn_answered {reply : Reply}
    (h : (closeSession (.ok .answered) : App Reply).MayReturn reply) : reply = .answered := by
  obtain ⟨_, _, hret⟩ := Prog.mayReturn_bind.1 h
  exact hret.symm

/-- What a session that promises nothing may return is all that is known. -/
theorem meets_of_mayReturn {i : ι} {call : AuthCall Token} {now : Timestamp} {s : State ι}
    {p : App Reply} (h : ∀ reply, p.MayReturn reply → reply = .done ∨ reply = .answered) :
    Meets (sessions (OnAccount drawn start)) (portalContract drawn start) i
      (Ends v call now i) p s := by
  refine (meets_mayReturn h).mono fun r t _ hr => ?_
  cases r with
  | error e => trivial
  | ok reply =>
      rcases hr with rfl | rfl
      · exact .done
      · trivial

/-- Every request that comes ends with a reply that rests on what it has met. -/
theorem WellDrawn.meets (h : WellDrawn drawn start calls) {i : ι} {now : Timestamp} {s : State ι}
    (ho : ({} : Own Db RowKey Change).Of i s) :
    Meets (sessions (OnAccount drawn start)) (portalContract drawn start) i (Ends v (calls i) now i)
      ((calls i).program v now) s := by
  have hmet : ∀ {o : Own Db RowKey Change} {t : State ι} {user : User}, o.Of i t → HasMet user o →
      ∃ d ∈ t.seen i, d.users.find? user.uid = some user := by
    rintro o t user hof ⟨d, hd, huser⟩
    exact ⟨d, hof.seen ▸ hd, huser⟩
  cases hcall : calls i with
  | googleLogin uid nicknames info inviteUid =>
      refine meets_program rfl (answers_googleLogin v.be now nicknames (fun hinfo => ?_)
        (fun info' hinfo => ?_) inviteUid) ?_ ho
      · obtain ⟨info', rfl⟩ := Option.ne_none_iff_exists'.1 hinfo
        exact (h.login i _ _ _ _ hcall).1
      · subst hinfo
        exact (h.login i _ _ _ _ hcall).2
      · rintro userUid o t hof ⟨info', user, rfl, hsub, rfl, hactive, huser⟩
        exact .google hsub hactive (hmet hof huser)
  | refresh token =>
      refine meets_program rfl (answers_refresh v.jwt now token) ?_ ho
      rintro userUid o t hof ⟨payload, user, hdecode, htype, hsub, rfl, hactive, huser⟩
      exact .refresh hdecode htype hsub hactive (hmet hof huser)
  | adminGoogleLogin info =>
      refine meets_program rfl (answers_adminGoogleLogin v.be v.dbLower v.cfg info) ?_ ho
      rintro user o t hof ⟨info', rfl, -, hdomain, haddress, hstaff, hactive, huser, -⟩
      exact .staff hdomain haddress hstaff hactive (hmet hof huser)
  | me bearer =>
      refine meets_program rfl (answers_me v.jwt now bearer) ?_ ho
      rintro user o t hof ⟨token, payload, rfl, hdecode, htype, hsub, hactive, huser, -⟩
      exact .me hdecode htype hsub hactive (hmet hof huser)
  | other p => exact meets_of_mayReturn fun reply hreply => .inl (mayReturn_other hreply)

omit [DecidableEq ι] in
/-- Every request that comes keeps the accounts. -/
theorem WellDrawn.transits (h : WellDrawn drawn start calls) (i : ι) (now : Timestamp) :
    Transits (AccountsKept drawn start) (AccountsKept drawn) (fun _ => True)
      ((calls i).program v now) := by
  have hmoves : ∀ {α : Type} {p : App α}, p.Uses (KeepsAccounts drawn) →
      p.Uses (Cmd.Moves (AccountsKept drawn)) := fun hp => hp.mono fun c hc =>
        moves_of_keepsAccounts c hc
  have hreads : ∀ {α : Type} {p : App α}, ReadOnly p → p.Uses (Cmd.Moves (AccountsKept drawn)) :=
    fun hp => hmoves (uses_of_readOnly hp)
  have hclose : ∀ r, (closeOnError r).Uses (Cmd.Moves (AccountsKept drawn)) := by
    intro r
    cases r with
    | ok reply => trivial
    | error e => exact Prog.Uses.bind (Prog.uses_perform trivial) fun _ => trivial
  have hhandler : ((calls i).handler v now).Uses (Cmd.Moves (AccountsKept drawn)) := by
    cases hcall : calls i with
    | googleLogin uid nicknames info inviteUid =>
        refine (hmoves (uses_googleLogin v.be now nicknames (fun info' hinfo => ?_) inviteUid)).bind
          fun _ => trivial
        subst hinfo
        exact (h.login i _ _ _ _ hcall).2
    | refresh token => exact (hreads (readOnly_refresh now v.jwt token)).bind fun _ => trivial
    | adminGoogleLogin info =>
        exact (hreads (readOnly_adminGoogleLogin v.be v.dbLower v.cfg info)).bind fun _ => trivial
    | me bearer => exact (hreads (readOnly_me now v.jwt bearer)).bind fun _ => trivial
    | other p => exact (h.other i p hcall).bind fun _ => trivial
  exact Transits.of_uses (hhandler.attempt.bind hclose)

end Knowledge

/-! ## Every run -/

section Runs

variable {ι Token : Type} [DecidableEq ι] {v : AuthServer Token} {calls : ι → AuthCall Token}
  {arrival : ι → Timestamp} {drawn : String → String} {start : Db} {s s' : Portal ι}

/-- `s'` knows all that `s` knows. -/
structure Grown (s s' : Portal ι) : Prop where
  tickets : ∀ k ∈ s.tickets, k ∈ s'.tickets
  past : ∀ x ∈ s.past, x ∈ s'.past

omit [DecidableEq ι] in
theorem Portal.Saw.grown {i : ι} {t : Timestamp} {user : User} (h : s.Saw arrival i t user)
    (hs : Grown s s') : s'.Saw arrival i t user := by
  obtain ⟨at', d, hpast, hbounds⟩ := h
  exact ⟨at', d, hs.past _ hpast, hbounds⟩

omit [DecidableEq ι] in
theorem SignedIn.grown {k : Ticket ι} (h : SignedIn v calls arrival s k) (hs : Grown s s') :
    SignedIn v calls arrival s' k := by
  cases h with
  | google hk hcall hsaw huser hactive hsub =>
      exact .google (hs.tickets k hk) hcall (hsaw.grown hs) huser hactive hsub
  | staff hk hcall hsaw hpayload hactive hstaff hdomain haddress =>
      exact .staff (hs.tickets k hk) hcall (hsaw.grown hs) hpayload hactive hstaff hdomain haddress

omit [DecidableEq ι] in
theorem Renewed.grown {r k : Ticket ι} (h : Renewed v calls arrival s r k) (hs : Grown s s') :
    Renewed v calls arrival s' r k where
  old := hs.tickets r h.old
  new := hs.tickets k h.new
  call := h.call
  type := h.type
  issued := h.issued
  valid := h.valid
  sub := h.sub
  active := by
    obtain ⟨user, hsaw, huser⟩ := h.active
    exact ⟨user, hsaw.grown hs, huser⟩

omit [DecidableEq ι] in
theorem Portal.Descends.grown {first k : Ticket ι} (h : s.Descends v calls arrival first k)
    (hs : Grown s s') : s'.Descends v calls arrival first k :=
  ⟨h.1.grown hs, Relation.ReflTransGen.mono (fun _ _ hr => hr.grown hs) _ _ h.2⟩

omit [DecidableEq ι] in
theorem LetIn.grown {a : Admission ι} {k : Ticket ι} (h : LetIn v calls arrival s a k)
    (hs : Grown s s') : LetIn v calls arrival s' a k where
  made := hs.tickets k h.made
  call := h.call
  type := h.type
  issued := h.issued
  valid := h.valid
  sub := h.sub
  active := h.active
  saw := h.saw.grown hs

/-- What holds of every portal of a run. -/
structure Portal.Sound (v : AuthServer Token) (calls : ι → AuthCall Token) (arrival : ι → Timestamp)
    (drawn : String → String) (start : Db) (s : Portal ι) : Prop where
  course : AllTransit (AccountsKept drawn) start s.config
  meets : AllMeet (sessions (OnAccount drawn start)) (portalContract drawn start)
    (fun i => Ends v (calls i) (arrival i) i) s.config
  dated : SeenDated arrival s.past s.now s.config.state
  past : ∀ x ∈ s.past, AccountsKept drawn start x.2
  arrived : ∀ i, s.config.thread i ≠ .ret .waiting → arrival i ≤ s.now ∧
    ∀ token, (calls i).token = some token → Known v s.tickets (arrival i) token
  made : ∀ k ∈ s.tickets, k.issuedAt ≤ s.now ∧ ∃ first, s.Descends v calls arrival first k
  letIn : ∀ a ∈ s.admitted, ∃ k, LetIn v calls arrival s a k

theorem sound_start (db : Db) (now : Timestamp) :
    (Portal.start db now : Portal ι).Sound v calls arrival drawn db where
  course := by
    have hcourse : OnCourse (AccountsKept drawn) db (World.fresh db : State ι) :=
      onCourse_of_idle (s := World.fresh db) AccountsKept.refl fun _ => rfl
    exact ⟨hcourse, fun _ => trivial⟩
  meets := by
    refine ⟨trivial, fun i t _ hr => ?_⟩
    have hfresh : Idle (World.fresh db : State ι) := idle_fresh db
    exact (hfresh.of i).undisturbed hr.1
  dated i d hd := by cases hd
  past x hx := by cases hx
  arrived i hi := absurd rfl hi
  made k hk := by cases hk
  letIn a ha := by cases ha

omit [DecidableEq ι] in
/-- A tickets list that goes on knows the tokens that it knew. -/
theorem Known.append {tickets more : List (Ticket ι)} {now : Timestamp} {token : Token}
    (h : Known v tickets now token) : Known v (tickets ++ more) now token := by
  intro t payload hdecode
  obtain ⟨k, hk, hrest⟩ := h t payload hdecode
  exact ⟨k, List.mem_append_left _ hk, hrest⟩

omit [DecidableEq ι] in
/-- A token that was made here, and that was read, was made with what was read. -/
theorem Known.exists_ticket (hjwt : v.jwt.Faithful) {tickets : List (Ticket ι)} {now t : Timestamp}
    {token : Token} {payload : Payload} (h : Known v tickets now token)
    (hdecode : v.jwt.decode t token = some payload) :
    ∃ k ∈ tickets, token = v.jwt.encode k.payload ∧ k.issuedAt ≤ now ∧ k.payload.ValidAt t ∧
      payload.sub = k.payload.sub ∧ payload.type = k.payload.type := by
  obtain ⟨k, hk, rfl, hissued⟩ := h t payload hdecode
  obtain ⟨hvalid, rfl⟩ := hjwt.decode_eq_some hdecode
  exact ⟨k, hk, rfl, hissued, hvalid, rfl, rfl⟩

/-- What a session has met, it has met by now. -/
theorem Portal.Sound.saw (h : s.Sound v calls arrival drawn start) {i : ι} {user : User}
    (hmet : ∃ d ∈ s.config.state.seen i, d.users.find? user.uid = some user) :
    s.Saw arrival i s.now user := by
  obtain ⟨d, hd, huser⟩ := hmet
  obtain ⟨t, hpast, harrival, ht⟩ := h.dated i d hd
  exact ⟨t, d, hpast, harrival, ht, huser⟩

/-- The reply of a request rests on what it has met. -/
theorem Portal.Sound.restsOn (h : s.Sound v calls arrival drawn start) {i : ι} {reply : Reply}
    (hreply : s.config.thread i = .ret reply) (hcome : reply ≠ .waiting) :
    reply = .answered ∨ RestsOn v (arrival i) (s.Saw arrival i s.now) (calls i) reply := by
  have hends := h.meets.meets i
  rw [hreply] at hends
  have hend : Ends v (calls i) (arrival i) i (.ok reply) s.config.state :=
    hends.post_ok fits_portalContract trivial
  cases reply with
  | waiting => exact absurd rfl hcome
  | answered => exact .inl rfl
  | done => exact .inr .done
  | tokens userUid => exact .inr (RestsOn.mono hend fun user => h.saw)
  | adminToken user => exact .inr (RestsOn.mono hend fun user => h.saw)
  | profile user => exact .inr (RestsOn.mono hend fun user => h.saw)

/-- The tokens of an answer go back to a login: this one, or the one of the token that is
renewed. -/
theorem Portal.Sound.descends (hjwt : v.jwt.Faithful) (h : s.Sound v calls arrival drawn start)
    (hs : Grown s s') {i : ι} {reply : Reply} (hreply : s.config.thread i = .ret reply)
    (hcome : reply ≠ .waiting) {k : Ticket ι} (hk : k ∈ ticketsOf s.now i v.cfg reply)
    (hk' : k ∈ s'.tickets) :
    k.issuedAt = s.now ∧ ∃ first, s'.Descends v calls arrival first k := by
  have htoken : ∀ userUid, k ∈ ticketsOf s.now i v.cfg (.tokens userUid) →
      k.issuedAt = s.now ∧ k.request = i ∧ k.payload.sub = userUid := by
    intro userUid hmem
    rcases List.mem_cons.1 hmem with rfl | hmem
    · exact ⟨rfl, rfl, rfl⟩
    · rw [List.mem_singleton.1 hmem]
      exact ⟨rfl, rfl, rfl⟩
  rcases h.restsOn hreply hcome with rfl | hrests
  · cases hk
  · obtain ⟨call, hcall⟩ : ∃ call, calls i = call := ⟨_, rfl⟩
    rw [hcall] at hrests
    cases hrests with
    | @google uid nicknames info inviteUid user hsub hactive hsaw =>
        obtain ⟨hissued, rfl, huser⟩ := htoken user.uid hk
        refine ⟨hissued, k, .google hk' hcall ?_ huser hactive hsub, .refl⟩
        rw [hissued]
        exact hsaw.grown hs
    | @refresh token payload user hdecode htype hsub hactive hsaw =>
        obtain ⟨hissued, rfl, huser⟩ := htoken user.uid hk
        have hwait : s.config.thread k.request ≠ .ret .waiting := by
          rw [hreply]
          intro heq
          cases heq
        obtain ⟨r, hr, rfl, hold, hvalid, hsub', htype'⟩ :=
          ((h.arrived _ hwait).2 token (by rw [hcall]; rfl)).exists_ticket hjwt hdecode
        obtain ⟨-, first, hfirst⟩ := h.made r hr
        have hfirst' := hfirst.grown hs
        refine ⟨hissued, first, hfirst'.1, hfirst'.2.tail ?_⟩
        exact {
          old := hs.tickets r hr
          new := hk'
          call := hcall
          type := htype'.symm.trans htype
          issued := hold
          valid := hvalid
          sub := huser.trans (hsub.symm.trans hsub')
          active := ⟨user, by rw [hissued]; exact hsaw.grown hs, huser, hactive⟩ }
    | @staff info user hdomain haddress hstaff hactive hsaw =>
        rw [List.mem_singleton.1 hk] at hk' ⊢
        exact ⟨rfl, _, .staff hk' hcall (hsaw.grown hs) rfl hactive hstaff hdomain haddress, .refl⟩
    | me hdecode htype hsub hactive hsaw => cases hk
    | done => cases hk

/-- Whom an answer lets in has an access token that was made here. -/
theorem Portal.Sound.letsIn (hjwt : v.jwt.Faithful) (h : s.Sound v calls arrival drawn start)
    (hs : Grown s s') {i : ι} {reply : Reply} (hreply : s.config.thread i = .ret reply)
    (hcome : reply ≠ .waiting) {a : Admission ι} (ha : a ∈ admissionsOf s.now i reply) :
    ∃ k, LetIn v calls arrival s' a k := by
  rcases h.restsOn hreply hcome with rfl | hrests
  · cases ha
  · obtain ⟨call, hcall⟩ : ∃ call, calls i = call := ⟨_, rfl⟩
    rw [hcall] at hrests
    cases hrests with
    | @me token payload user hdecode htype hsub hactive hsaw =>
        rw [List.mem_singleton.1 ha]
        have hwait : s.config.thread i ≠ .ret .waiting := by
          rw [hreply]
          intro heq
          cases heq
        obtain ⟨k, hk, rfl, hold, hvalid, hsub', htype'⟩ :=
          ((h.arrived _ hwait).2 token (by rw [hcall]; rfl)).exists_ticket hjwt hdecode
        exact ⟨k, {
          made := hs.tickets k hk
          call := hcall
          type := htype'.symm.trans htype
          issued := hold
          valid := hvalid
          sub := hsub'.symm.trans hsub
          active := hactive
          saw := hsaw.grown hs }⟩
    | google => cases ha
    | refresh => cases ha
    | staff => cases ha
    | done => cases ha

/-- A step of the sessions keeps the accounts, so it is one that the contracts are about. -/
theorem Portal.Sound.guarded (h : s.Sound v calls arrival drawn start)
    {config : Config ι Exc Command (State ι) Reply} (hstep : Step platform s.config config) :
    Step (sessions (OnAccount drawn start)) s.config config := by
  have hstep' : Step (sessions fun _ _ _ => True) s.config config :=
    hstep.guarded fun _ _ _ => trivial
  exact hstep'.strengthen fun _ _ _ => h.course.course.db

/-- One step keeps the portal sound. -/
theorem Portal.Sound.step (hjwt : v.jwt.Faithful) (hcalls : WellDrawn drawn start calls)
    (h : s.Sound v calls arrival drawn start) (hstep : PortalStep v calls arrival s s') :
    s'.Sound v calls arrival drawn start := by
  cases hstep with
  | wait later hlater =>
      -- only the clock moves, and every limit on a time is an upper one
      have hs : Grown s { s with now := later } := ⟨fun _ hk => hk, fun _ hx => hx⟩
      refine ⟨h.course, h.meets, h.dated.mono hlater, h.past, fun i hi => ?_, fun k hk => ?_,
        fun a ha => ?_⟩
      · exact ⟨(h.arrived i hi).1.trans hlater, (h.arrived i hi).2⟩
      · obtain ⟨hissued, first, hfirst⟩ := h.made k hk
        exact ⟨hissued.trans hlater, first, hfirst.grown hs⟩
      · obtain ⟨k, hk⟩ := h.letIn a ha
        exact ⟨k, hk.grown hs⟩
  | arrive i hwaiting hnow hknown =>
      have hs : Grown s { s with config := s.config.give i ((calls i).program v s.now) } :=
        ⟨fun _ hk => hk, fun _ hx => hx⟩
      -- the session before has been closed, so the request starts with nothing read
      have hfresh : ({} : Own Db RowKey Change).Of i s.config.state := by
        have hends := h.meets.meets i
        rw [hwaiting] at hends
        exact hends.post_ok fits_portalContract trivial
      refine ⟨h.course.give (hcalls.transits i s.now), h.meets.give ?_, h.dated, h.past,
        fun j hj => ?_, fun k hk => ?_, fun a ha => ?_⟩
      · rw [hnow]
        exact hcalls.meets hfresh
      · by_cases hji : j = i
        · subst hji
          rw [hnow]
          exact ⟨le_rfl, hknown⟩
        · rw [Config.thread_give_of_ne hji] at hj
          exact h.arrived j hj
      · obtain ⟨hissued, first, hfirst⟩ := h.made k hk
        exact ⟨hissued, first, hfirst.grown hs⟩
      · obtain ⟨k, hk⟩ := h.letIn a ha
        exact ⟨k, hk.grown hs⟩
  | command config hstep =>
      have hs :
          Grown s { s with config := config, past := s.past ++ [(s.now, s.config.state.db)] } :=
        ⟨fun _ hk => hk, fun _ hx => List.mem_append_left _ hx⟩
      -- a thread that runs a command has arrived, as one that waits has returned
      have hcalled : ∀ i {β : Type} {cmd : Command β} {k : Except Exc β → App Reply},
          s.config.thread i = .call cmd k → arrival i ≤ s.now := by
        intro i β cmd k hcall
        refine (h.arrived i ?_).1
        rw [hcall]
        intro heq
        cases heq
      refine ⟨(h.course.step AccountsKept.refl AccountsKept.trans hstep).1,
        h.meets.step fits_portalContract (h.guarded hstep), h.dated.step hcalled hstep, ?_,
        fun i hi => ?_, fun k hk => ?_, fun a ha => ?_⟩
      · intro x hx
        rcases List.mem_append.1 hx with hx | hx
        · exact h.past x hx
        · rw [List.mem_singleton.1 hx]
          exact h.course.course.db
      · refine h.arrived i fun hwaiting => hi ?_
        cases hstep with
        | thread j cmd k r hcall hs =>
            by_cases hij : i = j
            · subst hij
              rw [hwaiting] at hcall
              cases hcall
            · show Function.update s.config.thread j (k r) i = _
              rw [Function.update_of_ne hij, hwaiting]
        | env henv => exact hwaiting
      · obtain ⟨hissued, first, hfirst⟩ := h.made k hk
        exact ⟨hissued, first, hfirst.grown hs⟩
      · obtain ⟨k, hk⟩ := h.letIn a ha
        exact ⟨k, hk.grown hs⟩
  | answer i reply hreply hcome =>
      have hs : Grown s { s with
          config := s.config.give i (closeSession (.ok .answered))
          tickets := s.tickets ++ ticketsOf s.now i v.cfg reply
          admitted := s.admitted ++ admissionsOf s.now i reply } :=
        ⟨fun _ hk => List.mem_append_left _ hk, fun _ hx => hx⟩
      -- the answer is taken out, and what is left of the thread closes its session
      have hclose :
          (closeSession (.ok .answered) : App Reply).Uses (Cmd.Moves (AccountsKept drawn)) :=
        Prog.Uses.bind (Prog.uses_perform trivial) fun _ => trivial
      refine ⟨h.course.give (Transits.of_uses hclose),
        h.meets.give (meets_of_mayReturn fun reply hr => .inr (mayReturn_answered hr)),
          h.dated, h.past,
        fun j hj => ?_, fun k hk => ?_, fun a ha => ?_⟩
      · have hj' : s.config.thread j ≠ .ret .waiting := by
          by_cases hji : j = i
          · subst hji
            rw [hreply]
            intro heq
            cases heq
            exact hcome rfl
          · rwa [Config.thread_give_of_ne hji] at hj
        obtain ⟨harrival, hknown⟩ := h.arrived j hj'
        exact ⟨harrival, fun token htoken => (hknown token htoken).append⟩
      · rcases List.mem_append.1 hk with hold | hnew
        · obtain ⟨hissued, first, hfirst⟩ := h.made k hold
          exact ⟨hissued, first, hfirst.grown hs⟩
        · obtain ⟨hissued, hfirst⟩ := h.descends hjwt hs hreply hcome hnew hk
          exact ⟨hissued.le, hfirst⟩
      · rcases List.mem_append.1 ha with hold | hnew
        · obtain ⟨k, hk⟩ := h.letIn a hold
          exact ⟨k, hk.grown hs⟩
        · exact h.letsIn hjwt hs hreply hcome hnew

theorem sound_of_run (hjwt : v.jwt.Faithful) {now : Timestamp}
    (hcalls : WellDrawn drawn start calls)
    (hrun : PortalRun v calls arrival (Portal.start start now) s) :
    s.Sound v calls arrival drawn start := by
  induction hrun with
  | refl => exact sound_start start now
  | tail _ hstep ih => exact ih.step hjwt hcalls hstep

omit [DecidableEq ι] in
/-- A renewed token is for the same user. -/
theorem Portal.Descends.sub_eq {first k : Ticket ι} (h : s.Descends v calls arrival first k) :
    k.payload.sub = first.payload.sub := by
  obtain ⟨-, hchain⟩ := h
  induction hchain with
  | refl => rfl
  | tail _ hr ih => exact hr.sub.trans ih

/-- Whoever the request has looked at belongs to the account of its uid. -/
theorem Portal.Sound.googleSub_eq (h : s.Sound v calls arrival drawn start) {i : ι} {t : Timestamp}
    {user : User} (hsaw : s.Saw arrival i t user) :
    user.googleSub = ownerOf drawn start user.uid := by
  obtain ⟨at', d, hpast, -, -, huser⟩ := hsaw
  exact (h.past _ hpast).googleSub_eq huser

section Computed

variable (v calls arrival)

/-- The commands of a request, with nothing in between. -/
def Portal.drive (i : ι) : App Reply → Portal ι → Option (Portal ι)
  | .call cmd k, s =>
    match exec i cmd s.config.state with
    | some (r, state) => drive i (k r) { s with
        config := ⟨state, Function.update s.config.thread i (k r)⟩
        past := s.past ++ [(s.now, s.config.state.db)] }
    | none => none
  | _, s => some s

/-- The portal after an answer of a request. -/
def Portal.answered (i : ι) (s : Portal ι) : Option (Portal ι) :=
  match s.config.thread i with
  | .ret .waiting => none
  | .ret reply => some { s with
      config := s.config.give i (closeSession (.ok .answered))
      tickets := s.tickets ++ ticketsOf s.now i v.cfg reply
      admitted := s.admitted ++ admissionsOf s.now i reply }
  | _ => some s

/-- A request comes and is served by itself. -/
def Portal.serve (i : ι) (s : Portal ι) : Option (Portal ι) :=
  match s.config.thread i with
  | .ret .waiting =>
      (Portal.drive i ((calls i).program v s.now)
        { s with config := s.config.give i ((calls i).program v s.now) }).bind (answered v i)
  | _ => none

theorem portalRun_of_drive {i : ι} {p : App Reply} (hp : s.config.thread i = p)
    (h : s.drive i p = some s') : PortalRun v calls arrival s s' := by
  induction p generalizing s with
  | ret reply =>
      cases h
      exact .refl
  | raise e =>
      cases h
      exact .refl
  | call cmd k ih =>
      unfold Portal.drive at h
      split at h
      · rename_i r state hexec
        have hstep : PortalStep v calls arrival s { s with
            config := ⟨state, Function.update s.config.thread i (k r)⟩
            past := s.past ++ [(s.now, s.config.state.db)] } :=
          .command _ (.thread i cmd k r hp hexec)
        exact .head hstep (ih r (Function.update_self ..) h)
      · cases h

theorem portalRun_of_answered {i : ι} (h : s.answered v i = some s') :
    PortalRun v calls arrival s s' := by
  unfold Portal.answered at h
  split at h
  · cases h
  · rename_i reply hcome hreply
    cases h
    exact .single (.answer i reply hreply hcome)
  · cases h
    exact .refl

/-- A request that is served by itself. -/
theorem portalRun_of_serve {i : ι} (hnow : arrival i = s.now)
    (hknown : ∀ token, (calls i).token = some token → Known v s.tickets s.now token)
    (h : s.serve v calls i = some s') : PortalRun v calls arrival s s' := by
  unfold Portal.serve at h
  split at h
  · rename_i hwaiting
    obtain ⟨s₁, hdrive, hanswered⟩ := Option.bind_eq_some_iff.1 h
    have hcome : PortalRun v calls arrival s
        { s with config := s.config.give i ((calls i).program v s.now) } :=
      .single (.arrive i hwaiting hnow hknown)
    exact (hcome.trans (portalRun_of_drive v calls arrival Config.thread_give_self hdrive)).trans
      (portalRun_of_answered v calls arrival hanswered)
  · cases h

end Computed

end Runs

end Vivac.Access
