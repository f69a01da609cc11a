import Vivac.Access.ReadingChecks
import Vivac.Pipeline.Publishing
import Vivac.Pipeline.TimedCalls

/-!
# Transitions when they take effect

A staff user who is no SUPERUSER may move a spot that waits for verification and is assigned to
that user, along `ALLOWED_PIPELINE_TRANSITIONS`. The request checks the spot as it has loaded it and
writes the new status whatever the row holds by then: a status or an assignment that another request
has committed in between is overwritten (`transition_overwrites`).

When such a request commits a new status only while status and assignee of the spot are those it has
loaded, every transition it commits is in the whitelist, of a spot of its caller
(`transitions_respected`).
-/

set_option autoImplicit false

namespace Vivac

open Lib App

/-! ## Calls that write spots only -/

/-- Only spots are new. -/
def OnlySpots (d d' : Db) : Prop := d' = { d with spots := d'.spots }

theorem OnlySpots.refl (d : Db) : OnlySpots d d := rfl

theorem OnlySpots.trans {a b c : Db} (hab : OnlySpots a b) (hbc : OnlySpots b c) :
    OnlySpots a c := by
  unfold OnlySpots at hab hbc ⊢
  rw [hbc, hab]

theorem OnlySpots.users {d d' : Db} (h : OnlySpots d d') : d'.users = d.users := by
  rw [h]

/-- A command that writes spots only. -/
abbrev Command.OnlySpots {β : Type} (c : Command β) : Prop := Cmd.Moves Vivac.OnlySpots c

theorem admits_onlySpots : AdmitsNested Command.OnlySpots where
  read f := by
    intro locked d eff heff
    cases heff
    exact OnlySpots.refl
  commit := trivial
  rollback := trivial
  incr _ := trivial
  savepoint := trivial
  release := trivial
  rollbackTo := trivial

theorem onlySpots_updateSpots {be : Backend} {p : Spot → Bool} {f : Rewrite Spot.uid}
    {columns : List String} :
    Command.OnlySpots (.sql (updateSpots be p f columns) : Command (List String)) := by
  intro locked d eff heff d'
  rw [updateSpots_eq_ok heff]
  rfl

section Writes

variable (be : Backend) (now : Timestamp)

theorem onlySpots_flushSpot (data : List SpotAttr) (loaded : Spot) :
    (flushSpot be now loaded data).Uses Command.OnlySpots := by
  simp only [flushSpot]
  split
  · trivial
  · apply (Prog.uses_perform onlySpots_updateSpots).bind
    intro uids
    split <;> trivial

theorem onlySpots_pickWrites : SpotCall.PickWrites Command.OnlySpots be now := by
  refine ⟨fun p uid => ?_, fun uids userUid => onlySpots_updateSpots⟩
  intro locked d eff heff
  rcases lockSpot_eq_ok heff with ⟨rfl, -⟩ | rfl <;> exact OnlySpots.refl

theorem onlySpots_writes {call : SpotCall} (h : call.writesSpotOnly = true) :
    call.Writes Command.OnlySpots be now := by
  cases call with
  | update credentials uid payload => exact onlySpots_flushSpot be now _
  | delete credentials uid => exact fun _ => onlySpots_updateSpots
  | restore credentials uid => exact fun _ => onlySpots_updateSpots
  | assign credentials userUid count => exact onlySpots_pickWrites be now
  | bulkAssign credentials spotUids userUid => exact fun _ _ => onlySpots_updateSpots
  | transfer credentials fromUserUid toUserUid count => exact onlySpots_pickWrites be now
  | reassign credentials uid userUid => exact onlySpots_flushSpot be now _
  | bulkStatus credentials uids status => exact fun _ => onlySpots_updateSpots
  | decay thresholdDays => exact ⟨onlySpots_updateSpots, onlySpots_updateSpots⟩
  | _ => cases h

end Writes

/-! ## What a request checks -/

/-- Status and assignee of a spot. -/
def standing (uid : String) (d : Db) : Option (PipelineStatus × Option String) :=
  (d.spots.find? uid).map fun s => (s.pipelineStatus, s.assignedToUid)

def statusOf (uid : String) (d : Db) : Option PipelineStatus :=
  (d.spots.find? uid).map Spot.pipelineStatus

/-- A payload that passes the check gives a status of the whitelist, to a spot of the staff user. -/
theorem transition_of_allowed {staff : User} (hstaff : staff.staffRole ≠ .superuser)
    {current : Spot} {payload : SpotUpdate} {status : PipelineStatus}
    (h : InternalSpots.refusesUpdate staff current payload = none)
    (hstatus : payload.pipelineStatus? = some (some status)) :
    (current.pipelineStatus, status) ∈ allowedPipelineTransitions ∧
      current.assignedToUid = some staff.uid := by
  have hrole : (staff.staffRole == .superuser) = false := by simpa using hstaff
  simp only [InternalSpots.refusesUpdate, hrole, hstatus, Bool.not_false, Bool.true_and] at h
  split at h
  · cases h
  · rename_i hassigned
    split at h
    · cases h
    · rename_i hallowed
      simp only [Bool.not_eq_true, Bool.not_eq_false', List.any_eq_true] at hallowed
      obtain ⟨t, ht, hmatch⟩ := hallowed
      simp only [Bool.and_eq_true, beq_iff_eq, Option.some.injEq] at hmatch
      obtain ⟨hfrom, hto⟩ := hmatch
      have hpair : (current.pipelineStatus, status) = t := by rw [← hfrom, ← hto]
      rw [hpair]
      refine ⟨ht, ?_⟩
      -- the whitelist leads from ENRICHED only, where the assignee is checked
      have henriched : current.pipelineStatus = .enriched := by
        rw [← hfrom]
        simp only [allowedPipelineTransitions, List.mem_cons, List.not_mem_nil, or_false] at ht
        rcases ht with rfl | rfl <;> rfl
      simpa [henriched] using hassigned

/-- What an update makes of the status: it stays, or is the payload's. -/
theorem status_of_setAll_mem {data : List SpotAttr} {s s' : Spot}
    (h : SpotAttr.setAll data s = some s') :
    s'.pipelineStatus = s.pipelineStatus ∨
      .pipelineStatus (some s'.pipelineStatus) ∈ data := by
  induction data generalizing s with
  | nil =>
      cases h
      exact .inl rfl
  | cons a as ih =>
      obtain ⟨t, ht, hrest⟩ := Option.bind_eq_some_iff.1 h
      rcases ih hrest with hsame | hmem
      · rw [hsame]
        cases a with
        | pipelineStatus v =>
            obtain ⟨status, rfl, rfl⟩ := Option.map_eq_some_iff.1 ht
            exact .inr (List.mem_cons_self ..)
        | title v =>
            obtain ⟨w, -, rfl⟩ := Option.map_eq_some_iff.1 ht
            exact .inl rfl
        | _ =>
            cases ht
            exact .inl rfl
      · exact .inr (List.mem_cons_of_mem _ hmem)

/-- The write of an update, in the rows under one uid: a status changes there only, and to the one
that is written. -/
theorem statusOf_update {now : Timestamp} {data : List SpotAttr} {uids : List String}
    {uid : String} (huids : ∀ u ∈ uids, u = uid) (d : Db) (u : String) :
    statusOf u (rewriteSpots uids (setSpot now data) d) = statusOf u d ∨
      u = uid ∧ ∃ status, .pipelineStatus (some status) ∈ data ∧
        statusOf u (rewriteSpots uids (setSpot now data) d) = some status := by
  simp only [statusOf, find?_rewriteSpots]
  cases hfound : d.spots.find? u with
  | none => exact .inl rfl
  | some s =>
      simp only [Option.map_some, Option.some.injEq]
      split
      · rename_i hu
        cases hset : (setSpot now data).apply s with
        | none => exact .inl rfl
        | some s' =>
            obtain ⟨t, ht, rfl⟩ := Option.map_eq_some_iff.1 hset
            rcases status_of_setAll_mem ht with hsame | hmem
            · exact .inl hsame
            · exact .inr ⟨huids u hu, t.pipelineStatus, hmem, rfl⟩
      · exact .inl rfl

/-- The changes set the status of the spot. -/
def writesStatus (uid : String) (changes : List Change) : Bool :=
  changes.any fun
    | .spot u columns => u == uid && columns.contains "pipeline_status"
    | _ => false

/-! ## What a request commits -/

/-- A request commits no new status; or one along the whitelist from the status of the spot as it
was loaded, by the statement three before the write, when it was assigned to the caller. -/
inductive CommitsStatus (credentials : Credentials) (uid : String) (w : Work Db RowKey Change)
    (seen : List Db) (commits : List (List Change)) : Prop
  | keeps (hstatus : ∀ d u, statusOf u (w.write d) = statusOf u d)
  | moves (d : Db) (hseen : seen[3]? = some d) (sub : String) (hcaller : credentials = .access sub)
      (status : PipelineStatus) (hstanding : standing uid d = some (status, some sub))
      (hwrites : writesStatus uid w.changes = true)
      (hstatus : ∀ d' u, statusOf u (w.write d') = statusOf u d' ∨ u = uid ∧ ∃ next,
        statusOf u (w.write d') = some next ∧ (status, next) ∈ allowedPipelineTransitions)

section Commits

variable {start : Db} {F : CommitFact Db RowKey Change} {o : Own Db RowKey Change} {α : Type}
  {M : α → Own Db RowKey Change → Prop} {credentials : Credentials} {uid : String} {cfg : Settings}
  {be : Backend} {now : Timestamp}

/-- The staff user of a caller who is no SUPERUSER, where users stay as they are. -/
theorem warrants_requireStaff {f : User → App α} (h : NotSuperuser credentials start)
    (ho : Unwritten o) (hf : ∀ staff o', credentials = .access staff.uid →
      staff.staffRole ≠ .superuser → Unwritten o' →
      Warrants (fun d => d.users = start.users) F (Returns M) (f staff) o') :
    Warrants (fun d => d.users = start.users) F (Returns M)
      ((requireStaff credentials).bind f) o := by
  unfold requireStaff
  cases credentials with
  | missing => trivial
  | invalid => trivial
  | otherType => trivial
  | access sub =>
      simp only [getCurrentUser, getUserById, Prog.bind_eq_bind, Prog.bind_assoc]
      apply Warrants.read allows_returns
      rintro w hw d hd
      have hid : w.write = id := ho w hw
      rw [hid]
      split
      · trivial
      · rename_i user huser
        split
        · show Warrants _ F (Returns M) (Prog.bind (if user.isStaff = true then .ret user else
            .raise (.app .forbidden "Staff only")) f) _
          split
          · rename_i hstaff
            have hfound : start.users.find? sub = some user := by
              rw [← hd]
              exact huser
            refine hf user _ ?_ (fun hrole => h sub user rfl hfound ⟨hstaff, hrole⟩) ?_
            · rw [(Table.find?_eq_some.1 huser).2]
            · rintro w' hw'
              cases hw'
              exact hid
          · trivial
        · trivial

/-- A spot that is found stands as it is there. -/
theorem warrants_findSpot {A : Db → Prop} {f : Spot → App α} (ho : Unwritten o)
    (hf : ∀ current w d, current.uid = uid → w.write = id →
      standing uid d = some (current.pipelineStatus, current.assignedToUid) →
      Warrants A F (Returns M) (f current) ⟨some w, d :: o.seen, o.commits⟩) :
    Warrants A F (Returns M) ((InternalSpots.findSpot cfg uid).bind f) o := by
  unfold InternalSpots.findSpot getSpotByUid
  simp only [Prog.bind_eq_bind, Prog.bind_assoc]
  apply Warrants.read allows_returns
  rintro w hw d -
  have hid : w.write = id := ho w hw
  rw [hid]
  split
  · rename_i current hcurrent
    have hfound : d.spots.find? uid = some current := by
      rw [Option.filter_eq_some_iff] at hcurrent
      exact hcurrent.1
    refine hf current w d (Table.find?_eq_some.1 hfound).2 hid ?_
    rw [standing, hfound]
    rfl
  · trivial

theorem quiet_refreshSpot (uid : String) : (refreshSpot uid).Uses Command.Quiet := by
  refine Prog.Uses.bind (Prog.uses_perform trivial) fun found => ?_
  cases found <;> trivial

/-- The update of a spot that has been loaded. -/
theorem warrants_updateLoaded {payload : SpotUpdate} {current : Spot} {staff : User}
    {w : Work Db RowKey Change} {d : Db} {seen : List Db} {commits : List (List Change)}
    {f : Spot → App α} (hcaller : credentials = .access staff.uid) (huid : current.uid = uid)
    (hid : w.write = id)
    (hstanding : standing uid d = some (current.pipelineStatus, current.assignedToUid))
    (hallowed : ∀ status, payload.pipelineStatus? = some (some status) →
      (current.pipelineStatus, status) ∈ allowedPipelineTransitions ∧
        current.assignedToUid = some staff.uid)
    (hf : ∀ spot, (f spot).Uses Command.Quiet) :
    Warrants (fun d => d.users = start.users) (CommitsStatus credentials uid)
      (Returns fun _ _ => True)
      ((InternalSpots.updateLoaded cfg be now current uid staff payload.data).bind f)
      ⟨some w, d :: seen, commits⟩ := by
  have htail : ((refreshSpot uid).bind fun spot => (Cache.bumpSpotsVersion cfg).bind fun _ =>
      (Cache.invalidateSpotDetail cfg uid).bind fun _ => f spot).Uses Command.Quiet := by
    apply (quiet_refreshSpot uid).bind
    intro spot
    apply (quiet_bump cfg _).bind
    intro _
    exact (quiet_bump cfg _).bind fun _ => hf spot
  unfold InternalSpots.updateLoaded Vivac.updateSpot setAuditUser getSpotByUid
  simp only [Prog.bind_eq_bind, Prog.bind_assoc]
  apply Warrants.read allows_returns
  rintro w₁ hw₁ d₁ -
  cases hw₁
  apply Warrants.read allows_returns
  rintro w₂ hw₂ d₂ -
  cases hw₂
  split
  · trivial
  · simp only [Option.getD_some, flushSpot, Prog.bind_assoc]
    split
    · refine Warrants.commit allows_returns rfl (.keeps ?_) (warrants_of_quiet htail)
      intro d u
      rw [hid]
      rfl
    · simp only [Prog.bind_eq_bind, Prog.bind_assoc]
      apply Warrants.sql allows_returns
      rintro w₃ hw₃ locked d₃ - eff heff
      cases hw₃
      rw [updateSpots_eq_ok heff]
      split
      · trivial
      · rename_i hsome
        refine Warrants.commit allows_returns rfl ?_ (warrants_of_quiet htail)
        have hdata : ∀ a ∈ payload.data.filter fun a => !a.unchanged current, a ∈ payload.data :=
          fun a ha => (List.mem_filter.1 ha).1
        have huids : ∀ u ∈ (((id d₃).spots.select fun s => s.uid == current.uid).map Spot.uid),
            u = uid := by
          intro u hu
          obtain ⟨s, hs, rfl⟩ := List.mem_map.1 hu
          rw [← huid]
          exact beq_iff_eq.1 (Table.mem_select.1 hs).2
        by_cases hmoves : ∃ next, .pipelineStatus (some next) ∈
            payload.data.filter fun a => !a.unchanged current
        · -- a payload with a status has been checked against the whitelist
          obtain ⟨next, hnext⟩ := hmoves
          have hchecked : ∀ status, .pipelineStatus (some status) ∈
              (payload.data.filter fun a => !a.unchanged current) →
              (current.pipelineStatus, status) ∈ allowedPipelineTransitions ∧
                current.assignedToUid = some staff.uid := fun status hmem =>
            hallowed status (pipelineStatus?_of_mem payload (hdata _ hmem) rfl)
          rw [(hchecked next hnext).2] at hstanding
          refine .moves d rfl staff.uid hcaller current.pipelineStatus hstanding ?_ fun d' u => ?_
          · obtain ⟨u, hu⟩ := List.exists_mem_of_ne_nil _ fun hnone =>
              hsome (List.isEmpty_iff.2 hnone)
            rw [hid] at hu ⊢
            refine List.any_eq_true.2 ⟨_, List.mem_append_right _ (List.mem_map_of_mem hu), ?_⟩
            simp only [Bool.and_eq_true, beq_iff_eq, List.contains_iff_mem]
            exact ⟨huids u hu, List.mem_map.2 ⟨_, hnext, rfl⟩⟩
          · rw [Work.andThen, hid]
            rcases statusOf_update huids d' u with hsame | ⟨hu, status, hwritten, hafter⟩
            · exact .inl hsame
            · exact .inr ⟨hu, status, hafter, (hchecked status hwritten).1⟩
        · refine .keeps fun d' u => ?_
          rw [Work.andThen, hid]
          rcases statusOf_update huids d' u with hsame | ⟨-, status, hwritten, -⟩
          · exact hsame
          · exact absurd ⟨status, hwritten⟩ hmoves

/-- What a request of a caller who is no SUPERUSER commits. -/
theorem warrants_updateSpot (cfg : Settings) (be : Backend) (now : Timestamp)
    (h : NotSuperuser credentials start) (uid : String) (payload : SpotUpdate) :
    Warrants (fun d => d.users = start.users) (CommitsStatus credentials uid)
      (Returns fun _ _ => True)
      ((SpotCall.update credentials uid payload).program cfg be now) {} := by
  have hnew : Unwritten ({} : Own Db RowKey Change) := by
    rintro w hw
    cases hw
    rfl
  apply warrants_request
  simp only [SpotCall.body, InternalSpots.updateSpot, Prog.bind_eq_bind, Prog.bind_assoc]
  apply warrants_requireStaff h hnew
  intro staff o₁ hcaller hrole ho₁
  apply warrants_findSpot ho₁
  intro current w d huid hid hstanding
  split
  · trivial
  · rename_i hallowed
    apply warrants_updateLoaded hcaller huid hid hstanding
    · exact fun status hstatus => transition_of_allowed hrole hallowed hstatus
    · exact fun _ => trivial

end Commits

/-! ## All calls -/

section Pool

variable {ι : Type} [DecidableEq ι]

/-- No SUPERUSER holds the credentials. -/
def isNotSuperuser (credentials : Credentials) (d : Db) : Bool :=
  match credentials with
  | .access sub => (d.users.find? sub).all fun user =>
      !(user.isStaff && user.staffRole == .superuser)
  | _ => true

theorem notSuperuser_iff {credentials : Credentials} {d : Db} :
    NotSuperuser credentials d ↔ isNotSuperuser credentials d = true := by
  cases credentials with
  | access sub =>
      simp only [NotSuperuser, isNotSuperuser, Option.all_eq_true, Bool.not_eq_true',
        Bool.and_eq_false_iff, beq_eq_false_iff_ne]
      constructor
      · intro h user huser
        by_cases hstaff : user.isStaff = true
        · exact .inr fun hrole => h sub user rfl huser ⟨hstaff, hrole⟩
        · exact .inl (by simpa using hstaff)
      · rintro h _ user ⟨⟩ huser ⟨hstaff, hrole⟩
        rcases h user huser with hnot | hnot
        · rw [hstaff] at hnot
          cases hnot
        · exact hnot hrole
  | missing | invalid | otherType =>
      refine iff_of_true (fun sub user hsub => ?_) rfl
      cases hsub

/-- The step commits a new status of a spot, by a caller who is no SUPERUSER, only while status and
assignee of the spot are those that the request has loaded. -/
def LoadStands (calls : ι → TimedCall) (i : ι) (s s' : State ι) : Prop :=
  match (calls i).call with
  | .update credentials uid _ => isNotSuperuser credentials s.db = true →
      writesStatus uid (s.tx i).work.changes = true → s'.commits i ≠ s.commits i →
        ∀ d ∈ (s.seen i)[3]?, standing uid s.db = standing uid d
  | _ => True

instance decidableLoadStands (calls : ι → TimedCall) (i : ι) (s s' : State ι) :
    Decidable (LoadStands calls i s s') := by
  unfold LoadStands
  split <;> infer_instance

/-- Whatever the call commits of a status, the transition is in the whitelist and the spot was
assigned to the caller. -/
def RespectsWhitelist (x : TimedCall) (before after : Db) : Prop :=
  ∀ credentials uid payload, x.call = .update credentials uid payload →
    NotSuperuser credentials before → ∀ u, statusOf u after ≠ statusOf u before →
    ∃ sub status next, credentials = .access sub ∧ standing u before = some (status, some sub) ∧
      statusOf u after = some next ∧ (status, next) ∈ allowedPipelineTransitions

variable {cfg : Settings} {be : Backend} {calls : ι → TimedCall}
  {c c' : Config ι Exc Command (State ι) Unit}

/-- The calls write no users. -/
theorem users_of_run {ok : ι → State ι → State ι → Prop} (hidle : Idle c.state)
    (hcalls : ∀ i, (calls i).call.writesSpotOnly = true)
    (hthreads : ∀ i, c.thread i = (calls i).call.program cfg be (calls i).now)
    (hrun : Run (sessions ok) c c') : c'.state.db.users = c.state.db.users := by
  have hstart : AllTransit OnlySpots c.state.db c := by
    refine ⟨onCourse_of_idle OnlySpots.refl hidle.tx, fun i => ?_⟩
    rw [hthreads i]
    exact Transits.of_uses (SpotCall.uses_program admits_onlySpots cfg (calls i).call
      (onlySpots_writes be (calls i).now (hcalls i)))
  exact (hstart.run OnlySpots.refl OnlySpots.trans (Run.of_guarded hrun)).course.db.users

end Pool

/-- In every run in which such updates are committed only while what they have loaded stands, each
step that commits one respects the whitelist and the assignment. -/
theorem transitions_respected {ι : Type} [DecidableEq ι] {cfg : Settings} {be : Backend}
    {calls : ι → TimedCall} {c c' c'' : Config ι Exc Command (State ι) Unit} (hidle : Idle c.state)
    (hcalls : ∀ i, (calls i).call.writesSpotOnly = true)
    (hthreads : ∀ i, c.thread i = (calls i).call.program cfg be (calls i).now)
    (hrun : Run (sessions (LoadStands calls)) c c')
    (hstep : Step (sessions (LoadStands calls)) c' c'') (i : ι)
    (hcommits : c''.state.commits i ≠ c'.state.commits i) :
    RespectsWhitelist (calls i) c'.state.db c''.state.db := by
  intro credentials uid payload hcall hrole u hchanged
  have husers : ∀ b, Run (sessions (LoadStands calls)) c b → b.state.db.users = c.state.db.users :=
    fun b hb => users_of_run hidle hcalls hthreads hb
  have hrestart : NotSuperuser credentials c.state.db := by
    intro sub user hsub huser
    rw [← husers c' hrun] at huser
    exact hrole sub user hsub huser
  -- the users are those of the start whenever a session meets the database
  have hrun' : Run (sessions fun i s s' => LoadStands calls i s s' ∧
      s.db.users = c.state.db.users) c c' :=
    hrun.strengthen fun b hb _ _ hok => ⟨hok, husers b hb⟩
  have hstep' : Step (sessions fun i s s' => LoadStands calls i s s' ∧
      s.db.users = c.state.db.users) c' c'' :=
    hstep.strengthen fun _ _ hok => ⟨hok, husers c' hrun⟩
  have hguard : ∀ j (s s' : State ι),
      LoadStands calls j s s' ∧ s.db.users = c.state.db.users → s.db.users = c.state.db.users :=
    fun _ _ _ hok => hok.2
  have hwarrant : Warrants (fun d => d.users = c.state.db.users) (CommitsStatus credentials uid)
      (Returns fun _ _ => True) (c.thread i) {} := by
    rw [hthreads i, hcall]
    exact warrants_updateSpot cfg be (calls i).now hrestart uid payload
  have hstart := hwarrant.meets (F := fun _ => CommitsStatus credentials uid) hguard (hidle.of i)
  obtain ⟨hfact, ⟨hstand, -⟩, hdb⟩ := commit_of_meets (hrun'.meets_own hstart) hstep' hcommits
  cases hfact with
  | keeps hstatus =>
      rw [hdb] at hchanged
      exact absurd (hstatus _ u) hchanged
  | moves d hseen sub hcaller status hstanding hwrites hstatus =>
      simp only [LoadStands, hcall] at hstand
      have hsame := hstand (notSuperuser_iff.1 hrole) hwrites hcommits d hseen
      rw [hdb] at hchanged ⊢
      rcases hstatus c'.state.db u with hkept | ⟨rfl, next, hafter, hpair⟩
      · exact absurd hkept hchanged
      · exact ⟨sub, status, next, hcaller, hsame.trans hstanding, hafter, hpair⟩

namespace Sample

/-- A staff user of the highest rank. -/
def superuser (uid : String) : User :=
  { user uid with
    isStaff := true
    staffRole := .superuser }

/-- A spot that waits for verification, assigned to a manager. -/
def lake : Spot :=
  { uid := "lake", title := "Lake", pipelineStatus := .enriched, assignedToUid := some "m" }

/-- The spot, its manager and a SUPERUSER. -/
def contested : Db :=
  { Db.empty with
    spots := ⟨[lake], List.nodup_singleton _⟩
    users := ⟨[manager "m", superuser "root"], by decide⟩ }

/-- The manager submits the spot, and the SUPERUSER rejects it. -/
def rivals : Fin 2 → TimedCall
  | 0 => ⟨0, .update (.access "m") "lake"
    ⟨[.title (some "The lake"), .pipelineStatus (some .curated)], by decide, by decide⟩⟩
  | 1 => ⟨0, .bulkStatus (.access "root") ["lake"] .rejected⟩

/-- A pool at its start. -/
def contesting : Config (Fin 2) Exc Command (State (Fin 2)) Unit :=
  ⟨World.fresh contested, fun i => (rivals i).call.program settings backend 0⟩

end Sample

/-- The manager's request alone moves the spot along the whitelist. -/
theorem transitions_respected_submission :
    ∃ c' c'', Run (sessions (LoadStands Sample.rivals)) Sample.contesting c' ∧
      Step (sessions (LoadStands Sample.rivals)) c' c'' ∧
      c''.state.commits 0 ≠ c'.state.commits 0 ∧
      statusOf "lake" c''.state.db = some .curated ∧
      RespectsWhitelist (Sample.rivals 0) c'.state.db c''.state.db := by
  have hrun : (follow (guardExec (fun i => exec i) (LoadStands Sample.rivals))
      (List.replicate 5 0) Sample.contesting).any (fun c =>
        (advance (guardExec (fun i => exec i) (LoadStands Sample.rivals)) 0 c).any fun c'' =>
          c''.state.commits 0 ≠ c.state.commits 0 ∧
            statusOf "lake" c''.state.db = some .curated) = true := by
    decide +kernel
  obtain ⟨c', hfollow, hlast⟩ := (Option.any_eq_true _ _).1 hrun
  obtain ⟨c'', hadvance, h⟩ := (Option.any_eq_true _ _).1 hlast
  obtain ⟨hcommits, hstatus⟩ : c''.state.commits 0 ≠ c'.state.commits 0 ∧
      statusOf "lake" c''.state.db = some .curated := by simpa using h
  have hguarded : Run (sessions (LoadStands Sample.rivals)) Sample.contesting c' :=
    Run.of_guardExec (run_of_follow hfollow)
  have hstep : Step (sessions (LoadStands Sample.rivals)) c' c'' :=
    Step.of_guardExec (step_of_advance hadvance)
  refine ⟨c', c'', hguarded, hstep, hcommits, hstatus, ?_⟩
  have hthreads : ∀ i, Sample.contesting.thread i = (Sample.rivals i).call.program Sample.settings
      Sample.backend (Sample.rivals i).now := by
    rw [Fin.forall_fin_two]
    exact ⟨rfl, rfl⟩
  exact transitions_respected (idle_fresh _) (by decide) hthreads hguarded hstep 0 hcommits

/-- The manager has loaded the spot when the SUPERUSER rejects it: the rejected spot is CURATED
then, a transition that the whitelist does not have. -/
theorem transition_overwrites :
    ∃ c' c'', Run platform Sample.contesting c' ∧ Step platform c' c'' ∧
      c''.state.commits 0 ≠ c'.state.commits 0 ∧
      NotSuperuser (.access "m") c'.state.db ∧
      statusOf "lake" c'.state.db = some .rejected ∧
      statusOf "lake" c''.state.db = some .curated ∧
      ¬RespectsWhitelist (Sample.rivals 0) c'.state.db c''.state.db := by
  have hrun : (follow (fun i => exec i) (List.replicate 2 0 ++ List.replicate 6 1 ++
      List.replicate 3 0) Sample.contesting).any (fun c =>
        (advance (fun i => exec i) 0 c).any fun c'' =>
          c''.state.commits 0 ≠ c.state.commits 0 ∧ isNotSuperuser (.access "m") c.state.db = true ∧
            statusOf "lake" c.state.db = some .rejected ∧
            statusOf "lake" c''.state.db = some .curated) = true := by
    decide +kernel
  obtain ⟨c', hfollow, hlast⟩ := (Option.any_eq_true _ _).1 hrun
  obtain ⟨c'', hadvance, h⟩ := (Option.any_eq_true _ _).1 hlast
  obtain ⟨hcommits, hrole, hbefore, hafter⟩ : c''.state.commits 0 ≠ c'.state.commits 0 ∧
      isNotSuperuser (.access "m") c'.state.db = true ∧
      statusOf "lake" c'.state.db = some .rejected ∧
      statusOf "lake" c''.state.db = some .curated := by simpa using h
  have hnot : NotSuperuser (.access "m") c'.state.db := notSuperuser_iff.2 hrole
  refine ⟨c', c'', run_of_follow hfollow, step_of_advance hadvance, hcommits, hnot, hbefore, hafter,
    fun hrespects => ?_⟩
  have hchanged : statusOf "lake" c''.state.db ≠ statusOf "lake" c'.state.db := by
    rw [hbefore, hafter]
    decide
  obtain ⟨sub, status, next, -, hstanding, hnext, hpair⟩ :=
    hrespects _ _ _ rfl hnot "lake" hchanged
  -- the whitelist does not lead from REJECTED
  have hrejected : statusOf "lake" c'.state.db = some status := by
    have hfirst := congrArg (Option.map Prod.fst) hstanding
    rw [standing, Option.map_map] at hfirst
    exact hfirst
  rw [hbefore, Option.some.injEq] at hrejected
  subst hrejected
  simp [allowedPipelineTransitions] at hpair

end Vivac
