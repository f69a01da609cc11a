import Vivac.Core.Cache
import Vivac.Lib.LoneSession
import Vivac.Lib.OwnCommits

/-!
# Contracts of requests

The rules of the constructs requests are written in: a caught exception, a branch, and
the session a request runs in, which ends with a rollback. `Admits` are the conditions on commands
that hold of a program when they hold of its writing statements.
-/

set_option autoImplicit false

namespace Vivac

open Lib App

variable {ι : Type} [DecidableEq ι] {Inv : State ι → Prop} {T : State ι → State ι → Prop}
  {ok : ι → State ι → State ι → Prop} {i : ι} {α β : Type}

/-- `except Exception: return x` around a program that keeps an assertion. -/
theorem triple_tryExcept (hT : SharedStep Inv T) {P : State ι → Prop} {p : App α} {x : α}
    (hP : Stable (sessionContract Inv T) i P)
    (hp : Triple (sessions ok) (sessionContract Inv T) i P p fun _ => P) :
    Triple (sessions ok) (sessionContract Inv T) i P (tryExcept p fun _ => .ret x)
      (Returns fun _ => P) := by
  refine Triple.tryCatch (sessionContract_fits hT) (fun _ => P) hp (fun a => ?_) fun e => ?_
  · exact Triple.ret_returns hP fun _ _ h => h
  · split
    · exact Triple.ret_returns hP fun _ _ h => h
    · exact Triple.raise_returns

/-- What is computed without a command, and may be refused. -/
theorem triple_ofExcept {r : Except Exc β} {f : β → App α} {P : State ι → Prop}
    {M : α → State ι → Prop}
    (hf : ∀ b, r = .ok b → Triple (sessions ok) (sessionContract Inv T) i P (f b) (Returns M)) :
    Triple (sessions ok) (sessionContract Inv T) i P ((Prog.ofExcept r).bind f) (Returns M) := by
  cases r with
  | ok b => exact hf b rfl
  | error e => exact Triple.raise_returns

/-- A request in its session: what holds when it returns has to survive the rollback. -/
theorem triple_withSession (hT : SharedStep Inv T) {P : State ι → Prop} {p : App α}
    {M : α → State ι → Prop} (hM : ∀ a, Stable (sessionContract Inv T) i (M a))
    (hp : Triple (sessions ok) (sessionContract Inv T) i P p (Returns M))
    (hroll : ∀ s, Inv s → ok i s (endTx i (s.log i .rollback)) →
      Inv (endTx i (s.log i .rollback)) ∧ T s (endTx i (s.log i .rollback)) ∧
      ∀ a, M a s → M a (endTx i (s.log i .rollback))) :
    Triple (sessions ok) (sessionContract Inv T) i P (withSession p) (Returns M) := by
  have hfits : (sessionContract Inv T).Fits (sessions ok : System ι Exc Command (State ι)) :=
    sessionContract_fits hT
  have hatt : Triple (sessions ok) (sessionContract Inv T) i P p.attempt
      (Returns fun r s => Returns M r s) := Triple.attempt hp
  have hstable : ∀ r : Except Exc α, Stable (sessionContract Inv T) i fun s => Returns M r s := by
    intro r
    cases r with
    | ok a => exact hM a
    | error e => exact fun _ _ _ _ _ => trivial
  refine Triple.bind_returns hfits _ hatt fun r => ?_
  refine Triple.bind_returns hfits (fun _ s => Returns M r s) ?_ fun _ => ?_
  · refine (Triple.command (M := fun _ s => Returns M r s) (hstable r) (fun _ => hstable r)
      fun s out s' hi hm hexec hok => ?_).conseq (fun _ _ h => h) fun out s _ h => ?_
    · obtain ⟨-, rfl⟩ := exec_rollback_eq hexec
      obtain ⟨hinv, hstep, hkeep⟩ := hroll s hi hok
      refine ⟨hinv, hstep, ?_⟩
      cases r with
      | ok a => exact hkeep a hm
      | error e => trivial
    · cases out with
      | ok u => exact h
      | error e => trivial
  · cases r with
    | ok a => exact Triple.ret_returns (hM a) fun _ _ h => h
    | error e => exact Triple.raise_returns

/-- What the end of a session leaves of the outcome `r`: an exception of the rollback
replaces it. -/
def Closed (M : Except Exc α → State ι → Prop) (r : Except Exc α) :
    Except Exc Unit → State ι → Prop
  | .ok _, s => M r s
  | .error e, s => M (.error e) s

/-- A request in its session, under terms that name the session. -/
theorem triple_session {sys : System ι Exc Command (State ι)} (hsys : Framed sys)
    {t : Terms ι Db RowKey Change Body} (hfair : t.Fair) {P : State ι → Prop}
    {p : App α} {M : Except Exc α → State ι → Prop} (hM : ∀ r, Stable t.contract i (M r))
    (hp : Triple sys t.contract i P p M)
    (hroll : ∀ r, Triple sys t.contract i (M r) (Prog.perform .rollback : App Unit) (Closed M r)) :
    Triple sys t.contract i P (withSession p) M := by
  have hfits : t.contract.Fits sys := hfair.fits hsys
  refine Triple.bind_attempt hfits hp fun r => ?_
  refine Triple.bind hfits (fun _ => M r) ((hroll r).conseq (fun _ _ h => h) ?_) fun _ => ?_
  · intro out s _ hm
    cases out with
    | ok u => exact hm
    | error e => exact hm
  · cases r with
    | ok a => exact Triple.ret (hM (.ok a))
    | error e => exact Triple.raise (hM (.error e))

/-- A rollback at the end of a session, where it does not fail. -/
theorem triple_rollback {t : Terms ι Db RowKey Change Body} {M : Except Exc α → State ι → Prop}
    (hM : ∀ r, Stable t.contract i (M r)) (r : Except Exc α)
    (hroll : ∀ s, t.inv s → M r s → ok i s (endTx i (s.log i .rollback)) →
      t.inv (endTx i (s.log i .rollback)) ∧ t.own i s (endTx i (s.log i .rollback)) ∧
      (∀ j, j ≠ i → t.rely j s (endTx i (s.log i .rollback))) ∧
      M r (endTx i (s.log i .rollback))) :
    Triple (sessions ok) t.contract i (M r) (Prog.perform .rollback : App Unit) (Closed M r) := by
  apply Triple.act (framed_sessions ok) (hM r)
  · intro out
    cases out with
    | ok u => exact hM r
    | error e => exact hM (.error e)
  · rintro s out s' hi hm ⟨hexec, hok⟩
    obtain ⟨rfl, rfl⟩ := exec_rollback_eq hexec
    exact hroll s hi hm hok

/-- A request that has returned has its postcondition after the rollback of its session. -/
theorem Meets.of_returned (hT : SharedStep Inv T) {M : α → State ι → Prop} {a : α} {s : State ι}
    (hok : ok i s (endTx i (s.log i .rollback))) (hi : Inv s)
    (hm : Meets (sessions ok) (sessionContract Inv T) i (Returns M) (closeSession (.ok a)) s) :
    M a (endTx i (s.log i .rollback)) := Meets.of_rollback hT hok hi rfl hm

/-- A program in its session commits what it commits by itself. -/
theorem warrants_withSession {A : Db → Prop} {F : CommitFact Db RowKey Change}
    {Q : Except Exc α → Own Db RowKey Change → Prop} {o : Own Db RowKey Change} {p : App α}
    (h : Warrants A F (fun r o => Q r (o.withWork {})) p o) : Warrants A F Q (withSession p) o := by
  apply Warrants.bind
  apply Warrants.attempt
  refine h.mono fun r o' h' => ?_
  cases r with
  | ok a => exact h'
  | error e => exact h'

/-- A request of which only the commits matter. -/
theorem warrants_request {A : Db → Prop} {F : CommitFact Db RowKey Change}
    {o : Own Db RowKey Change} {p : App α} (h : Warrants A F (Returns fun _ _ => True) p o) :
    Warrants A F (Returns fun _ _ => True) (withSession p) o := by
  apply warrants_withSession
  refine h.mono fun r o' _ => ?_
  cases r <;> trivial

/-- A command that commits nothing. -/
def Command.Quiet {β : Type} : Command β → Prop
  | .sql _ => True
  | .get _ => True
  | .set _ _ => True
  | .incr _ => True
  | .rollback => True
  | _ => False

theorem quiet_bump (cfg : Settings) (key : String) : (Cache.bump cfg key).Uses Command.Quiet := by
  unfold Cache.bump
  split
  · refine Prog.Uses.tryCatch (Prog.uses_perform trivial) fun e => ?_
    split <;> trivial
  · trivial

section Warrants

variable {A : Db → Prop} {F : CommitFact Db RowKey Change} {o : Own Db RowKey Change} {α β : Type}

theorem warrants_of_quiet {p : App α} (hp : p.Uses Command.Quiet) :
    Warrants A F (Returns fun _ _ => True) p o := by
  have hany : Warrants A F (fun _ _ => True) p o := by
    refine Warrants.of_uses (P := fun _ => True) (fun c o hc _ => ?_) hp trivial
    cases c with
    | sql st =>
        simp only [Cmd.Post]
        split
        · exact ⟨fun _ _ _ _ _ => trivial, fun _ _ _ _ _ => trivial, trivial⟩
        · exact ⟨trivial, trivial⟩
    | rollback => trivial
    | get key => exact fun _ => trivial
    | set key v => trivial
    | incr key => exact fun _ => trivial
    | commit => exact hc.elim
    | savepoint => exact hc.elim
    | release => exact hc.elim
    | rollbackTo => exact hc.elim
  refine hany.mono fun r o' _ => ?_
  cases r <;> trivial

/-- Nothing is written yet. -/
def Unwritten (o : Own Db RowKey Change) : Prop := ∀ w, o.work = some w → w.write = id

/-- A program that reads, and what follows it. -/
theorem warrants_readOnly_bind {p : App β} {k : β → App α} {M : α → Own Db RowKey Change → Prop}
    (hp : ReadOnly p) (ho : Unwritten o)
    (hk : ∀ b o', Unwritten o' → Warrants A F (Returns M) (k b) o') :
    Warrants A F (Returns M) (p.bind k) o := by
  induction hp generalizing o with
  | ret b => exact hk b o ho
  | raise e => trivial
  | @read R f k' _ ih =>
      obtain ⟨work, seen, commits⟩ := o
      cases work with
      | none => exact ⟨ih _ ho, ih _ ho⟩
      | some w =>
          refine ⟨fun locked d _ eff heff => ih _ ?_, fun locked d _ e he => ih _ ?_, ih _ ?_⟩
          · cases heff
            rw [Work.andThen_read]
            exact ho
          · rintro w' hw'
            cases hw'
          · rintro w' hw'
            cases hw'

end Warrants

section Knowledge

variable {ι : Type} [DecidableEq ι] {lossy : Prop} {ok : ι → State ι → State ι → Prop}
  {sys : System ι Exc Command (State ι)} {hsys : Attended lossy ok sys}
  {A : ι → MeetFact Db Change} {hA : ∀ i s s', ok i s s' → A i (s.seen i) (s.commits i) s.db}
  {F : ι → CommitFact Db RowKey Change} {i : ι} {o : Own Db RowKey Change}
  {Q : Except Exc α → Own Db RowKey Change → Prop}

/-- A request knows at its end what it knew before the rollback of its session. -/
theorem knows_withSession {p : App α}
    (h : Knows (sessionLogic hsys A hA F) i (fun r o => Q r (o.withWork {})) p o) :
    Knows (sessionLogic hsys A hA F) i Q (withSession p) o := by
  apply Knows.attempt_bind
  refine h.mono fun r o' h' => ?_
  cases r with
  | ok a => exact h'
  | error e => exact h'

/-- The version of a cached body changes nothing a session knows. -/
theorem knows_bump {cfg : Settings} {key : String} {k : Unit → App α}
    (h : Knows (sessionLogic hsys A hA F) i Q (k ()) o) :
    Knows (sessionLogic hsys A hA F) i Q ((Cache.bump cfg key).bind k) o := by
  unfold Cache.bump
  split
  · exact ⟨h, h⟩
  · exact h

end Knowledge

/-! ## A session by itself -/

/-- Raising a version does not concern the database. -/
theorem lone_bump (cfg : Settings) (vk : String) (db : Db) (ds : List Db) (d : Db) :
    Lone i (Sees i db ds d) (Cache.bump cfg vk) fun r s => r = .ok () ∧ Sees i db ds d s := by
  unfold Cache.bump
  split
  · refine Lone.bind (fun r s => (r = .ok (.ok ()) ∨ r = .ok (.error Faults.wrongType)) ∧
      Sees i db ds d s) ?_ (fun out => ?_) fun e s h => ?_
    · refine Lone.attempt (Lone.incr vk) fun r s h => ⟨?_, h.2⟩
      rcases h.1 with rfl | rfl
      · exact .inl rfl
      · exact .inr rfl
    · cases out with
      | ok a => exact Lone.ret () fun _ h => ⟨rfl, h.2⟩
      | error e =>
        intro s h
        obtain ⟨hout | hout, hs⟩ := h
        · cases hout
        · cases hout
          exact ⟨.ok (), s, rfl, rfl, hs⟩
    · rcases h.1 with hr | hr <;> cases hr
  · exact Lone.ret () fun _ h => ⟨rfl, h⟩

/-- A session by itself runs its program, and then rolls back. -/
theorem runAlone_withSession {ι : Type} [DecidableEq ι] (i : ι) (p : App α) (s : State ι) :
    runAlone (fun i => exec i) i (withSession p) s =
      (runAlone (fun i => exec i) i p s).map fun out =>
        (out.1, endTx i (out.2.log i .rollback)) := by
  unfold withSession
  rw [runAlone_bind, runAlone_attempt]
  cases runAlone (fun i => exec i) i p s with
  | none => rfl
  | some out =>
      obtain ⟨r, s'⟩ := out
      cases r <;> rfl

/-- What holds of outcome and committed database holds after the rollback, and the next transaction
has not begun. -/
theorem lone_withSession {ι : Type} [DecidableEq ι] {i : ι} {P : State ι → Prop} {p : App α}
    {Q : Except Exc α → Db → Prop} (h : Lone i P p fun r s => Q r s.db) :
    Lone i P (withSession p) fun r s => s.tx i = {} ∧ Q r s.db := by
  intro s hs
  obtain ⟨r, s', hrun, hq⟩ := h s hs
  refine ⟨r, endTx i (s'.log i .rollback), ?_, Function.update_self .., hq⟩
  rw [runAlone_withSession, hrun]
  rfl

/-! ## Between calls -/

/-- Between calls no transaction is open. -/
def Between (s : State Unit) : Prop := s.tx () = {}

theorem Between.sees {s : State Unit} (h : Between s) : Sees () s.db [] s.db s := by
  have htx : s.tx () = {} := h
  refine ⟨⟨rfl, ?_, by simp [htx], by simp [htx]⟩, by rw [htx], by rw [World.view, htx]; rfl⟩
  funext k
  show World.heldByOther s () k = false
  unfold World.heldByOther
  cases s.holder k <;> rfl

theorem between_fresh (db : Db) : Between (World.fresh db : State Unit) := rfl

theorem between_of_withSession {α : Type} {p : App α} {s s' : State Unit} {r : Except Exc α}
    (h : runAlone (fun i => exec i) () (withSession p) s = some (r, s')) : Between s' := by
  have hended : ∀ t : State Unit, (endTx () t).tx () = {} := by
    intro t
    simp [endTx, World.setTx]
  rw [runAlone_withSession] at h
  obtain ⟨out, -, hout⟩ := Option.map_eq_some_iff.1 h
  cases hout
  exact hended _

/-! ## What a session has read -/

section Reads

variable {ι : Type} [DecidableEq ι] {i : ι} {db : Db} {α β : Type}

/-- A program that reads has found `M`, or raised. -/
def HasRead (i : ι) (db : Db) (M : α → Prop) (r : Except Exc α) (s : State ι) : Prop :=
  match r with
  | .ok a => M a ∧ Sees i db [] db s
  | .error _ => Holds i db [] s

/-- What follows on a program that reads. -/
theorem lone_read_bind {p : App β} {f : β → App α} {M : β → Prop} {Q : Except Exc α →
    State ι → Prop}
    (hp : Lone i (Sees i db [] db) p (HasRead i db M))
    (hf : ∀ b, M b → Lone i (Sees i db [] db) (f b) Q)
    (herror : ∀ e s, Holds i db [] s → Q (.error e) s) :
    Lone i (Sees i db [] db) (p.bind f) Q := by
  refine Lone.bind _ hp (fun b s hs => ?_) herror
  exact hf b hs.1 s hs.2

/-- After a program that reads the session sees what it saw. -/
theorem lone_readOnly {p : App α} (h : ReadOnly p) {ds : List Db} {d : Db} :
    Lone i (Sees i db ds d) p fun _ s => Sees i db ds d s := by
  induction h with
  | ret a => exact Lone.ret a fun s hs => hs
  | raise e => exact Lone.raise e fun s hs => hs
  | read f k _ ih =>
      refine Alone.call _ (Lone.read f) fun r => ?_
      intro s hs
      exact ih r s hs.2

/-- What follows on a program that reads, whatever it answers. -/
theorem lone_readOnly_bind {p : App β} {f : β → App α} {Q : Except Exc α → State ι → Prop}
    (hp : ReadOnly p) (hf : ∀ b, Lone i (Sees i db [] db) (f b) Q)
    (herror : ∀ e s, Holds i db [] s → Q (.error e) s) :
    Lone i (Sees i db [] db) (p.bind f) Q :=
  Lone.bind (fun _ s => Sees i db [] db s)
    ((lone_readOnly hp).conseq (fun _ hs => hs) fun r s hs => by cases r <;> exact hs)
    (fun b => hf b) fun e s hs => herror e s hs.holds

/-- A commit, and what reads after it. -/
theorem lone_committed {k : Unit → App α} (hk : ReadOnly (k ())) {ds : List Db} {d : Db} :
    Lone i (Sees i db ds d) (commit.bind k) fun _ s => s.db = d :=
  Lone.bind_ok Lone.commit ((lone_readOnly hk).conseq (fun _ hs => hs) fun _ _ hs => hs.holds.db_eq)

/-- By itself the program ends with committed tables that meet `A`. -/
def LoneEnds (i : ι) (db : Db) (A : Db → Prop) (p : App α) : Prop :=
  Lone i (Sees i db [] db) p fun _ s => A s.db

section Ends

variable {A : Db → Prop}

/-- A program that has changed nothing. -/
theorem ends_of_holds (hA : A db) {s : State ι} (h : Holds i db [] s) : A s.db := by
  rw [h.db_eq]
  exact hA

theorem loneEnds_readOnly (hA : A db) {p : App α} (h : ReadOnly p) : LoneEnds i db A p :=
  (lone_readOnly h).conseq (fun _ hs => hs) fun _ _ hs => ends_of_holds hA hs.holds

theorem loneEnds_raise (hA : A db) (e : Exc) : LoneEnds i db A (.raise e : App α) :=
  loneEnds_readOnly hA (.raise e)

/-- A check, and what follows on what it has read. -/
theorem loneEnds_read_bind (hA : A db) {p : App β} {f : β → App α} {M : β → Prop}
    (hp : Lone i (Sees i db [] db) p (HasRead i db M)) (hf : ∀ b, M b → LoneEnds i db A (f b)) :
    LoneEnds i db A (p.bind f) :=
  lone_read_bind hp hf fun _ _ hs => ends_of_holds hA hs

/-- A query, and what follows on its answer. -/
theorem loneEnds_select_bind {R : Type} {g : Db → R} {f : R → App α}
    (hf : LoneEnds i db A (f (g db))) : LoneEnds i db A ((select g).bind f) :=
  Lone.bind_ok (Lone.read g) hf

/-- The commit of what is written, and what reads after it. -/
theorem loneEnds_committed {k : Unit → App α} (hk : ReadOnly (k ())) {d : Db} (h : A d) :
    Lone i (Sees i db [] d) (commit.bind k) fun _ s => A s.db :=
  (lone_committed hk).conseq (fun _ hs => hs) fun _ _ hs => by rwa [hs]

end Ends

end Reads

/-! ## What a query answers -/

section Queries

variable {α β : Type} (d : Db)

theorem answer_ret (a : α) : answer d (.ret a : App α) = .ok a := (Answers.ret a).answer_eq

theorem answer_raise (e : Exc) : answer d (.raise e : App α) = .error e :=
  (Answers.raise e).answer_eq

/-- What a query by itself answers. -/
theorem answer_select (f : Db → α) : answer d (select f : App α) = .ok (f d) :=
  (Answers.read f).answer_eq

variable {d} {p : App β} {f : β → App α} {a : α}

theorem eq_of_answer_ret {b : α} (h : answer d (.ret b : App α) = .ok a) : b = a :=
  Except.ok.inj ((answer_ret d b).symm.trans h)

/-- What a program that reads answers, its last part answers. -/
theorem exists_answer_of_bind (hp : ReadOnly p) (hf : ∀ b, ReadOnly (f b))
    (h : answer d (p.bind f) = .ok a) : ∃ b, answer d p = .ok b ∧ answer d (f b) = .ok a := by
  rw [answer_bind hp hf] at h
  cases hb : answer d p with
  | error e =>
      rw [hb] at h
      cases h
  | ok b =>
      rw [hb] at h
      exact ⟨b, rfl, h⟩

/-- The same, where a value computed without a command comes first. -/
theorem exists_answer_of_ofExcept {r : Except Exc β}
    (h : answer d ((Prog.ofExcept r).bind f) = .ok a) :
    ∃ b, r = .ok b ∧ answer d (f b) = .ok a := by
  cases r with
  | error e =>
      have herror := (answer_raise d e).symm.trans h
      cases herror
  | ok b => exact ⟨b, rfl, h⟩

end Queries

/-! ## Conditions on the commands of a program -/

/-- A condition on commands that reads and the versions of the cache meet. -/
structure AdmitsReads (ok : ∀ {β : Type}, Command β → Prop) : Prop where
  read : ∀ {R : Type} (f : Db → R), ok (.sql (Stmt.read f) : Command R)
  incr : ∀ key, ok (.incr key : Command Unit)

/-- One that the ends of transactions meet, too. -/
structure Admits (ok : ∀ {β : Type}, Command β → Prop) : Prop extends AdmitsReads ok where
  commit : ok (.commit : Command Unit)
  rollback : ok (.rollback : Command Unit)

/-- One that savepoints meet, and not the ends of transactions. -/
structure AdmitsSavepoints (ok : ∀ {β : Type}, Command β → Prop) : Prop
    extends AdmitsReads ok where
  savepoint : ok (.savepoint : Command Unit)
  release : ok (.release : Command Unit)
  rollbackTo : ok (.rollbackTo : Command Unit)

/-- One that both meet. -/
structure AdmitsNested (ok : ∀ {β : Type}, Command β → Prop) : Prop
    extends Admits ok, AdmitsSavepoints ok

namespace AdmitsReads

variable {ok : ∀ {β : Type}, Command β → Prop} (h : AdmitsReads ok)
include h

theorem select {R : Type} (f : Db → R) : (App.select f).Uses ok := Prog.uses_perform (h.read f)

/-- A read, and what follows its answer. -/
theorem read_bind {R : Type} {f : Db → R} {k : R → App α} (hk : ∀ r, (k r).Uses ok) :
    ((App.select f).bind k).Uses ok := (h.select f).bind hk

theorem bump (cfg : Settings) (key : String) : (Cache.bump cfg key).Uses ok := by
  unfold Cache.bump
  split
  · apply (Prog.uses_perform (h.incr key)).tryCatch
    intro e
    split <;> trivial
  · trivial

end AdmitsReads

namespace Admits

variable {ok : ∀ {β : Type}, Command β → Prop}

theorem whenever {c : Bool} {p : App Unit} (hp : p.Uses ok) : (App.whenever c p).Uses ok := by
  unfold App.whenever
  split
  · exact hp
  · trivial

theorem forEach {f : β → App Unit} (hf : ∀ x, (f x).Uses ok) (xs : List β) :
    (App.forEach f xs).Uses ok := by
  induction xs with
  | nil => trivial
  | cons x xs ih => exact (hf x).bind fun _ => ih

variable (h : Admits ok)
include h

theorem commit_bind {k : Unit → App α} (hk : (k ()).Uses ok) : (App.commit.bind k).Uses ok :=
  Prog.Uses.bind (Prog.uses_perform h.commit) fun _ => hk

theorem session {p : App α} (hp : p.Uses ok) : (withSession p).Uses ok := by
  apply hp.attempt.bind
  intro r
  exact Prog.Uses.bind (Prog.uses_perform h.rollback) fun _ => Prog.uses_ofExcept r

end Admits

end Vivac
