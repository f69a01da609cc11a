import Vivac.Lib.Evaluation
import Vivac.Lib.SessionRules

/-!
# Commands that go wrong

On top of `platform`, a command may raise instead of answering:

* a statement may be refused before it is sent, by an `ordinary` error, which leaves the
  connection in place;
* the server may refuse any database command, which fails the transaction;
* the connection may be lost under any database command, which loses the
  transaction; any exception can come with it, a cancellation too. A commit may have
  been carried out by then;
* a command to the key-value store may raise what `atStore` admits, whether it was carried
  out or not.

`Solo` is the contract of a process with one session: nobody else is there, so between
its commands only the environment acts.
-/

set_option autoImplicit false

namespace Vivac.Lib

variable {ι D K Ch V ε R α β : Type} [DecidableEq ι] [DecidableEq K] [Faults ε]

/-- A command of the database, not of the key-value store. -/
def Cmd.isDatabase : Cmd D K Ch V ε β → Bool
  | .get _ | .set _ _ | .incr _ => false
  | _ => true

/-- Replace the status of the transaction of session `i`. -/
def World.setStatus (s : World ι D K Ch V) (i : ι) (status : TxStatus) : World ι D K Ch V :=
  s.setTx i { s.tx i with status := status }

/-- The connection of session `i` is gone, and its transaction and locks with it. -/
def World.disconnect (s : World ι D K Ch V) (i : ι) : World ι D K Ch V :=
  (s.unlock i []).setTx i { status := .lost }

/-- The ways a command of session `i` goes wrong. -/
inductive Fault (ordinary atStore : ε → Prop) (i : ι) :
    ∀ {β : Type}, Cmd D K Ch V ε β → World ι D K Ch V → Except ε β → World ι D K Ch V → Prop
  | client {R : Type} {st : Stmt D K Ch ε R} {s : World ι D K Ch V} {e : ε} (he : ordinary e) :
      Fault ordinary atStore i (.sql st) s (.error e) s
  | server {β : Type} {c : Cmd D K Ch V ε β} {s : World ι D K Ch V} {e : ε}
      (hc : c.isDatabase = true) (he : ordinary e) (hlost : (s.tx i).status ≠ .lost) :
      Fault ordinary atStore i c s (.error e) (s.setStatus i .failed)
  | connection {β : Type} {c : Cmd D K Ch V ε β} {s : World ι D K Ch V} {e : ε}
      (hc : c.isDatabase = true) :
      Fault ordinary atStore i c s (.error e) (s.disconnect i)
  | committed {s : World ι D K Ch V} {e : ε} (hactive : (s.tx i).status = .active) :
      Fault ordinary atStore i .commit s (.error e) ((execCommit i s (s.tx i)).disconnect i)
  | store {β : Type} {c : Cmd D K Ch V ε β} {s : World ι D K Ch V} {e : ε}
      (hc : c.isDatabase = false) (he : atStore e) : Fault ordinary atStore i c s (.error e) s
  | stored {β : Type} {c : Cmd D K Ch V ε β} {s s' : World ι D K Ch V} {r : Except ε β} {e : ε}
      (hc : c.isDatabase = false) (he : atStore e) (h : exec i c s = some (r, s')) :
      Fault ordinary atStore i c s (.error e) s'

/-- The sessions of the platform, whose commands may go wrong. -/
def faulty (ordinary atStore : ε → Prop) :
    System ι ε (Cmd D K Ch V ε) (World ι D K Ch V) where
  step i _ c s r s' := exec i c s = some (r, s') ∨ Fault ordinary atStore i c s r s'
  env := Env

/-! ## A process with one session -/

/-- A process with one session keeps `I` of the committed database; it relies on nobody else. -/
def Solo (I : D → Prop) : Contract Unit (World Unit D K Ch V) where
  Inv s := I s.db
  R j s s' := Undisturbed j s s' ∧ s'.db = s.db
  G _ _ _ := True

/-- The committed database is `db`, rolling back to the open savepoints would show `ds`, and a
usable session sees `d`. -/
structure Tracks (db : D) (ds : List D) (d : D) (s : World Unit D K Ch V) : Prop where
  db_eq : s.db = db
  saved : (s.tx ()).status ≠ .lost → (s.tx ()).saved.map (fun w => w.write db) = ds
  view_eq : (s.tx ()).status = .active → s.view () = d

/-- The committed database is `db`, and the transaction has failed or is lost. -/
structure Stuck (db : D) (s : World Unit D K Ch V) : Prop where
  db_eq : s.db = db
  status : (s.tx ()).status ≠ .active

section Assertions

variable {I : D → Prop} {db d : D} {ds : List D} {s : World Unit D K Ch V}

omit [DecidableEq K] in
theorem Tracks.of_lost (hdb : s.db = db) (hlost : (s.tx ()).status = .lost) :
    Tracks db ds d s :=
  ⟨hdb, fun h => absurd hlost h, fun h => by rw [hlost] at h; cases h⟩

omit [DecidableEq K] in
theorem Tracks.of_failed (hdb : s.db = db)
    (hsaved : (s.tx ()).saved.map (fun w => w.write db) = ds)
    (hfailed : (s.tx ()).status = .failed) : Tracks db ds d s :=
  ⟨hdb, fun _ => hsaved, fun h => by rw [hfailed] at h; cases h⟩

omit [DecidableEq K] in
theorem Tracks.setStatus (h : Tracks db ds d s) (hlost : (s.tx ()).status ≠ .lost) :
    Tracks db ds d (s.setStatus () .failed) :=
  .of_failed h.db_eq (by simpa [World.setStatus, World.setTx] using h.saved hlost)
    (by simp [World.setStatus, World.setTx])

theorem Tracks.disconnect (hdb : s.db = db) : Tracks db ds d (s.disconnect ()) :=
  .of_lost hdb (by simp [World.disconnect, World.setTx])

omit [DecidableEq K] in
theorem Stuck.setStatus (hdb : s.db = db) : Stuck db (s.setStatus () .failed) :=
  ⟨hdb, by simp [World.setStatus, World.setTx]⟩

theorem Stuck.disconnect (hdb : s.db = db) : Stuck db (s.disconnect ()) :=
  ⟨hdb, by simp [World.disconnect, World.setTx]⟩

omit [DecidableEq K] in
/-- Without a usable transaction the session sees whatever one likes. -/
theorem Stuck.tracks (h : Stuck db s) (d : D) : ∃ ds, Tracks db ds d s :=
  ⟨_, h.db_eq, fun _ => rfl, fun hst => absurd hst h.status⟩

omit [DecidableEq K] in
/-- The environment leaves the transaction alone or loses it. -/
theorem stable_tracks :
    Stable (Solo I : Contract Unit (World Unit D K Ch V)) () (Tracks db ds d) := by
  rintro s s' - ⟨hund, hdb⟩ h
  rcases hund.tx with ⟨htx, -⟩ | hlost
  · refine ⟨hdb.trans h.db_eq, htx ▸ h.saved, fun hst => ?_⟩
    rw [htx] at hst
    rw [← h.view_eq hst]
    simp only [World.view, htx, hdb]
  · exact .of_lost (hdb.trans h.db_eq) (by rw [hlost])

omit [DecidableEq K] in
theorem stable_stuck :
    Stable (Solo I : Contract Unit (World Unit D K Ch V)) () (Stuck db) := by
  rintro s s' - ⟨hund, hdb⟩ h
  refine ⟨hdb.trans h.db_eq, ?_⟩
  rcases hund.tx with ⟨htx, -⟩ | hlost
  · rw [htx]
    exact h.status
  · rw [hlost]
    exact nofun

omit [DecidableEq K] in
theorem heldByOther_unit (s : World Unit D K Ch V) : s.heldByOther () = fun _ => false := by
  funext k
  unfold World.heldByOther
  cases s.holder k <;> rfl

end Assertions

/-! ### One command -/

section Commands

variable {ordinary atStore : ε → Prop} {I : D → Prop} {db d : D} {ds : List D}

theorem solo_fits : (Solo I).Fits
    (faulty ordinary atStore : System Unit ε (Cmd D K Ch V ε) (World Unit D K Ch V)) where
  rely_refl i s := ⟨.refl i s, rfl⟩
  rely_trans _ _ _ _ hab hbc := ⟨hab.1.trans hbc.1, hbc.2.trans hab.2⟩
  guar_rely hij := absurd rfl hij
  env_inv {_ s'} h hi := show I s'.db from Env.db_eq h ▸ hi
  env_rely j _ _ h _ := ⟨Env.undisturbed h j, Env.db_eq h⟩

/-- A command that may go wrong. -/
theorem Triple.attempted {c : Cmd D K Ch V ε β} {P : World Unit D K Ch V → Prop}
    {M : Except ε β → World Unit D K Ch V → Prop} (hP : Stable (Solo I) () P)
    (hM : ∀ r, Stable (Solo I) () (M r))
    (hexec : ∀ s r s', I s.db → P s → exec () c s = some (r, s') → I s'.db ∧ M r s')
    (hfault : ∀ s r s', I s.db → P s → Fault ordinary atStore () c s r s' → I s'.db ∧ M r s') :
    Triple (faulty ordinary atStore) (Solo I) () P (Prog.perform c) M := by
  refine Triple.perform hP hM fun s r s' hi hp hs => ?_
  rcases hs with hs | hs
  · obtain ⟨hinv, hm⟩ := hexec s r s' hi hp hs
    exact ⟨hinv, trivial, hm⟩
  · obtain ⟨hinv, hm⟩ := hfault s r s' hi hp hs
    exact ⟨hinv, trivial, hm⟩

/-- A statement answers from what the session sees. One that raises leaves no usable
transaction, unless the error is ordinary. -/
def AfterStatement (ordinary : ε → Prop) (db : D) (ds : List D) (d : D) (st : Stmt D K Ch ε R)
    (r : Except ε R) (s : World Unit D K Ch V) : Prop :=
  match r with
  | .ok a => ∃ d', st.apply d = .ok (a, d') ∧ Tracks db ds d' s
  | .error e => Tracks db ds d s ∧ (ordinary e ∨ Stuck db s)

theorem Triple.statement (st : Stmt D K Ch ε R) :
    Triple (faulty ordinary atStore) (Solo I) () (Tracks db ds d)
      (Prog.perform (.sql st) : Prog ε (Cmd D K Ch V ε) R)
      (AfterStatement ordinary db ds d st) := by
  refine Triple.attempted stable_tracks (fun r => ?_) (fun s r s' hi h hexec => ?_)
    fun s r s' hi h hfault => ?_
  · cases r with
    | ok a =>
      rintro s s' hi hr ⟨d', hst, h⟩
      exact ⟨d', hst, stable_tracks s s' hi hr h⟩
    | error e =>
      rintro s s' hi hr ⟨h, he⟩
      exact ⟨stable_tracks s s' hi hr h, he.imp_right (stable_stuck s s' hi hr)⟩
  · rcases exec_sql_cases hexec with ⟨hst, ⟨e, rfl⟩, rfl⟩ | ⟨hst, e, -, rfl, rfl⟩ |
      ⟨hst, eff, heff, -, rfl, rfl⟩
    · exact ⟨hi, h, .inr ⟨h.db_eq, hst⟩⟩
    · refine ⟨hi, .of_failed h.db_eq ?_ ?_, .inr ⟨h.db_eq, ?_⟩⟩
      · simpa [World.setTx] using h.saved (by rw [hst]; decide)
      · simp [World.setTx]
      · simp [World.setTx]
    · rw [heldByOther_unit, h.view_eq hst] at heff
      refine ⟨hi, eff.write d, ?_, h.db_eq, fun _ => ?_, fun _ => ?_⟩
      · simp only [Stmt.apply, heff, Except.map]
      · simpa [World.setTx] using h.saved (by rw [hst]; decide)
      · simp only [World.view, World.setTx, Function.update_self, Function.comp_apply]
        exact congrArg eff.write (h.view_eq hst)
  · cases hfault with
    | client he => exact ⟨hi, h, .inl he⟩
    | server hc he hlost =>
      exact ⟨hi, h.setStatus hlost, .inl he⟩
    | connection hc => exact ⟨hi, .disconnect h.db_eq, .inr (.disconnect h.db_eq)⟩
    | store hc he => cases hc
    | stored hc he hexec => cases hc

/-- What is left of a program of statements that means `out`: an answer is the one it means. -/
def MayEnd (ordinary : ε → Prop) (db : D) (ds : List D) (out : Except ε (α × D)) (r : Except ε α)
    (s : World Unit D K Ch V) : Prop :=
  match r with
  | .ok a => ∃ d', out = .ok (a, d') ∧ Tracks db ds d' s
  | .error e => (∃ d', Tracks db ds d' s) ∧ (ordinary e ∨ Stuck db s)

omit [DecidableEq K] [Faults ε] in
theorem stable_mayEnd {out : Except ε (α × D)} (r : Except ε α) :
    Stable (Solo I : Contract Unit (World Unit D K Ch V)) () (MayEnd ordinary db ds out r) := by
  cases r with
  | ok a =>
    rintro s s' hi hr ⟨d', hout, h⟩
    exact ⟨d', hout, stable_tracks s s' hi hr h⟩
  | error e =>
    rintro s s' hi hr ⟨⟨d', h⟩, he⟩
    exact ⟨⟨d', stable_tracks s s' hi hr h⟩, he.imp_right (stable_stuck s s' hi hr)⟩

/-- A program of statements under faults: when it answers, it answers what it means. -/
theorem Triple.of_evaluates {p : Prog ε (Cmd D K Ch V ε) α} {out : Except ε (α × D)}
    (h : Evaluates p d out) (hout : ∀ e, out = .error e → ordinary e) :
    Triple (faulty ordinary atStore) (Solo I) () (Tracks db ds d) p
      (MayEnd ordinary db ds out) := by
  have hstatement : ∀ {R : Type} {st : Stmt D K Ch ε R} {d : D} {f : R → Prog ε (Cmd D K Ch V ε) α}
      {out : Except ε (α × D)}, (∀ a, Triple (faulty ordinary atStore) (Solo I) ()
        (fun s => ∃ d', st.apply d = .ok (a, d') ∧ Tracks db ds d' s) (f a)
          (MayEnd ordinary db ds out)) →
      Triple (faulty ordinary atStore) (Solo I) () (Tracks db ds d)
        ((Prog.perform (.sql st)).bind f) (MayEnd ordinary db ds out) := by
    intro R st d f out hf
    refine Triple.bind solo_fits _ ((Triple.statement st).conseq (fun _ _ h => h) ?_) hf
    intro r s _ hs
    cases r with
    | ok a => exact hs
    | error e => exact ⟨⟨d, hs.1⟩, hs.2⟩
  induction h with
  | ret a d =>
    refine (Triple.ret (stable_mayEnd (.ok a))).conseq (fun s _ hs => ?_) fun _ _ _ h => h
    exact ⟨d, rfl, hs⟩
  | raise e d =>
    refine (Triple.raise (stable_mayEnd (.error e))).conseq (fun s _ hs => ?_) fun _ _ _ h => h
    exact ⟨⟨d, hs⟩, .inl (hout e rfl)⟩
  | sql hk hst _ ih =>
    rw [Prog.call_eq_bind hk]
    refine hstatement fun a s hi hs => ?_
    obtain ⟨d', hd', hs⟩ := hs
    cases hst.symm.trans hd'
    exact ih hout s hi hs
  | sql_error hk hst =>
    rw [Prog.call_eq_bind hk]
    refine hstatement fun a s hi hs => ?_
    obtain ⟨d', hd', -⟩ := hs
    cases hst.symm.trans hd'

/-- A savepoint command answers with `P`, or leaves no usable transaction. -/
def OrStuck {γ : Type} (db : D) (P : World Unit D K Ch V → Prop) (r : Except ε γ)
    (s : World Unit D K Ch V) : Prop :=
  match r with
  | .ok _ => P s
  | .error _ => Stuck db s

omit [DecidableEq K] [Faults ε] in
theorem stable_orStuck {P : World Unit D K Ch V → Prop} (hP : Stable (Solo I) () P)
    (r : Except ε β) : Stable (Solo I) () (OrStuck db P r) := by
  cases r with
  | ok a => exact hP
  | error e => exact stable_stuck

/-- A savepoint command in sequence with the rest. -/
theorem Triple.bind_orStuck {p : Prog ε (Cmd D K Ch V ε) Unit}
    {f : Unit → Prog ε (Cmd D K Ch V ε) α} {P M : World Unit D K Ch V → Prop}
    {Q : Except ε α → World Unit D K Ch V → Prop}
    (hp : Triple (faulty ordinary atStore) (Solo I) () P p (OrStuck db M))
    (hf : Triple (faulty ordinary atStore) (Solo I) () M (f ()) Q)
    (hstuck : ∀ e s, Stuck db s → Q (.error e) s) :
    Triple (faulty ordinary atStore) (Solo I) () P (p.bind f) Q := by
  refine Triple.bind solo_fits (fun _ => M) (hp.conseq (fun _ _ h => h) fun r s _ h => ?_)
    fun _ => hf
  cases r with
  | ok _ => exact h
  | error e => exact hstuck e s h

/-- A command about savepoints that goes wrong leaves no usable transaction. -/
theorem Fault.stuck {c : Cmd D K Ch V ε Unit}
    {s s' : World Unit D K Ch V} {r : Except ε Unit}
    (hc : c = .savepoint ∨ c = .release ∨ c = .rollbackTo) (hdb : s.db = db)
    (h : Fault ordinary atStore () c s r s') :
    (∃ e, r = .error e) ∧ s'.db = s.db ∧ Stuck db s' := by
  have hdatabase : c.isDatabase = true := by
    rcases hc with rfl | rfl | rfl <;> rfl
  cases h with
  | client he => rcases hc with hc | hc | hc <;> cases hc
  | server _ he hlost => exact ⟨⟨_, rfl⟩, rfl, .setStatus hdb⟩
  | connection _ => exact ⟨⟨_, rfl⟩, rfl, .disconnect hdb⟩
  | committed hactive => rcases hc with hc | hc | hc <;> cases hc
  | store hstore _ => exact absurd hdatabase (by rw [hstore]; decide)
  | stored hstore _ _ => exact absurd hdatabase (by rw [hstore]; decide)

/-- A savepoint remembers what the session sees. -/
theorem Triple.savepoint :
    Triple (faulty ordinary atStore) (Solo I) () (Tracks db ds d)
      (Prog.perform .savepoint : Prog ε (Cmd D K Ch V ε) Unit)
      (OrStuck db (Tracks db (d :: ds) d)) := by
  refine Triple.attempted stable_tracks (stable_orStuck stable_tracks)
    (fun s r s' hi h hexec => ?_) fun s r s' hi h hfault => ?_
  · simp only [exec, onActive] at hexec
    split at hexec <;> cases hexec
    · rename_i hst
      refine ⟨hi, h.db_eq, fun _ => ?_, fun _ => ?_⟩
      · have hview : (s.tx ()).work.write db = d := by
          rw [← h.view_eq hst, ← h.db_eq]
          rfl
        simp only [World.setTx, Function.update_self, List.map_cons,
          h.saved (by rw [hst]; decide), hview]
      · simpa [World.view, World.setTx] using h.view_eq hst
    · rename_i hst
      exact ⟨hi, h.db_eq, by rw [hst]; decide⟩
    · rename_i hst
      exact ⟨hi, h.db_eq, by rw [hst]; decide⟩
  · obtain ⟨⟨e, rfl⟩, hdb, hstuck⟩ := hfault.stuck (.inl rfl) h.db_eq
    exact ⟨show I s'.db from hdb ▸ hi, hstuck⟩

/-- A released savepoint leaves the work done since. -/
theorem Triple.release {d' : D} :
    Triple (faulty ordinary atStore) (Solo I) () (Tracks db (d' :: ds) d)
      (Prog.perform .release : Prog ε (Cmd D K Ch V ε) Unit) (OrStuck db (Tracks db ds d)) := by
  refine Triple.attempted stable_tracks (stable_orStuck stable_tracks)
    (fun s r s' hi h hexec => ?_) fun s r s' hi h hfault => ?_
  · simp only [exec, onActive] at hexec
    split at hexec <;> cases hexec
    · rename_i hst
      refine ⟨hi, h.db_eq, fun _ => ?_, fun _ => ?_⟩
      · simp only [World.setTx, Function.update_self, List.map_tail,
          h.saved (by rw [hst]; decide), List.tail_cons]
      · simpa [World.view, World.setTx] using h.view_eq hst
    · rename_i hst
      exact ⟨hi, h.db_eq, by rw [hst]; decide⟩
    · rename_i hst
      exact ⟨hi, h.db_eq, by rw [hst]; decide⟩
  · obtain ⟨⟨e, rfl⟩, hdb, hstuck⟩ := hfault.stuck (.inr (.inl rfl)) h.db_eq
    exact ⟨show I s'.db from hdb ▸ hi, hstuck⟩

/-- A rollback to a savepoint shows what it remembers, whatever failed since. -/
theorem Triple.rollbackTo {d' : D} :
    Triple (faulty ordinary atStore) (Solo I) () (Tracks db (d' :: ds) d)
      (Prog.perform .rollbackTo : Prog ε (Cmd D K Ch V ε) Unit) (OrStuck db (Tracks db ds d')) := by
  refine Triple.attempted stable_tracks (stable_orStuck stable_tracks)
    (fun s r s' hi h hexec => ?_) fun s r s' hi h hfault => ?_
  · simp only [exec] at hexec
    split at hexec <;> cases hexec
    · rename_i hst
      exact ⟨hi, h.db_eq, by rw [hst]; decide⟩
    · rename_i hlost
      have hsaved := h.saved hlost
      cases hcase : (s.tx ()).saved with
      | nil => simp [hcase] at hsaved
      | cons w ws =>
        rw [hcase, List.map_cons, List.cons.injEq] at hsaved
        simp only [execRollbackTo, hcase]
        refine ⟨hi, h.db_eq, fun _ => ?_, fun _ => ?_⟩
        · simpa [World.setTx] using hsaved.2
        · simp only [World.view, World.setTx, Function.update_self]
          show w.write s.db = d'
          rw [h.db_eq, hsaved.1]
  · obtain ⟨⟨e, rfl⟩, hdb, hstuck⟩ := hfault.stuck (.inr (.inr rfl)) h.db_eq
    exact ⟨show I s'.db from hdb ▸ hi, hstuck⟩

/-- A raise of a counter does not concern the database; what it raises is admitted. -/
theorem Triple.incr {key : String} :
    Triple (faulty ordinary atStore) (Solo I) () (Tracks db ds d)
      (Prog.perform (.incr key) : Prog ε (Cmd D K Ch V ε) Unit) fun r s =>
        Tracks db ds d s ∧ ∀ e, r = .error e → e = Faults.wrongType ∨ atStore e := by
  have hsame : ∀ {s s' : World Unit D K Ch V}, Tracks db ds d s → s'.db = s.db → s'.tx = s.tx →
      Tracks db ds d s' := by
    intro s s' h hdb htx
    refine ⟨hdb.trans h.db_eq, by rw [htx]; exact h.saved, fun hst => ?_⟩
    rw [htx] at hst
    rw [← h.view_eq hst]
    simp only [World.view, hdb, htx]
  have hincr : ∀ {s s' : World Unit D K Ch V} {r : Except ε Unit},
      exec () (.incr key) s = some (r, s') →
      s'.db = s.db ∧ s'.tx = s.tx ∧ ∀ e, r = .error e → e = Faults.wrongType := by
    intro s s' r hexec
    simp only [exec] at hexec
    split at hexec <;> cases hexec
    · exact ⟨rfl, rfl, fun e he => by cases he; rfl⟩
    · exact ⟨rfl, rfl, fun e he => by cases he⟩
  refine Triple.attempted stable_tracks (fun r => ?_) (fun s r s' hi h hexec => ?_)
    fun s r s' hi h hfault => ?_
  · rintro s s' hi hr ⟨h, he⟩
    exact ⟨stable_tracks s s' hi hr h, he⟩
  · obtain ⟨hdb, htx, he⟩ := hincr hexec
    exact ⟨show I s'.db from hdb ▸ hi, hsame h hdb htx, fun e h => .inl (he e h)⟩
  · cases hfault with
    | server hc _ _ => cases hc
    | connection hc => cases hc
    | store _ he => exact ⟨hi, h, fun e' he' => by cases he'; exact .inr he⟩
    | stored _ he hexec =>
      obtain ⟨hdb, htx, -⟩ := hincr hexec
      exact ⟨show I s'.db from hdb ▸ hi, hsame h hdb htx, fun e' he' => by cases he'; exact .inr he⟩

/-- A commit publishes what the session sees, or nothing. -/
theorem Triple.commit (hI : I d) :
    Triple (faulty ordinary atStore) (Solo I) () (Tracks db ds d)
      (Prog.perform .commit : Prog ε (Cmd D K Ch V ε) Unit) fun _ _ => True := by
  have hcommit : ∀ {s : World Unit D K Ch V}, Tracks db ds d s → (s.tx ()).status = .active →
      I (execCommit () s (s.tx ())).db := by
    intro s h hst
    rw [← h.view_eq hst] at hI
    exact hI
  refine Triple.attempted stable_tracks (fun _ _ _ _ _ _ => trivial) (fun s r s' hi h hexec => ?_)
    fun s r s' hi h hfault => ?_
  · rcases exec_commit_cases hexec with ⟨hst, -, rfl⟩ | ⟨-, -, rfl⟩ | ⟨-, -, rfl⟩
    · exact ⟨hcommit h hst, trivial⟩
    · exact ⟨hi, trivial⟩
    · exact ⟨hi, trivial⟩
  · cases hfault with
    | server _ _ _ => exact ⟨hi, trivial⟩
    | connection _ => exact ⟨hi, trivial⟩
    | committed hst => exact ⟨hcommit h hst, trivial⟩
    | store hc _ => cases hc
    | stored hc _ _ => cases hc

/-- A rollback publishes nothing. -/
theorem Triple.rollback {P : World Unit D K Ch V → Prop} (hP : Stable (Solo I) () P) :
    Triple (faulty ordinary atStore) (Solo I) () P
      (Prog.perform .rollback : Prog ε (Cmd D K Ch V ε) Unit) fun _ _ => True := by
  refine Triple.attempted hP (fun _ _ _ _ _ _ => trivial) (fun s r s' hi _ hexec => ?_)
    fun s r s' hi _ hfault => ?_
  · obtain ⟨-, rfl⟩ := exec_rollback_eq hexec
    exact ⟨hi, trivial⟩
  · cases hfault with
    | server _ _ _ => exact ⟨hi, trivial⟩
    | connection _ => exact ⟨hi, trivial⟩
    | store hc _ => cases hc
    | stored hc _ _ => cases hc

end Commands

/-! ## Restarts -/

/-- What the death of a process leaves: the committed database and the store. -/
def World.restarted (s : World Unit D K Ch V) : World Unit D K Ch V where
  db := s.db
  holder := fun _ => none
  tx := fun _ => {}
  redis := s.redis
  trace := s.trace
  prov := fun _ => []
  seen := fun _ => []

/-- The process moves on, or dies at this point and the next one starts up, at `t`. -/
inductive Boot {T : Type} (sys : System Unit ε (Cmd D K Ch V ε) (World Unit D K Ch V))
    (startup : T → Prog ε (Cmd D K Ch V ε) α) :
    Config Unit ε (Cmd D K Ch V ε) (World Unit D K Ch V) α →
      Config Unit ε (Cmd D K Ch V ε) (World Unit D K Ch V) α → Prop
  | run {p p' : Config Unit ε (Cmd D K Ch V ε) (World Unit D K Ch V) α} (h : Step sys p p') :
      Boot sys startup p p'
  | restart {p : Config Unit ε (Cmd D K Ch V ε) (World Unit D K Ch V) α} (t : T) :
      Boot sys startup p ⟨p.state.restarted, fun _ => startup t⟩

/-- The moves and deaths of any number of processes. -/
abbrev Lifetimes {T : Type} (sys : System Unit ε (Cmd D K Ch V ε) (World Unit D K Ch V))
    (startup : T → Prog ε (Cmd D K Ch V ε) α) :
    Config Unit ε (Cmd D K Ch V ε) (World Unit D K Ch V) α →
      Config Unit ε (Cmd D K Ch V ε) (World Unit D K Ch V) α → Prop :=
  Relation.ReflTransGen (Boot sys startup)

omit [DecidableEq K] [Faults ε] in
/-- Moves that are moves of the system make up a life. -/
theorem Lifetimes.of_run {T : Type}
    {sys sys' : System Unit ε (Cmd D K Ch V ε) (World Unit D K Ch V)}
    {startup : T → Prog ε (Cmd D K Ch V ε) α}
    {p p' : Config Unit ε (Cmd D K Ch V ε) (World Unit D K Ch V) α}
    (hstep : ∀ i {β : Type} (c : Cmd D K Ch V ε β) s r s', sys'.step i c s r s' →
      sys.step i c s r s')
    (henv : ∀ s s', sys'.env s s' → sys.env s s') (h : Run sys' p p') :
    Lifetimes sys startup p p' := by
  exact Relation.ReflTransGen.mono (fun _ _ hab => .run hab) _ _ (h.of_le hstep henv)

/-- Nothing has to go wrong. -/
theorem Lifetimes.of_platform {T : Type} {ordinary atStore : ε → Prop}
    {startup : T → Prog ε (Cmd D K Ch V ε) α}
    {p p' : Config Unit ε (Cmd D K Ch V ε) (World Unit D K Ch V) α} (h : Run platform p p') :
    Lifetimes (faulty ordinary atStore) startup p p' := by
  have hstep : ∀ (i : Unit) {β : Type} (c : Cmd D K Ch V ε β) (s : World Unit D K Ch V) r s',
      platform.step i c s r s' → (faulty ordinary atStore).step i c s r s' :=
    fun _ _ _ _ _ _ hs => .inl hs
  exact .of_run hstep (fun _ _ h => h) h

omit [DecidableEq K] in
theorem tracks_idle {s : World Unit D K Ch V} (hidle : s.tx () = {}) :
    Tracks s.db [] s.db s := by
  refine ⟨rfl, fun _ => by rw [hidle]; rfl, fun _ => ?_⟩
  simp only [World.view, hidle]
  rfl

/-- What the first process and every start-up keep, all of them keep. -/
theorem Lifetimes.invariant {T : Type} {ordinary atStore : ε → Prop} {I : D → Prop}
    {startup : T → Prog ε (Cmd D K Ch V ε) α} {Q : Except ε α → World Unit D K Ch V → Prop}
    {p p' : Config Unit ε (Cmd D K Ch V ε) (World Unit D K Ch V) α}
    (hstart : AllMeet (faulty ordinary atStore) (Solo I) (fun _ => Q) p)
    (hstartup : ∀ t d, I d →
      Triple (faulty ordinary atStore) (Solo I) () (Tracks d [] d) (startup t) Q)
    (h : Lifetimes (faulty ordinary atStore) startup p p') : I p'.state.db := by
  have hall : AllMeet (faulty ordinary atStore) (Solo I) (fun _ => Q) p' := by
    induction h with
    | refl => exact hstart
    | @tail b _ _ hboot ih =>
      cases hboot with
      | run hstep => exact ih.step solo_fits hstep
      | restart t =>
        have hinv : I b.state.db := ih.inv
        exact ⟨hinv, fun _ => hstartup t b.state.db hinv b.state.restarted hinv
          (tracks_idle (s := b.state.restarted) rfl)⟩
  exact hall.inv

end Vivac.Lib
