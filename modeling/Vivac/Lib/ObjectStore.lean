import Vivac.Lib.LoneSession
import Vivac.Lib.SessionKnowledge

/-!
# Sessions with an object store beside the database

A `Depot` is the world of the sessions with a store of objects under text keys. The two have no
common transaction: a command goes to one of them and takes effect there at once, so that a
program which writes both has to make good itself what it leaves half done.

What a session knows of itself is, beside `Own`, what its `head` commands have told it, the
targets of its copies and the keys of its deletions (`Stock`); `depotLogic` is the logic of it. A
pool of programs that know this much moves as `DepotStep` says.
-/

set_option autoImplicit false

namespace Vivac.Lib

variable {ι D K Ch V ε O α β : Type}

/-! ## Commands -/

/-- The commands of an object store. -/
inductive StoreCmd (O : Type) : Type → Type 1 where
  | head (key : String) : StoreCmd O (Option O)
  | copy (source target : String) : StoreCmd O Unit
  | delete (key : String) : StoreCmd O Unit
  | put (key : String) (object : O) : StoreCmd O Unit

/-- A command of a session, or one of the object store. -/
inductive DepotCmd (D K Ch V ε O : Type) : Type → Type 1 where
  | base {β : Type} (c : Cmd D K Ch V ε β) : DepotCmd D K Ch V ε O β
  | store {β : Type} (c : StoreCmd O β) : DepotCmd D K Ch V ε O β

/-- The error of a copy of nothing. -/
class StoreFaults (ε : Type) where
  noSuchKey : ε

/-- The program with other commands. -/
def Prog.via {C C' : Type → Type 1} (f : ∀ {β : Type}, C β → C' β) :
    Prog ε C α → Prog ε C' α
  | .ret a => .ret a
  | .raise e => .raise e
  | .call c k => .call (f c) fun r => (k r).via f

theorem Prog.via_bind {C C' : Type → Type 1} (f : ∀ {β : Type}, C β → C' β) (p : Prog ε C α)
    (k : α → Prog ε C β) : (p.bind k).via f = (p.via f).bind fun a => (k a).via f := by
  induction p with
  | ret a => rfl
  | raise e => rfl
  | call c k' ih =>
      simp only [Prog.bind_call, Prog.via]
      exact congrArg (Prog.call (f c)) (funext ih)

/-! ## The two stores -/

/-- The sessions' world and the objects, with three histories: what each session was told of its
`head` commands, the targets of its copies, and the keys of its deletions; latest first. -/
structure Depot (ι D K Ch V O : Type) where
  world : World ι D K Ch V
  objects : String → Option O
  heads : ι → List (Option O) := fun _ => []
  copied : ι → List String := fun _ => []
  dropped : ι → List String := fun _ => []

namespace Depot

variable (s : Depot ι D K Ch V O)

/-- The object under a key, or nothing there. -/
def place (key : String) (object : Option O) : Depot ι D K Ch V O :=
  { s with objects := Function.update s.objects key object }

/-- Only the sessions have moved. -/
def inWorld (w : World ι D K Ch V) : Depot ι D K Ch V O := { s with world := w }

variable [DecidableEq ι]

/-- Session `i` has been told of an object. -/
def told (i : ι) (answer : Option O) : Depot ι D K Ch V O :=
  { s with heads := Function.update s.heads i (answer :: s.heads i) }

/-- Session `i` has made a copy. -/
def tookCopy (i : ι) (target : String) : Depot ι D K Ch V O :=
  { s with copied := Function.update s.copied i (target :: s.copied i) }

/-- Session `i` has deleted an object, if there was one. -/
def tookAway (i : ι) (key : String) : Depot ι D K Ch V O :=
  { s with dropped := Function.update s.dropped i (key :: s.dropped i) }

end Depot

section Exec

variable [DecidableEq ι] [DecidableEq K] [Faults ε] [StoreFaults ε]

/-- A command of the object store. -/
def execStore (i : ι) {β : Type} (c : StoreCmd O β) (s : Depot ι D K Ch V O) :
    Except ε β × Depot ι D K Ch V O :=
  match c with
  | .head key => (.ok (s.objects key), s.told i (s.objects key))
  | .copy source target =>
    match s.objects source with
    | some object => (.ok (), (s.place target (some object)).tookCopy i target)
    | none => (.error StoreFaults.noSuchKey, s)
  | .delete key => (.ok (), (s.place key none).tookAway i key)
  | .put key object => (.ok (), s.place key (some object))

/-- The meaning of a command of session `i`. -/
def execDepot (i : ι) {β : Type} (c : DepotCmd D K Ch V ε O β) (s : Depot ι D K Ch V O) :
    Option (Except ε β × Depot ι D K Ch V O) :=
  match c with
  | .base c => (exec i c s.world).map fun out => (out.1, s.inWorld out.2)
  | .store c => some (execStore i c s)

/-- What the environment does by itself, it does to the sessions. -/
def DepotEnv (s s' : Depot ι D K Ch V O) : Prop := ∃ w, Env s.world w ∧ s' = s.inWorld w

/-- A condition on the commands that sessions issue, in the state before. -/
abbrev CommandGuard (ι D K Ch V ε O : Type) : Type 1 :=
  ι → ∀ {β : Type}, DepotCmd D K Ch V ε O β → Depot ι D K Ch V O → Prop

/-- A condition on copies and on commits. -/
def CommandGuard.of (atCopy : ι → String → Depot ι D K Ch V O → Prop)
    (atCommit : ι → Depot ι D K Ch V O → Prop) : CommandGuard ι D K Ch V ε O
  | i, _, .store (.copy source _), s => atCopy i source s
  | i, _, .base .commit, s => atCommit i s
  | _, _, _, _ => True

instance decidableCommandGuardOf (atCopy : ι → String → Depot ι D K Ch V O → Prop)
    (atCommit : ι → Depot ι D K Ch V O → Prop)
    [hcopy : ∀ i source s, Decidable (atCopy i source s)]
    [hcommit : ∀ i s, Decidable (atCommit i s)] (i : ι) :
    ∀ (β : Type) (c : DepotCmd D K Ch V ε O β) (s : Depot ι D K Ch V O),
      Decidable (CommandGuard.of atCopy atCommit i c s)
  | _, .store (.copy source _), s => hcopy i source s
  | _, .base .commit, s => hcommit i s
  | _, .store (.head _), _ => .isTrue trivial
  | _, .store (.delete _), _ => .isTrue trivial
  | _, .store (.put _ _), _ => .isTrue trivial
  | _, .base (.sql _), _ => .isTrue trivial
  | _, .base .rollback, _ => .isTrue trivial
  | _, .base .savepoint, _ => .isTrue trivial
  | _, .base .release, _ => .isTrue trivial
  | _, .base .rollbackTo, _ => .isTrue trivial
  | _, .base (.get _), _ => .isTrue trivial
  | _, .base (.set _ _), _ => .isTrue trivial
  | _, .base (.incr _), _ => .isTrue trivial

/-- The sessions with the object store, whose commands meet `ok`. -/
def depot (ok : CommandGuard ι D K Ch V ε O) :
    System ι ε (DepotCmd D K Ch V ε O) (Depot ι D K Ch V O) where
  step i _ c s r s' := ok i c s ∧ execDepot i c s = some (r, s')
  env := DepotEnv

omit [DecidableEq K] [Faults ε] [StoreFaults ε] in
/-- By itself a program of the sessions leaves the objects alone. -/
theorem runAlone_base [DecidableEq K] [Faults ε] [StoreFaults ε] (i : ι)
    (p : Prog ε (Cmd D K Ch V ε) α) (s : Depot ι D K Ch V O) :
    runAlone (fun i => execDepot i) i (p.via .base) s =
      (runAlone (fun i => exec i) i p s.world).map fun out => (out.1, s.inWorld out.2) := by
  induction p generalizing s with
  | ret a => rfl
  | raise e => rfl
  | call c k ih =>
      simp only [Prog.via, runAlone, execDepot]
      cases exec i c s.world with
      | none => rfl
      | some out => exact ih out.1 (s.inWorld out.2)

theorem Alone.base {i : ι} {P : World ι D K Ch V → Prop} {p : Prog ε (Cmd D K Ch V ε) α}
    {Q : Except ε α → World ι D K Ch V → Prop} (h : Lone i P p Q) (objects : String → Option O) :
    Alone (fun i => execDepot i) i (fun s : Depot ι D K Ch V O => P s.world ∧ s.objects = objects)
      (p.via .base) fun r s => Q r s.world ∧ s.objects = objects := by
  rintro s ⟨hs, hobjects⟩
  obtain ⟨r, w, hrun, hq⟩ := h s.world hs
  refine ⟨r, s.inWorld w, ?_, hq, hobjects⟩
  rw [runAlone_base, hrun]
  rfl

end Exec

/-! ## What a session knows of itself -/

/-- What a session knows of itself beside a store of objects. -/
structure Stock (D K Ch O : Type) where
  own : Own D K Ch := {}
  heads : List (Option O) := []
  copied : List String := []
  dropped : List String := []

/-- The terms of a pool: the condition on its commands, what a session knows of the work that it
commits, and what it knows at the commands that it issues to the store. -/
structure DepotTerms (ι D K Ch V ε O : Type) where
  ok : CommandGuard ι D K Ch V ε O
  commits : ι → Work D K Ch → Stock D K Ch O → Prop
  issues : ι → Stock D K Ch O → ∀ {β : Type}, StoreCmd O β → Prop

section Logic

variable [DecidableEq ι] [DecidableEq K] [Faults ε] [StoreFaults ε]
  (T : DepotTerms ι D K Ch V ε O)

/-- What holds of the work at a commit, with what is known of the store. -/
def DepotTerms.fact (i : ι) (o : Stock D K Ch O) : CommitFact D K Ch :=
  fun w seen commits => T.commits i w { o with own := ⟨some w, seen, commits⟩ }

/-- What holds after a command, for every answer it may give. -/
def DepotTerms.Post (i : ι) : ∀ {β : Type}, DepotCmd D K Ch V ε O β → Stock D K Ch O →
    (Except ε β → Stock D K Ch O → Prop) → Prop
  | _, .base c, o, P =>
    c.Result True (fun _ _ _ => True) (T.fact i o) o.own fun r own => P r { o with own := own }
  | _, .store (.head key), o, P => T.issues i o (StoreCmd.head key : StoreCmd O (Option O)) ∧
    ∀ a, P (.ok a) { o with heads := a :: o.heads }
  | _, .store (.copy source target), o, P =>
    T.issues i o (StoreCmd.copy source target : StoreCmd O Unit) ∧
    P (.ok ()) { o with copied := target :: o.copied } ∧ P (.error StoreFaults.noSuchKey) o
  | _, .store (.delete key), o, P => T.issues i o (StoreCmd.delete key : StoreCmd O Unit) ∧
    P (.ok ()) { o with dropped := key :: o.dropped }
  | _, .store (.put key object), o, P => T.issues i o (StoreCmd.put key object) ∧ P (.ok ()) o

/-- `o` is what session `i` knows of itself. -/
structure Stock.Of (o : Stock D K Ch O) (i : ι) (s : Depot ι D K Ch V O) : Prop where
  own : o.own.Of i s.world
  heads : s.heads i = o.heads
  copied : s.copied i = o.copied
  dropped : s.dropped i = o.dropped

/-- What the others do to a session. -/
structure Untouched (i : ι) (s s' : Depot ι D K Ch V O) : Prop where
  world : Undisturbed i s.world s'.world
  heads : s'.heads i = s.heads i
  copied : s'.copied i = s.copied i
  dropped : s'.dropped i = s.dropped i

variable {T} {i j : ι} {s s' : Depot ι D K Ch V O} {o : Stock D K Ch O}

omit [DecidableEq K] [Faults ε] [StoreFaults ε] in
theorem Stock.Of.untouched (h : o.Of i s) (hs : Untouched i s s') : o.Of i s' :=
  ⟨h.own.undisturbed hs.world, hs.heads.trans h.heads, hs.copied.trans h.copied,
    hs.dropped.trans h.dropped⟩

omit [DecidableEq ι] [DecidableEq K] in
theorem DepotTerms.Post.mono {c : DepotCmd D K Ch V ε O β} {P P' : Except ε β →
    Stock D K Ch O → Prop}
    (h : T.Post i c o P) (hP : ∀ r o, P r o → P' r o) : T.Post i c o P' := by
  cases c with
  | base c =>
      have hresult : c.Result True (fun _ _ _ => True) (T.fact i o) o.own
          fun r own => P r { o with own := own } := h
      exact hresult.mono fun r own => hP r _
  | store c =>
      cases c with
      | head key => exact ⟨h.1, fun a => hP _ _ (h.2 a)⟩
      | copy source target => exact ⟨h.1, hP _ _ h.2.1, hP _ _ h.2.2⟩
      | delete key => exact ⟨h.1, hP _ _ h.2⟩
      | put key object => exact ⟨h.1, hP _ _ h.2⟩

/-- A command leaves the other sessions as they are. -/
theorem execDepot_untouched {c : DepotCmd D K Ch V ε O β} {r : Except ε β}
    (h : execDepot i c s = some (r, s')) (hj : j ≠ i) : Untouched j s s' := by
  cases c with
  | base c =>
      obtain ⟨⟨r', w⟩, hexec, hs⟩ := Option.map_eq_some_iff.1 h
      cases hs
      exact ⟨exec_undisturbed hj hexec, rfl, rfl, rfl⟩
  | store c =>
      have hs : execStore i c s = (r, s') := Option.some.inj h
      cases c with
      | head key =>
          cases hs
          exact ⟨.refl j _, Function.update_of_ne hj _ _, rfl, rfl⟩
      | copy source target =>
          simp only [execStore] at hs
          split at hs
          · cases hs
            exact ⟨.refl j _, rfl, Function.update_of_ne hj _ _, rfl⟩
          · cases hs
            exact ⟨.refl j _, rfl, rfl, rfl⟩
      | delete key =>
          cases hs
          exact ⟨.refl j _, rfl, rfl, Function.update_of_ne hj _ _⟩
      | put key object =>
          cases hs
          exact ⟨.refl j _, rfl, rfl, rfl⟩

/-- One command of a session takes its knowledge to what is said of it. -/
theorem DepotTerms.Post.exec {c : DepotCmd D K Ch V ε O β} {P : Except ε β → Stock D K Ch O → Prop}
    {r : Except ε β} (h : T.Post i c o P) (ho : o.Of i s)
    (hexec : execDepot i c s = some (r, s')) : ∃ o' : Stock D K Ch O, o'.Of i s' ∧ P r o' := by
  cases c with
  | base c =>
      obtain ⟨⟨r', w⟩, hrun, hs⟩ := Option.map_eq_some_iff.1 hexec
      cases hs
      have hresult : c.Result True (fun _ _ _ => True) ((fun j => T.fact j o) i) o.own
          fun r own => P r { o with own := own } := h
      obtain ⟨-, own, hown, hP⟩ := Cmd.Result.exec (F := fun j => T.fact j o)
        hresult ho.own (fun _ => trivial) trivial hrun
      exact ⟨{ o with own := own }, ⟨hown, ho.heads, ho.copied, ho.dropped⟩, hP⟩
  | store c =>
      have hs : execStore i c s = (r, s') := Option.some.inj hexec
      cases c with
      | head key =>
          cases hs
          refine ⟨{ o with heads := s.objects key :: o.heads },
            ⟨ho.own, ?_, ho.copied, ho.dropped⟩, h.2 (s.objects key)⟩
          show Function.update s.heads i _ i = _
          rw [Function.update_self, ho.heads]
      | copy source target =>
          simp only [execStore] at hs
          split at hs
          · cases hs
            refine ⟨{ o with copied := target :: o.copied },
              ⟨ho.own, ho.heads, ?_, ho.dropped⟩, h.2.1⟩
            show Function.update s.copied i (target :: s.copied i) i = _
            rw [Function.update_self, ho.copied]
          · cases hs
            exact ⟨o, ho, h.2.2⟩
      | delete key =>
          cases hs
          refine ⟨{ o with dropped := key :: o.dropped }, ⟨ho.own, ho.heads, ho.copied, ?_⟩, h.2⟩
          show Function.update s.dropped i (key :: s.dropped i) i = _
          rw [Function.update_self, ho.dropped]
      | put key object =>
          cases hs
          exact ⟨o, ⟨ho.own, ho.heads, ho.copied, ho.dropped⟩, h.2⟩

/-- A session that has ended is left as it is. -/
theorem Step.untouched_of_ended {ok : CommandGuard ι D K Ch V ε O}
    {c c' : Config ι ε (DepotCmd D K Ch V ε O) (Depot ι D K Ch V O) α} (h : Step (depot ok) c c')
    {r : Except ε α} (hended : (c.thread j).outcome = some r) :
    c'.thread j = c.thread j ∧ Untouched j c.state c'.state := by
  cases h with
  | thread i cmd k r' hcall hs =>
      have hj : j ≠ i := by
        rintro rfl
        rw [hcall] at hended
        cases hended
      exact ⟨Function.update_of_ne hj _ _, execDepot_untouched hs.2 hj⟩
  | env henv =>
      obtain ⟨w, henv, hs⟩ := henv
      subst hs
      exact ⟨rfl, henv.undisturbed j, rfl, rfl, rfl⟩

/-- A session promises nothing but to leave the others alone. -/
def depotContract : Contract ι (Depot ι D K Ch V O) where
  Inv _ := True
  R := Untouched
  G i s s' := ∀ j, j ≠ i → Untouched j s s'

omit [DecidableEq K] in
theorem depotContract_fits [DecidableEq K] {ok : CommandGuard ι D K Ch V ε O} :
    (depotContract (ι := ι)).Fits (depot ok) where
  rely_refl i s := ⟨.refl i _, rfl, rfl, rfl⟩
  rely_trans _ _ _ _ hab hbc :=
    ⟨hab.world.trans hbc.world, hbc.heads.trans hab.heads, hbc.copied.trans hab.copied,
      hbc.dropped.trans hab.dropped⟩
  guar_rely hij _ _ _ hg := hg _ (Ne.symm hij)
  env_inv _ _ := trivial
  env_rely j s s' h _ := by
    obtain ⟨w, henv, rfl⟩ := h
    exact ⟨henv.undisturbed j, rfl, rfl, rfl⟩

variable (T) in
/-- The logic of what sessions know of themselves beside a store of objects. -/
def depotLogic : KnowledgeLogic (depot T.ok) (Stock D K Ch O) where
  con := depotContract
  fits := depotContract_fits
  Of i o s := o.Of i s
  stable hr ho := ho.untouched hr
  Post i _ c o P := T.Post i c o P
  mono h hP := h.mono hP
  sound h _ ho hstep :=
    ⟨trivial, fun _ hj => execDepot_untouched hstep.2 hj, h.exec ho hstep.2⟩

/-! ## Rules -/

section Rules

variable {Q : Except ε α → Stock D K Ch O → Prop}

/-- The logic of the sessions by themselves, with what is known of the store beside. -/
abbrev baseLogic (T : DepotTerms ι D K Ch V ε O) (o : Stock D K Ch O) :
    KnowledgeLogic (sessions fun _ _ _ => True : System ι ε (Cmd D K Ch V ε) (World ι D K Ch V))
      (Own D K Ch) :=
  sessionLogic (attended_sessions fun _ _ _ => True) (fun _ _ _ _ => True)
    (fun _ _ _ _ => trivial) fun i => T.fact i o

/-- A program of a session is in the depot what it is by itself. -/
theorem Knows.base {p : Prog ε (Cmd D K Ch V ε) α}
    (h : Knows (baseLogic T o) i (fun r own => Q r { o with own := own }) p o.own) :
    Knows (depotLogic T) i Q (p.via .base) o := by
  induction p generalizing o with
  | ret a => exact h
  | raise e => exact h
  | call c k ih =>
      have hresult : c.Result True (fun _ _ _ => True) (T.fact i o) o.own
          fun r own => Knows (baseLogic T o) i (fun r own => Q r { o with own := own }) (k r) own :=
            h
      exact hresult.mono fun r own hrest => ih r hrest

end Rules

/-! ## Pools -/

/-- What session `i` knows of itself at a commit of its work. -/
def Depot.stock (s : Depot ι D K Ch V O) (i : ι) : Stock D K Ch O :=
  ⟨⟨some (s.world.tx i).work, s.world.seen i, s.world.commits i⟩, s.heads i,
    s.copied i, s.dropped i⟩

/-- What one step of a pool does to the committed database and to the objects. -/
inductive DepotStep (T : DepotTerms ι D K Ch V ε O) (s s' : Depot ι D K Ch V O) : Prop
  | quiet (w : World ι D K Ch V) (hs : s' = s.inWorld w) (hdb : w.db = s.world.db)
      (hcommits : w.commits = s.world.commits)
  | commit (i : ι) (w : World ι D K Ch V) (hs : s' = s.inWorld w)
      (hok : T.ok i (.base .commit) s) (hfact : T.commits i (s.world.tx i).work (s.stock i))
      (hdb : w.db = (s.world.tx i).work.write s.world.db)
      (hcommits : w.commits = Function.update s.world.commits i
        (s.world.commits i ++ [(s.world.tx i).work.changes]))
  | head (i : ι) (key : String) (o : Stock D K Ch O) (ho : o.Of i s)
      (hissues : T.issues i o (StoreCmd.head key : StoreCmd O (Option O)))
      (hok : T.ok i (.store (.head key)) s) (hs : s' = s.told i (s.objects key))
  | copy (i : ι) (source target : String) (object : O) (o : Stock D K Ch O) (ho : o.Of i s)
      (hissues : T.issues i o (StoreCmd.copy source target : StoreCmd O Unit))
      (hok : T.ok i (.store (.copy source target)) s) (hobject : s.objects source = some object)
      (hs : s' = (s.place target (some object)).tookCopy i target)
  | delete (i : ι) (key : String) (hs : s' = (s.place key none).tookAway i key)
  | put (i : ι) (key : String) (object : O) (o : Stock D K Ch O) (ho : o.Of i s)
      (hissues : T.issues i o (.put key object)) (hok : T.ok i (.store (.put key object)) s)
      (hs : s' = s.place key (some object))

/-- A command of the sessions, in a pool whose session knows what it commits. -/
theorem DepotStep.of_base {c : Cmd D K Ch V ε β} {P : Except ε β → Stock D K Ch O → Prop}
    {r : Except ε β} {w : World ι D K Ch V} (hpost : T.Post i (.base c) o P) (ho : o.Of i s)
    (hok : T.ok i (.base c) s) (hexec : exec i c s.world = some (r, w)) :
    DepotStep T s (s.inWorld w) := by
  have hothers : ∀ j, j ≠ i → w.commits j = s.world.commits j := fun j hj =>
    (exec_undisturbed hj hexec).commits
  -- a command that commits nothing asks nothing of what is committed
  have hquiet : c.Result True (fun _ _ _ => True) (fun _ _ _ => False) o.own
      (fun r own => P r { o with own := own }) → DepotStep T s (s.inWorld w) := by
    intro hresult
    obtain ⟨hstep, -⟩ := Cmd.Result.exec (F := fun _ _ _ _ => False) hresult ho.own
      (fun _ => trivial) trivial hexec
    have hpool : PoolStep (fun _ _ _ _ => False) (fun _ _ _ => True) s.world w :=
      hstep.poolStep trivial hothers
    cases hpool with
    | quiet hdb hcommits => exact .quiet w rfl hdb hcommits
    | commit j hfact => exact hfact.elim
  cases c with
  | commit =>
      have hresult : (Cmd.commit : Cmd D K Ch V ε Unit).Result True (fun _ _ _ => True)
          ((fun j => T.fact j o) i) o.own fun r own => P r { o with own := own } := hpost
      obtain ⟨hstep, -⟩ := hresult.exec_commit (F := fun j => T.fact j o) ho.own
        (fun _ => trivial) hexec
      cases hstep with
      | quiet hdb hcommits =>
          refine .quiet w rfl hdb (funext fun j => ?_)
          by_cases hj : j = i
          · rw [hj, hcommits]
          · exact hothers j hj
      | commit hfact hdb hcommits =>
          refine .commit i w rfl hok ?_ hdb (funext fun j => ?_)
          · have hstock : s.stock i = { o with own := ⟨some (s.world.tx i).work, s.world.seen i,
                s.world.commits i⟩ } := by
              rw [Depot.stock, ho.heads, ho.copied, ho.dropped]
            rw [hstock]
            exact hfact
          · by_cases hj : j = i
            · rw [hj, hcommits, Function.update_self]
            · rw [Function.update_of_ne hj]
              exact hothers j hj
  | sql st => exact hquiet hpost
  | rollback => exact hquiet hpost
  | savepoint => exact hquiet hpost
  | release => exact hquiet hpost
  | rollbackTo => exact hquiet hpost
  | get key => exact hquiet hpost
  | set key v => exact hquiet hpost
  | incr key => exact hquiet hpost

omit [DecidableEq K] in
/-- A command of the object store. -/
theorem DepotStep.of_store {c : StoreCmd O β} {P : Except ε β → Stock D K Ch O → Prop}
    {r : Except ε β} (hpost : T.Post i (.store c) o P) (ho : o.Of i s) (hok : T.ok i (.store c) s)
    (hexec : (execStore i c s : Except ε β × Depot ι D K Ch V O) = (r, s')) :
    DepotStep T s s' := by
  cases c with
  | head key =>
      cases hexec
      exact .head i key o ho hpost.1 hok rfl
  | copy source target =>
      simp only [execStore] at hexec
      split at hexec
      · rename_i object hobject
        cases hexec
        exact .copy i source target object o ho hpost.1 hok hobject rfl
      · cases hexec
        exact .quiet s.world rfl rfl rfl
  | delete key =>
      cases hexec
      exact .delete i key rfl
  | put key object =>
      cases hexec
      exact .put i key object o ho hpost.1 hok rfl

section Pools

variable {Q : ι → Except ε α → Stock D K Ch O → Prop}
  {c c' : Config ι ε (DepotCmd D K Ch V ε O) (Depot ι D K Ch V O) α}

theorem AllAware.depotStep (h : AllAware (depotLogic T) Q c) (hstep : Step (depot T.ok) c c') :
    DepotStep T c.state c'.state := by
  cases hstep with
  | thread i cmd k r hcall hs =>
      obtain ⟨o, ho, hpost⟩ := h.next hcall
      obtain ⟨hok, hexec⟩ := hs
      cases cmd with
      | base cmd =>
          obtain ⟨⟨r', w⟩, hrun, hs⟩ := Option.map_eq_some_iff.1 hexec
          cases hs
          exact .of_base hpost ho hok hrun
      | store cmd => exact .of_store hpost ho hok (Option.some.inj hexec)
  | env henv =>
      obtain ⟨w, henv, hs⟩ := henv
      exact .quiet w hs henv.db_eq (funext fun j => henv.commits_eq)

/-- A property that the steps of the pool keep. -/
theorem AllAware.induct {J : Depot ι D K Ch V O → Prop} (h : AllAware (depotLogic T) Q c)
    (hJ : ∀ s s', DepotStep T s s' → J s → J s') (hrun : Run (depot T.ok) c c') (hc : J c.state) :
    J c'.state := by
  induction hrun with
  | refl => exact hc
  | tail hrun hstep ih => exact hJ _ _ ((h.run hrun).depotStep hstep) ih

/-- A pool at its start: the sessions are idle, and nobody has used the store. -/
structure Unused (s : Depot ι D K Ch V O) : Prop where
  idle : Idle s.world
  heads : ∀ i, s.heads i = []
  copied : ∀ i, s.copied i = []
  dropped : ∀ i, s.dropped i = []

theorem AllAware.of_unused (hunused : Unused c.state)
    (h : ∀ i, Knows (depotLogic T) i (Q i) (c.thread i) {}) : AllAware (depotLogic T) Q c :=
  AllAware.start trivial
    (fun i => ⟨hunused.idle.of i, hunused.heads i, hunused.copied i, hunused.dropped i⟩) h

end Pools

/-! ## Computed runs -/

section Computed

variable {ok : CommandGuard ι D K Ch V ε O}
  [∀ (i : ι) (β : Type) (c : DepotCmd D K Ch V ε O β) (s : Depot ι D K Ch V O),
    Decidable (ok i c s)]

variable (ok) in
/-- A command, if it meets the condition. -/
def execAdmitted (i : ι) {β : Type} (c : DepotCmd D K Ch V ε O β) (s : Depot ι D K Ch V O) :
    Option (Except ε β × Depot ι D K Ch V O) :=
  if ok i c s then execDepot i c s else none

/-- A computed step of a command that meets the condition. -/
theorem Step.of_admitted {c c' : Config ι ε (DepotCmd D K Ch V ε O) (Depot ι D K Ch V O) α}
    (h : Step (.ofExec (fun i => execAdmitted ok i) DepotEnv) c c') : Step (depot ok) c c' := by
  cases h with
  | @thread s' i β cmd k r hcall hs =>
      have hexec : execAdmitted ok i cmd c.state = some (r, s') := hs
      unfold execAdmitted at hexec
      split at hexec
      · rename_i hok
        exact .thread i cmd k r hcall ⟨hok, hexec⟩
      · cases hexec
  | env henv => exact .env henv

theorem Run.of_admitted {c c' : Config ι ε (DepotCmd D K Ch V ε O) (Depot ι D K Ch V O) α}
    (h : Run (.ofExec (fun i => execAdmitted ok i) DepotEnv) c c') : Run (depot ok) c c' :=
  Relation.ReflTransGen.mono (fun _ _ => Step.of_admitted) _ _ h

/-- A computed run is a run under a condition that always holds. -/
theorem Run.of_depot {c c' : Config ι ε (DepotCmd D K Ch V ε O) (Depot ι D K Ch V O) α}
    (h : Run (.ofExec (fun i => execDepot i) DepotEnv) c c') :
    Run (depot fun _ _ _ _ => True) c c' := by
  refine Relation.ReflTransGen.mono (fun a b hab => ?_) _ _ h
  cases hab with
  | thread i cmd k r hcall hs => exact .thread i cmd k r hcall ⟨trivial, hs⟩
  | env henv => exact .env henv

end Computed

end Logic

end Vivac.Lib
