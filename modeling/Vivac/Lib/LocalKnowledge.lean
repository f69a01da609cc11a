import Vivac.Lib.RelyGuarantee

/-!
# Programs and what their thread knows of itself

A `KnowledgeLogic` says for a system what one thread knows of itself whatever the others do
(`Of`), and what it knows after each command (`Post`). `Knows L i Q p o`: thread `i`, started
with the knowledge `o`, ends its program `p` as `Q` says.

It is a property of the program alone, with a rule for each construct; the logic is sound, so it
is met in every run of a pool (`Knows.meets`).
-/

set_option autoImplicit false

namespace Vivac.Lib

variable {ι ε : Type} {C : Type → Type 1} {S κ α β : Type}

/-- What a thread knows of itself: nothing the others do makes it wrong, and a command takes it
from what it was to what `Post` says. -/
structure KnowledgeLogic (sys : System ι ε C S) (κ : Type) where
  con : Contract ι S
  fits : con.Fits sys
  Of : ι → κ → S → Prop
  stable : ∀ {i : ι} {o : κ} {s s' : S}, con.R i s s' → Of i o s → Of i o s'
  Post : ι → ∀ {β : Type}, C β → κ → (Except ε β → κ → Prop) → Prop
  mono : ∀ {i : ι} {β : Type} {c : C β} {o : κ} {P P' : Except ε β → κ → Prop},
    Post i c o P → (∀ r o, P r o → P' r o) → Post i c o P'
  sound : ∀ {i : ι} {β : Type} {c : C β} {o : κ} {P : Except ε β → κ → Prop} {s s' : S}
    {r : Except ε β}, Post i c o P → con.Inv s → Of i o s → sys.step i c s r s' →
    con.Inv s' ∧ con.G i s s' ∧ ∃ o', Of i o' s' ∧ P r o'

variable {sys : System ι ε C S} (L : KnowledgeLogic sys κ) (i : ι)

/-- What the thread knows at the end of the program is as `Q` says. -/
def Knows (Q : Except ε α → κ → Prop) : Prog ε C α → κ → Prop
  | .ret a, o => Q (.ok a) o
  | .raise e, o => Q (.error e) o
  | .call c k, o => L.Post i c o fun r o' => Knows Q (k r) o'

variable {L i} {o : κ}

section Rules

theorem Knows.mono {Q Q' : Except ε α → κ → Prop} {p : Prog ε C α} (h : Knows L i Q p o)
    (hQ : ∀ r o, Q r o → Q' r o) : Knows L i Q' p o := by
  induction p generalizing o with
  | ret a => exact hQ _ _ h
  | raise e => exact hQ _ _ h
  | call c k ih => exact L.mono h fun r o' h' => ih r h'

theorem Knows.bind {Q : Except ε β → κ → Prop} {p : Prog ε C α} {f : α → Prog ε C β}
    (h : Knows L i (fun r o => match r with
      | .ok a => Knows L i Q (f a) o
      | .error e => Q (.error e) o) p o) : Knows L i Q (p.bind f) o := by
  induction p generalizing o with
  | ret a => exact h
  | raise e => exact h
  | call c k ih => exact L.mono h fun r o' h' => ih r h'

theorem Knows.attempt {Q : Except ε (Except ε α) → κ → Prop} {p : Prog ε C α}
    (h : Knows L i (fun r => Q (.ok r)) p o) : Knows L i Q p.attempt o := by
  induction p generalizing o with
  | ret a => exact h
  | raise e => exact h
  | call c k ih => exact L.mono h fun r o' h' => ih r h'

/-- A program whose outcome, whatever it is, the rest goes on from. -/
theorem Knows.attempt_bind {Q : Except ε β → κ → Prop} {p : Prog ε C α}
    {f : Except ε α → Prog ε C β} (h : Knows L i (fun r o => Knows L i Q (f r) o) p o) :
    Knows L i Q (p.attempt.bind f) o := by
  apply Knows.bind
  apply Knows.attempt
  exact h

theorem Knows.tryCatch {Q : Except ε α → κ → Prop} {p : Prog ε C α} {handler : ε → Prog ε C α}
    (h : Knows L i (fun r o => match r with
      | .ok a => Q (.ok a) o
      | .error e => Knows L i Q (handler e) o) p o) : Knows L i Q (p.tryCatch handler) o := by
  apply Knows.attempt_bind
  refine h.mono fun r o' h' => ?_
  cases r with
  | ok a => exact h'
  | error e => exact h'

theorem Knows.ofExcept {Q : Except ε α → κ → Prop} {r : Except ε α} (h : Q r o) :
    Knows L i Q (Prog.ofExcept r) o := by
  cases r with
  | ok a => exact h
  | error e => exact h

/-- What every command of the program keeps. -/
theorem Knows.of_uses {ok : ∀ {β : Type}, C β → Prop} {P : κ → Prop}
    (hcmd : ∀ {β : Type} (c : C β) o, ok c → P o → L.Post i c o fun _ => P) {p : Prog ε C α}
    (hp : p.Uses ok) (ho : P o) : Knows L i (fun _ => P) p o := by
  induction p generalizing o with
  | ret a => exact ho
  | raise e => exact ho
  | call c k ih => exact L.mono (hcmd c o hp.1 ho) fun r o' h => ih r (hp.2 r) h

end Rules

/-- What a thread knows holds among the others. -/
theorem Knows.meets {Q : Except ε α → κ → Prop} {p : Prog ε C α} {s : S} (h : Knows L i Q p o)
    (ho : L.Of i o s) :
    Meets sys L.con i (fun r s => ∃ o', L.Of i o' s ∧ Q r o') p s := by
  induction p generalizing o s with
  | ret a => exact fun s' _ hr => ⟨o, L.stable hr ho, h⟩
  | raise e => exact fun s' _ hr => ⟨o, L.stable hr ho, h⟩
  | call c k ih =>
      intro s₁ hi hr r s₂ hstep
      obtain ⟨hinv, hg, o', ho', hrest⟩ := L.sound h hi (L.stable hr ho) hstep
      exact ⟨hinv, hg, ih r hrest ho'⟩

/-! ## Pools -/

variable {Q : ι → Except ε α → κ → Prop} {c c' : Config ι ε C S α}

/-- Every thread of the pool ends with what `Q` says. -/
abbrev AllKnow (L : KnowledgeLogic sys κ) (Q : ι → Except ε α → κ → Prop)
    (c : Config ι ε C S α) : Prop :=
  AllMeet sys L.con (fun i r s => ∃ o, L.Of i o s ∧ Q i r o) c

theorem AllKnow.start (hinv : L.con.Inv c.state) {o : ι → κ} (ho : ∀ i, L.Of i (o i) c.state)
    (h : ∀ i, Knows L i (Q i) (c.thread i) (o i)) : AllKnow L Q c :=
  ⟨hinv, fun i => (h i).meets (ho i)⟩

theorem AllKnow.run [DecidableEq ι] (h : AllKnow L Q c) (hrun : Run sys c c') : AllKnow L Q c' :=
  Run.allMeet L.fits hrun h

/-- A step of the pool is one thread's, within its guarantee, or one of the environment. -/
theorem AllKnow.step [DecidableEq ι] (h : AllKnow L Q c) (hstep : Step sys c c') :
    (∃ i, L.con.G i c.state c'.state) ∨ sys.env c.state c'.state := by
  cases hstep with
  | thread i cmd k r hcall hs =>
      have hi := h.meets i
      rw [hcall] at hi
      obtain ⟨-, hg, -⟩ := hi _ h.inv (L.fits.rely_refl i _) r _ hs
      exact .inl ⟨i, hg⟩
  | env henv => exact .inr henv

/-- What a thread knows when it has ended. -/
theorem AllKnow.ended (h : AllKnow L Q c) {r : Except ε α}
    (hended : (c.thread i).outcome = some r) : ∃ o, L.Of i o c.state ∧ Q i r o := by
  have hi := h.meets i
  rw [Prog.outcome_eq_some.1 hended] at hi
  cases r with
  | ok a => exact hi _ h.inv (L.fits.rely_refl i _)
  | error e => exact hi _ h.inv (L.fits.rely_refl i _)

/-! ## Pools of which each command is known -/

/-- Every thread of the pool knows enough of itself to end with what `Q` says. -/
structure AllAware (L : KnowledgeLogic sys κ) (Q : ι → Except ε α → κ → Prop)
    (c : Config ι ε C S α) : Prop where
  inv : L.con.Inv c.state
  knows : ∀ i, ∃ o, L.Of i o c.state ∧ Knows L i (Q i) (c.thread i) o

theorem AllAware.start (hinv : L.con.Inv c.state) {o : ι → κ} (ho : ∀ i, L.Of i (o i) c.state)
    (h : ∀ i, Knows L i (Q i) (c.thread i) (o i)) : AllAware L Q c :=
  ⟨hinv, fun i => ⟨o i, ho i, h i⟩⟩

/-- What a thread knows when it has ended. -/
theorem AllAware.ended (h : AllAware L Q c) {r : Except ε α}
    (hended : (c.thread i).outcome = some r) : ∃ o, L.Of i o c.state ∧ Q i r o := by
  obtain ⟨o, ho, hknows⟩ := h.knows i
  rw [Prog.outcome_eq_some.1 hended] at hknows
  cases r with
  | ok a => exact ⟨o, ho, hknows⟩
  | error e => exact ⟨o, ho, hknows⟩

/-- What a thread knows when it issues its next command. -/
theorem AllAware.next (h : AllAware L Q c) {β : Type} {cmd : C β} {k : Except ε β → Prog ε C α}
    (hcall : c.thread i = .call cmd k) :
    ∃ o, L.Of i o c.state ∧ L.Post i cmd o fun r o' => Knows L i (Q i) (k r) o' := by
  obtain ⟨o, ho, hknows⟩ := h.knows i
  rw [hcall] at hknows
  exact ⟨o, ho, hknows⟩

theorem AllAware.step [DecidableEq ι] (h : AllAware L Q c) (hstep : Step sys c c') :
    AllAware L Q c' := by
  cases hstep with
  | thread i cmd k r hcall hs =>
      obtain ⟨o, ho, hpost⟩ := h.next hcall
      obtain ⟨hinv, hg, o', ho', hrest⟩ := L.sound hpost h.inv ho hs
      refine ⟨hinv, fun j => ?_⟩
      by_cases hj : i = j
      · subst hj
        refine ⟨o', ho', ?_⟩
        simpa only [Function.update_self] using hrest
      · obtain ⟨oj, hoj, hknows⟩ := h.knows j
        refine ⟨oj, L.stable (L.fits.guar_rely hj h.inv hg) hoj, ?_⟩
        simpa only [Function.update_of_ne (Ne.symm hj)] using hknows
  | env henv =>
      refine ⟨L.fits.env_inv henv h.inv, fun j => ?_⟩
      obtain ⟨o, ho, hknows⟩ := h.knows j
      exact ⟨o, L.stable (L.fits.env_rely j henv h.inv) ho, hknows⟩

theorem AllAware.run [DecidableEq ι] (h : AllAware L Q c) (hrun : Run sys c c') :
    AllAware L Q c' := by
  induction hrun with
  | refl => exact h
  | tail _ hstep ih => exact ih.step hstep

end Vivac.Lib
