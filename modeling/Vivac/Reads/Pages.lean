import Vivac.Lib.Keyset
import Vivac.Lib.SessionRules
import Vivac.Core.Session

/-!
# Chains of pages

A paged read is requested again and again, each time with the cursor of the page
before and on the database of that moment. `KeysetLaw` is what such a chain owes
its client; a read that computes keyset pages (`PagedBy`) obeys it.
-/

set_option autoImplicit false

namespace Vivac

open Lib App

variable {ρ κ : Type}

/-- A read that takes a cursor and a limit. -/
abbrev PageRequest (ρ : Type) := Option String → ℕ → App (List ρ × Option String × Bool)

/-- Request pages until the cursor is null: one database and one limit for each request. -/
def requestPages (req : PageRequest ρ) (cursor : Option String) :
    List (Db × ℕ) → Except Exc (List (List ρ × Option String))
  | [] => .ok []
  | (d, limit) :: states =>
    (answer d (req cursor limit)).bind fun out =>
      match out.2.1 with
      | some next => (requestPages req (some next) states).map ((out.1, some next) :: ·)
      | none => .ok [(out.1, none)]

/-- The rows of a chain of pages, in the order returned. -/
def returned (pages : List (List ρ × Option String)) : List ρ := pages.flatMap Prod.fst

/-- The last page has no cursor. -/
def Ended (pages : List (List ρ × Option String)) : Prop :=
  ∃ p, pages.getLast? = some p ∧ p.2 = none

/-- Databases and limits a client can meet. -/
def Valid (ok : Db → Prop) (states : List (Db × ℕ)) : Prop := ∀ st ∈ states, ok st.1 ∧ 1 ≤ st.2

/-- What a chain of pages over changing databases owes its client. -/
structure KeysetLaw [LinearOrder κ] (req : PageRequest ρ) (matching : Db → List ρ) (key : ρ → κ)
    (ok : Db → Prop) : Prop where
  /-- An issued cursor is never rejected. -/
  accepted : ∀ states, Valid ok states → ∃ pages, requestPages req none states = .ok pages
  /-- The sort keys of the returned rows are strictly monotone. -/
  monotone : ∀ states pages, Valid ok states → requestPages req none states = .ok pages →
    (returned pages).Pairwise fun a b => key a < key b
  /-- A row that matches in all states with an unchanged key is returned exactly once. -/
  once : ∀ states pages, Valid ok states → requestPages req none states = .ok pages →
    Ended pages → ∀ k, (∀ st ∈ states, ∃ r ∈ matching st.1, key r = k) →
      ((returned pages).filter fun r => key r = k).length = 1
  /-- Over an unchanged database the pages are the sorted rows. -/
  exact_rows : ∀ d (limits : List ℕ) pages, Valid ok (limits.map fun l => (d, l)) →
    requestPages req none (limits.map fun l => (d, l)) = .ok pages → Ended pages →
      returned pages = Keyset.sort key (matching d)
  /-- Over an unchanged database the cursor is null exactly on the page with the last row. -/
  exact_end : ∀ d (limits : List ℕ) pages, Valid ok (limits.map fun l => (d, l)) →
    requestPages req none (limits.map fun l => (d, l)) = .ok pages →
      ∀ p ∈ pages, p.2 = none ↔ ∀ r ∈ (Keyset.sort key (matching d)).getLast?, r ∈ p.1

/-- The read computes keyset pages, and its cursors carry the keys in `issued`. -/
structure PagedBy [LinearOrder κ] (req : PageRequest ρ) (matching : Db → List ρ) (key : ρ → κ)
    (ok : Db → Prop) (encode : κ → String) (issued : κ → Prop) : Prop where
  distinct : ∀ d, ok d → ((matching d).map key).Nodup
  issues : ∀ d, ok d → ∀ r ∈ matching d, issued (key r)
  answers : ∀ d, ok d → ∀ limit, 1 ≤ limit → ∀ after : Option κ, (∀ k ∈ after, issued k) →
    ∃ more, answer d (req (after.map encode) limit) =
      .ok ((Keyset.page key limit after (matching d)).rows,
        (Keyset.page key limit after (matching d)).next.map encode, more)

/-- A page as the client sees it. -/
def visible (encode : κ → String) (p : Keyset.Page ρ κ) : List ρ × Option String :=
  (p.rows, p.next.map encode)

namespace PagedBy

variable [LinearOrder κ] {req : PageRequest ρ} {matching : Db → List ρ} {key : ρ → κ}
  {ok : Db → Prop} {encode : κ → String} {issued : κ → Prop}

/-- The tables of the chain. -/
def tables (matching : Db → List ρ) (states : List (Db × ℕ)) : List (List ρ × ℕ) :=
  states.map fun st => (matching st.1, st.2)

/-- The chain of requests is the chain of keyset pages. -/
theorem requestPages_eq (h : PagedBy req matching key ok encode issued) (after : Option κ)
    {states : List (Db × ℕ)} (hv : Valid ok states) (hi : ∀ k ∈ after, issued k) :
    requestPages req (after.map encode) states =
      .ok ((Keyset.chain key after (tables matching states)).map (visible encode)) := by
  induction states generalizing after with
  | nil => rfl
  | cons st states ih =>
    obtain ⟨d, limit⟩ := st
    obtain ⟨hd, hl⟩ := hv (d, limit) (List.mem_cons_self ..)
    obtain ⟨more, hanswer⟩ := h.answers d hd limit hl after hi
    simp only [requestPages, hanswer, Except.bind, tables, List.map_cons, Keyset.chain]
    cases hnext : (Keyset.page key limit after (matching d)).next with
    | none => simp only [Option.map_none, List.map_cons, List.map_nil, visible, hnext]
    | some k =>
      obtain ⟨init, last, rest, hrows, rfl, -, -⟩ := Keyset.split_of_next_some hnext
      have hpage : last ∈ (Keyset.page key limit after (matching d)).rows := hrows ▸ (by simp)
      have hlast := (Keyset.mem_rows_of_page hpage).1
      have hissued : ∀ k ∈ some (key last), issued k := by
        intro k hk
        cases hk
        exact h.issues d hd last hlast
      have htail := ih (some (key last)) (fun st hst => hv st (List.mem_cons_of_mem _ hst)) hissued
      simp only [Option.map_some] at htail ⊢
      rw [htail]
      simp only [Except.map, List.map_cons, visible, hnext, Option.map_some, tables]

omit [LinearOrder κ] in
theorem returned_visible (ps : List (Keyset.Page ρ κ)) :
    returned (ps.map (visible encode)) = Keyset.shown ps := by
  simp [returned, Keyset.shown, visible, List.flatMap_map]

omit [LinearOrder κ] in
theorem ended_visible (ps : List (Keyset.Page ρ κ)) :
    Ended (ps.map (visible encode)) ↔ Keyset.Complete ps := by
  simp only [Ended, Keyset.Complete, List.getLast?_map, Option.map_eq_some_iff]
  constructor
  · rintro ⟨p, ⟨q, hq, rfl⟩, hp⟩
    exact ⟨q, hq, Option.map_eq_none_iff.1 hp⟩
  · rintro ⟨q, hq, hnone⟩
    exact ⟨_, ⟨q, hq, rfl⟩, by simp [visible, hnone]⟩

theorem distinct_tables (h : PagedBy req matching key ok encode issued) {states : List (Db × ℕ)}
    (hv : Valid ok states) : Keyset.Distinct key (tables matching states) := by
  intro st hst
  obtain ⟨s, hs, rfl⟩ := List.mem_map.1 hst
  exact h.distinct s.1 (hv s hs).1

theorem limits_tables {states : List (Db × ℕ)} (hv : Valid ok states) :
    ∀ st ∈ tables matching states, 1 ≤ st.2 := by
  intro st hst
  obtain ⟨s, hs, rfl⟩ := List.mem_map.1 hst
  exact (hv s hs).2

omit [LinearOrder κ] in
theorem tables_unchanged (d : Db) (limits : List ℕ) :
    tables matching (limits.map fun l => (d, l)) = limits.map fun l => (matching d, l) := by
  simp [tables]

omit [LinearOrder κ] in
theorem pos_of_valid {d : Db} {limits : List ℕ} (hv : Valid ok (limits.map fun l => (d, l))) :
    ∀ l ∈ limits, 1 ≤ l :=
  fun l hl => (hv (d, l) (List.mem_map_of_mem hl)).2

/-- The pages of a chain are the visible pages of the keyset chain. -/
theorem pages_eq (h : PagedBy req matching key ok encode issued) {states : List (Db × ℕ)}
    {pages : List (List ρ × Option String)} (hv : Valid ok states)
    (hp : requestPages req none states = .ok pages) :
    pages = (Keyset.chain key none (tables matching states)).map (visible encode) := by
  have hrun := h.requestPages_eq none hv (by simp)
  rw [Option.map_none, hp] at hrun
  exact Except.ok.inj hrun

/-- Keyset pages obey the law. -/
theorem law (h : PagedBy req matching key ok encode issued) : KeysetLaw req matching key ok where
  accepted states hv := ⟨_, h.requestPages_eq none hv (by simp)⟩
  monotone states pages hv hp := by
    rw [h.pages_eq hv hp, returned_visible]
    exact Keyset.chain_pairwise (h.distinct_tables hv)
  once states pages hv hp hend k hk := by
    rw [h.pages_eq hv hp] at hend ⊢
    rw [returned_visible]
    obtain ⟨r, hr, hkey⟩ := Keyset.chain_covers (h.distinct_tables hv) (limits_tables hv)
      ((ended_visible _).1 hend) (k := k) (by simp) (by
        intro st hst
        obtain ⟨s, hs, rfl⟩ := List.mem_map.1 hst
        exact hk s hs)
    exact Keyset.length_filter_key (Keyset.chain_pairwise (h.distinct_tables hv)) hr hkey
  exact_rows d limits pages hv hp hend := by
    have hd : ok d := by
      cases limits with
      | nil =>
        cases hp
        simp [Ended] at hend
      | cons l limits => exact (hv (d, l) (List.mem_cons_self ..)).1
    rw [h.pages_eq hv hp] at hend ⊢
    rw [returned_visible, tables_unchanged]
    refine Keyset.chain_eq_sort (h.distinct d hd) (pos_of_valid hv) ?_
    rw [← tables_unchanged]
    exact (ended_visible _).1 hend
  exact_end d limits pages hv hp p hmem := by
    rw [h.pages_eq hv hp, tables_unchanged] at hmem
    obtain ⟨q, hq, rfl⟩ := List.mem_map.1 hmem
    have hd : ok d := by
      cases limits with
      | nil => simp [Keyset.chain] at hq
      | cons l limits => exact (hv (d, l) (List.mem_cons_self ..)).1
    have hiff := Keyset.chain_next_eq_none_iff (h.distinct d hd) (pos_of_valid hv) hq
    rw [Keyset.candidates_none] at hiff
    simpa [visible] using hiff

end PagedBy

end Vivac
