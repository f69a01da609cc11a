import Mathlib.Data.List.Sort
import Mathlib.Data.List.Nodup

/-!
# Keyset pagination

Rows are listed in the order of a key, a page at a time: each page holds the first
rows with a key after the last one shown, and one row more than the page decides
whether there is a next page. The table may change between pages.

* `chain_pairwise`: along a chain the keys increase strictly;
* `chain_covers`: a key present in every state is shown by the end of the chain;
* `chain_eq_sort`: over an unchanged table the pages are the sorted rows;
* `chain_next_eq_none_iff`: there the page without a next one is the one with the last row;
* `complete_of_length`: there the chain ends.
-/

set_option autoImplicit false

namespace Vivac.Lib.Keyset

variable {ρ κ : Type} [LinearOrder κ] (key : ρ → κ)

/-- The rows in key order. -/
def sort (rows : List ρ) : List ρ := rows.insertionSort fun a b => key a ≤ key b

/-- The row comes after the last key shown. -/
def isAfter (after : Option κ) (r : ρ) : Bool :=
  match after with
  | some k => k < key r
  | none => true

/-- The rows still to show, in order. -/
def candidates (after : Option κ) (rows : List ρ) : List ρ :=
  sort key (rows.filter (isAfter key after))

/-- A page, and the key to continue after. -/
structure Page (ρ κ : Type) where
  rows : List ρ
  next : Option κ

/-- The first `limit` rows to show; a row beyond them makes the page continue. -/
def page (limit : ℕ) (after : Option κ) (rows : List ρ) : Page ρ κ :=
  let c := candidates key after rows
  if limit < c.length then ⟨c.take limit, (c.take limit).getLast?.map key⟩ else ⟨c, none⟩

/-- The pages of a chain: one table and one page size for each request. -/
def chain (after : Option κ) : List (List ρ × ℕ) → List (Page ρ κ)
  | [] => []
  | (rows, limit) :: states =>
    match (page key limit after rows).next with
    | some k => page key limit after rows :: chain (some k) states
    | none => [page key limit after rows]

/-- The rows the pages show, in the order shown. -/
def shown (ps : List (Page ρ κ)) : List ρ := ps.flatMap Page.rows

/-- The last page has no next one. -/
def Complete (ps : List (Page ρ κ)) : Prop := ∃ p, ps.getLast? = some p ∧ p.next = none

variable {key}

/-! ## One page -/

theorem mem_candidates {after : Option κ} {rows : List ρ} {r : ρ} :
    r ∈ candidates key after rows ↔ r ∈ rows ∧ isAfter key after r = true := by
  simp [candidates, sort]

theorem pairwise_sort {rows : List ρ} (h : (rows.map key).Nodup) :
    (sort key rows).Pairwise fun a b => key a < key b := by
  have hle : (sort key rows).Pairwise fun a b => key a ≤ key b :=
    haveI : Std.Total fun a b : ρ => key a ≤ key b := ⟨fun a b => le_total (key a) (key b)⟩
    haveI : IsTrans ρ fun a b => key a ≤ key b := ⟨fun _ _ _ => le_trans⟩
    List.pairwise_insertionSort (fun a b => key a ≤ key b) rows
  have hnd : (sort key rows).Pairwise fun a b => key a ≠ key b := by
    have hperm : ((sort key rows).map key).Nodup :=
      ((List.perm_insertionSort _ rows).map key).nodup_iff.2 h
    exact List.pairwise_map.1 hperm
  exact (hle.and hnd).imp fun h => lt_of_le_of_ne h.1 h.2

theorem pairwise_candidates {after : Option κ} {rows : List ρ} (h : (rows.map key).Nodup) :
    (candidates key after rows).Pairwise fun a b => key a < key b :=
  pairwise_sort ((List.filter_sublist.map key).nodup h)

/-- A page is a prefix of what is still to show. -/
theorem rows_page_isCut (limit : ℕ) (after : Option κ) (rows : List ρ) :
    (page key limit after rows).rows <+: candidates key after rows := by
  unfold page
  dsimp only
  split
  · exact List.take_prefix _ _
  · exact List.prefix_rfl

/-- A page is decided by one row more than it holds. -/
theorem page_eq_lookahead (limit : ℕ) (after : Option κ) (rows : List ρ) :
    page key limit after rows =
      let got := (candidates key after rows).take (limit + 1)
      if limit < got.length then ⟨got.take limit, (got.take limit).getLast?.map key⟩
      else ⟨got, none⟩ := by
  have htake : ((candidates key after rows).take (limit + 1)).take limit =
      (candidates key after rows).take limit := by
    rw [List.take_take, Nat.min_eq_left (Nat.le_succ limit)]
  unfold page
  dsimp only
  rw [htake, List.length_take]
  by_cases h : limit < (candidates key after rows).length
  · rw [if_pos h, if_pos (by omega)]
  · rw [if_neg h, if_neg (by omega), List.take_of_length_le (by omega)]

theorem mem_rows_of_page {limit : ℕ} {after : Option κ} {rows : List ρ} {r : ρ}
    (h : r ∈ (page key limit after rows).rows) : r ∈ rows ∧ isAfter key after r = true :=
  mem_candidates.1 ((rows_page_isCut limit after rows).subset h)

theorem pairwise_page {limit : ℕ} {after : Option κ} {rows : List ρ} (h : (rows.map key).Nodup) :
    ((page key limit after rows).rows).Pairwise fun a b => key a < key b :=
  (pairwise_candidates h).sublist (rows_page_isCut limit after rows).sublist

/-- The last page shows everything left. -/
theorem rows_of_next_none {limit : ℕ} (hl : 1 ≤ limit) {after : Option κ} {rows : List ρ}
    (h : (page key limit after rows).next = none) :
    (page key limit after rows).rows = candidates key after rows := by
  unfold page at h ⊢
  dsimp only at h ⊢
  split
  · rename_i hlen
    rw [if_pos hlen] at h
    have hne : (candidates key after rows).take limit ≠ [] := by
      intro hnil
      have := congrArg List.length hnil
      rw [List.length_take, List.length_nil] at this
      omega
    simp [List.getLast?_eq_some_getLast hne] at h
  · rfl

/-- A page that continues ends with the key to continue after, and more rows follow. -/
theorem split_of_next_some {limit : ℕ} {after : Option κ} {rows : List ρ} {k : κ}
    (h : (page key limit after rows).next = some k) :
    ∃ init last rest, (page key limit after rows).rows = init ++ [last] ∧ key last = k ∧
      candidates key after rows = (init ++ [last]) ++ rest ∧ rest ≠ [] := by
  unfold page at h ⊢
  dsimp only at h ⊢
  split
  · rename_i hlen
    rw [if_pos hlen] at h
    obtain ⟨last, hlast, hk⟩ := Option.map_eq_some_iff.1 h
    obtain ⟨init, hinit⟩ := List.getLast?_eq_some_iff.1 hlast
    refine ⟨init, last, (candidates key after rows).drop limit, hinit, hk, ?_, ?_⟩
    · rw [← hinit, List.take_append_drop]
    · intro hnil
      have := congrArg List.length hnil
      rw [List.length_drop, List.length_nil] at this
      omega
  · rename_i hlen
    rw [if_neg hlen] at h
    cases h

/-- Rows of a page that continues are not after the key to continue after. -/
theorem le_of_next_some {limit : ℕ} {after : Option κ} {rows : List ρ} {k : κ}
    (hn : (rows.map key).Nodup) (h : (page key limit after rows).next = some k) :
    ∀ r ∈ (page key limit after rows).rows, key r ≤ k := by
  obtain ⟨init, last, rest, hrows, rfl, -, -⟩ := split_of_next_some h
  have hp : (page key limit after rows).rows.Pairwise fun a b => key a < key b := pairwise_page hn
  rw [hrows] at hp ⊢
  intro r hr
  rcases List.mem_append.1 hr with hr | hr
  · exact le_of_lt ((List.pairwise_append.1 hp).2.2 r hr last (List.mem_singleton_self _))
  · rw [List.mem_singleton.1 hr]

/-- What is left after the page is what comes after its last key. -/
theorem candidates_of_next_some {limit : ℕ} {after : Option κ} {rows : List ρ} {k : κ}
    (hn : (rows.map key).Nodup) (h : (page key limit after rows).next = some k) :
    candidates key after rows = (page key limit after rows).rows ++
      candidates key (some k) rows := by
  obtain ⟨init, last, rest, hrows, rfl, hcand, -⟩ := split_of_next_some h
  have hp : (candidates key after rows).Pairwise fun a b => key a < key b :=
    pairwise_candidates hn
  have hmem : ∀ r, r ∈ rest ↔ r ∈ candidates key (some (key last)) rows := by
    intro r
    rw [hcand] at hp
    have hcross := (List.pairwise_append.1 hp).2.2
    constructor
    · intro hr
      have hall : r ∈ candidates key after rows := hcand ▸ List.mem_append_right _ hr
      refine mem_candidates.2 ⟨(mem_candidates.1 hall).1, ?_⟩
      simpa [isAfter] using hcross last (by simp) r hr
    · intro hr
      obtain ⟨hrow, hafter⟩ := mem_candidates.1 hr
      have hlt : key last < key r := by simpa [isAfter] using hafter
      have hlast : last ∈ candidates key after rows := hcand ▸ (by simp)
      have hin : r ∈ candidates key after rows := by
        refine mem_candidates.2 ⟨hrow, ?_⟩
        have hl := (mem_candidates.1 hlast).2
        cases after with
        | none => rfl
        | some a =>
          have hal : a < key last := by simpa [isAfter] using hl
          simpa [isAfter] using lt_trans hal hlt
      rw [hcand] at hin
      rcases List.mem_append.1 hin with hin | hin
      · have hpage := le_of_next_some hn h
        rw [hrows] at hpage
        exact absurd (hpage r hin) (not_le.2 hlt)
      · exact hin
  have hrest : rest = candidates key (some (key last)) rows := by
    have hp₁ : rest.Pairwise fun a b => key a < key b := by
      rw [hcand] at hp
      exact (List.pairwise_append.1 hp).2.1
    refine List.Perm.eq_of_pairwise ?_ hp₁
      (pairwise_candidates hn) ?_
    · intro a b _ _ h₁ h₂
      exact absurd h₁ (lt_asymm h₂)
    · refine (List.perm_ext_iff_of_nodup ?_ ?_).2 hmem
      · exact hp₁.imp fun h hab => absurd (hab ▸ h) (lt_irrefl _)
      · exact (pairwise_candidates hn).imp fun h hab => absurd (hab ▸ h) (lt_irrefl _)
  rw [hrows, hcand, hrest]

/-! ## Chains -/

/-- Every table of the chain has distinct keys. -/
def Distinct (key : ρ → κ) (states : List (List ρ × ℕ)) : Prop :=
  ∀ st ∈ states, (st.1.map key).Nodup

omit [LinearOrder κ] in
theorem shown_cons (p : Page ρ κ) (ps : List (Page ρ κ)) : shown (p :: ps) = p.rows ++ shown ps :=
  rfl

omit [LinearOrder κ] in
theorem complete_singleton {p : Page ρ κ} : Complete [p] ↔ p.next = none := by
  simp [Complete]

omit [LinearOrder κ] in
theorem complete_cons {p : Page ρ κ} {ps : List (Page ρ κ)} (h : ps ≠ []) :
    Complete (p :: ps) ↔ Complete ps := by
  obtain ⟨q, qs, rfl⟩ := List.exists_cons_of_ne_nil h
  simp [Complete]

/-- Every row shown comes after the key the chain started after. -/
theorem isAfter_of_mem_chain {after : Option κ} {states : List (List ρ × ℕ)}
    (hd : Distinct key states) {r : ρ} (h : r ∈ shown (chain key after states)) :
    isAfter key after r = true := by
  induction states generalizing after with
  | nil => simp [chain, shown] at h
  | cons st states ih =>
    obtain ⟨rows, limit⟩ := st
    unfold chain at h
    split at h
    · rename_i k hnext
      rw [shown_cons] at h
      rcases List.mem_append.1 h with h | h
      · exact (mem_rows_of_page h).2
      · have hk : isAfter key (some k) r = true :=
          ih (fun st hst => hd st (List.mem_cons_of_mem _ hst)) h
        obtain ⟨init, last, rest, hrows, rfl, -, -⟩ := split_of_next_some hnext
        have hpage : last ∈ (page key limit after rows).rows := hrows ▸ (by simp)
        have hlast := (mem_rows_of_page hpage).2
        cases after with
        | none => rfl
        | some a =>
          have h₁ : a < key last := by simpa [isAfter] using hlast
          have h₂ : key last < key r := by simpa [isAfter] using hk
          simpa [isAfter] using lt_trans h₁ h₂
    · simp only [shown, List.flatMap_cons, List.flatMap_nil, List.append_nil] at h
      exact (mem_rows_of_page h).2

/-- Along a chain the keys increase strictly, whatever changes between the pages. -/
theorem chain_pairwise {after : Option κ} {states : List (List ρ × ℕ)}
    (hd : Distinct key states) :
    (shown (chain key after states)).Pairwise fun a b => key a < key b := by
  induction states generalizing after with
  | nil => exact List.Pairwise.nil
  | cons st states ih =>
    obtain ⟨rows, limit⟩ := st
    have hn : (rows.map key).Nodup := hd (rows, limit) (List.mem_cons_self ..)
    have hd' : Distinct key states := fun st hst => hd st (List.mem_cons_of_mem _ hst)
    unfold chain
    split
    · rename_i k hnext
      rw [shown_cons]
      refine List.pairwise_append.2 ⟨pairwise_page hn, ih hd', fun a ha b hb => ?_⟩
      have hb' := isAfter_of_mem_chain hd' hb
      exact lt_of_le_of_lt (le_of_next_some hn hnext a ha) (by simpa [isAfter] using hb')
    · simpa [shown] using pairwise_page hn

/-- A key present in every state is shown by the end of the chain. -/
theorem chain_covers {after : Option κ} {states : List (List ρ × ℕ)} (hd : Distinct key states)
    (hl : ∀ st ∈ states, 1 ≤ st.2) (hc : Complete (chain key after states)) {k : κ}
    (hafter : ∀ a, after = some a → a < k) (hk : ∀ st ∈ states, ∃ r ∈ st.1, key r = k) :
    ∃ r ∈ shown (chain key after states), key r = k := by
  induction states generalizing after with
  | nil => simp [chain, Complete] at hc
  | cons st states ih =>
    obtain ⟨rows, limit⟩ := st
    have hn : (rows.map key).Nodup := hd (rows, limit) (List.mem_cons_self ..)
    obtain ⟨r, hr, rfl⟩ := hk (rows, limit) (List.mem_cons_self ..)
    have hcand : r ∈ candidates key after rows := by
      refine mem_candidates.2 ⟨hr, ?_⟩
      cases after with
      | none => rfl
      | some a => simpa [isAfter] using hafter a rfl
    unfold chain at hc ⊢
    split at hc
    · rename_i k hnext
      rw [shown_cons]
      rw [candidates_of_next_some hn hnext] at hcand
      rcases List.mem_append.1 hcand with hpage | hrest
      · exact ⟨r, List.mem_append_left _ hpage, rfl⟩
      · have hlt : k < key r := by simpa [isAfter] using (mem_candidates.1 hrest).2
        have hne : chain key (some k) states ≠ [] := by
          intro hnil
          rw [hnil, complete_singleton, hnext] at hc
          cases hc
        obtain ⟨r', hr', hkey⟩ := ih (fun st hst => hd st (List.mem_cons_of_mem _ hst))
          (fun st hst => hl st (List.mem_cons_of_mem _ hst)) ((complete_cons hne).1 hc)
          (fun a ha => by cases ha; exact hlt) (fun st hst => hk st (List.mem_cons_of_mem _ hst))
        exact ⟨r', List.mem_append_right _ hr', hkey⟩
    · rename_i hnext
      rw [← rows_of_next_none (hl (rows, limit) (List.mem_cons_self ..)) hnext] at hcand
      exact ⟨r, by simpa [shown] using hcand, rfl⟩

/-- With increasing keys a key is shown at most once. -/
theorem length_filter_key {rows : List ρ} (hp : rows.Pairwise fun a b => key a < key b) {r : ρ}
    (hr : r ∈ rows) {k : κ} (hk : key r = k) : (rows.filter fun r => key r = k).length = 1 := by
  have hkeys : (rows.map key).Nodup := List.pairwise_map.2 (hp.imp fun h => ne_of_lt h)
  have hnd : rows.Nodup := List.Nodup.of_map key hkeys
  have honly : ∀ r' ∈ rows, key r' = k → r' = r := fun r' hr' hk' =>
    List.inj_on_of_nodup_map hkeys hr' hr (hk'.trans hk.symm)
  have hsub : rows.filter (fun r => key r = k) = [r] := by
    refine List.perm_singleton.1 ((List.perm_ext_iff_of_nodup (hnd.filter _)
      (List.nodup_singleton r)).2 fun r' => ?_)
    simp only [List.mem_filter, decide_eq_true_eq, List.mem_singleton]
    exact ⟨fun h => honly r' h.1 h.2, fun h => h ▸ ⟨hr, hk⟩⟩
  rw [hsub, List.length_singleton]

/-! ## An unchanged table -/

/-- Over an unchanged table the pages are the sorted rows after the start. -/
theorem chain_eq_candidates {after : Option κ} {rows : List ρ} (hn : (rows.map key).Nodup)
    {limits : List ℕ} (hl : ∀ l ∈ limits, 1 ≤ l)
    (hc : Complete (chain key after (limits.map fun l => (rows, l)))) :
    shown (chain key after (limits.map fun l => (rows, l))) = candidates key after rows := by
  induction limits generalizing after with
  | nil => simp [chain, Complete] at hc
  | cons l limits ih =>
    simp only [List.map_cons] at hc ⊢
    unfold chain at hc ⊢
    split at hc
    · rename_i k hnext
      have hne : chain key (some k) (limits.map fun l => (rows, l)) ≠ [] := by
        intro hnil
        rw [hnil, complete_singleton, hnext] at hc
        cases hc
      rw [shown_cons, ih (fun l' hl' => hl l' (List.mem_cons_of_mem _ hl'))
        ((complete_cons hne).1 hc),
        candidates_of_next_some hn hnext]
    · rename_i hnext
      simpa [shown] using rows_of_next_none (hl l (List.mem_cons_self ..)) hnext

theorem candidates_none (rows : List ρ) : candidates key none rows = sort key rows := by
  rw [candidates]
  congr 1
  exact List.filter_eq_self.2 fun _ _ => rfl

/-- Over an unchanged table a chain from the start shows the sorted rows. -/
theorem chain_eq_sort {rows : List ρ} (hn : (rows.map key).Nodup) {limits : List ℕ}
    (hl : ∀ l ∈ limits, 1 ≤ l) (hc : Complete (chain key none (limits.map fun l => (rows, l)))) :
    shown (chain key none (limits.map fun l => (rows, l))) = sort key rows := by
  rw [chain_eq_candidates hn hl hc, candidates_none]

/-- What is left after a page that continues is not empty, and ends alike. -/
theorem getLast?_candidates {limit : ℕ} {after : Option κ} {rows : List ρ} {k : κ}
    (hn : (rows.map key).Nodup) (h : (page key limit after rows).next = some k) :
    candidates key (some k) rows ≠ [] ∧
      (candidates key after rows).getLast? = (candidates key (some k) rows).getLast? := by
  have hsplit := candidates_of_next_some hn h
  obtain ⟨init, last, rest, hrows, -, hcand, hrest⟩ := split_of_next_some h
  have hne : candidates key (some k) rows ≠ [] := by
    intro hnil
    rw [hnil, List.append_nil, hrows, hcand] at hsplit
    exact hrest (List.append_right_eq_self.1 hsplit)
  refine ⟨hne, ?_⟩
  rw [hsplit, List.getLast?_append_of_ne_nil _ hne]

/-- A page has no next one exactly when it shows the last of what is left. -/
theorem next_eq_none_iff {limit : ℕ} (hl : 1 ≤ limit) {after : Option κ} {rows : List ρ}
    (hn : (rows.map key).Nodup) :
    (page key limit after rows).next = none ↔
      ∀ r ∈ (candidates key after rows).getLast?, r ∈ (page key limit after rows).rows := by
  constructor
  · intro h r hr
    rw [rows_of_next_none hl h]
    exact List.mem_of_getLast? hr
  · intro h
    cases hnext : (page key limit after rows).next with
    | none => rfl
    | some k =>
      exfalso
      obtain ⟨hne, hlast⟩ := getLast?_candidates hn hnext
      have hmem := List.getLast_mem hne
      rw [hlast, List.getLast?_eq_some_getLast hne] at h
      have hle := le_of_next_some hn hnext _ (h _ rfl)
      have hlt : k < key ((candidates key (some k) rows).getLast hne) := by
        simpa [isAfter] using (mem_candidates.1 hmem).2
      exact absurd hlt (not_lt.2 hle)

/-- Over an unchanged table a page of the chain has no next one exactly when it shows
the last row. -/
theorem chain_next_eq_none_iff {after : Option κ} {rows : List ρ} (hn : (rows.map key).Nodup)
    {limits : List ℕ} (hl : ∀ l ∈ limits, 1 ≤ l) {p : Page ρ κ}
    (hp : p ∈ chain key after (limits.map fun l => (rows, l))) :
    p.next = none ↔ ∀ r ∈ (candidates key after rows).getLast?, r ∈ p.rows := by
  induction limits generalizing after with
  | nil => simp [chain] at hp
  | cons l limits ih =>
    have hhead : (page key l after rows).next = none ↔
        ∀ r ∈ (candidates key after rows).getLast?, r ∈ (page key l after rows).rows :=
      next_eq_none_iff (hl l (List.mem_cons_self ..)) hn
    simp only [List.map_cons] at hp
    unfold chain at hp
    split at hp
    · rename_i k hnext
      rcases List.mem_cons.1 hp with rfl | hp
      · exact hhead
      · rw [(getLast?_candidates hn hnext).2]
        exact ih (fun l' hl' => hl l' (List.mem_cons_of_mem _ hl')) hp
    · rw [List.mem_singleton.1 hp]
      exact hhead

/-- Over an unchanged table as many requests as rows, and one more, end the chain. -/
theorem complete_of_length {after : Option κ} {rows : List ρ} (hn : (rows.map key).Nodup)
    {limits : List ℕ} (hl : ∀ l ∈ limits, 1 ≤ l)
    (hlen : (candidates key after rows).length < limits.length) :
    Complete (chain key after (limits.map fun l => (rows, l))) := by
  induction limits generalizing after with
  | nil => simp at hlen
  | cons l limits ih =>
    simp only [List.map_cons]
    unfold chain
    split
    · rename_i k hnext
      have hsplit := congrArg List.length (candidates_of_next_some hn hnext)
      obtain ⟨init, last, rest, hrows, -, -, -⟩ := split_of_next_some hnext
      have hpos : 0 < (page key l after rows).rows.length := by
        rw [hrows]
        simp
      rw [List.length_append] at hsplit
      have htail : Complete (chain key (some k) (limits.map fun l => (rows, l))) := by
        refine ih (fun l' hl' => hl l' (List.mem_cons_of_mem _ hl')) ?_
        simp only [List.length_cons] at hlen
        omega
      have hne : chain key (some k) (limits.map fun l => (rows, l)) ≠ [] := by
        intro hnil
        obtain ⟨q, hq, -⟩ := htail
        simp [hnil] at hq
      exact (complete_cons hne).2 htail
    · rename_i hnext
      exact complete_singleton.2 hnext

end Vivac.Lib.Keyset
