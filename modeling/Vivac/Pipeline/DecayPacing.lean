import Vivac.Pipeline.Decay

/-!
# Decay is paced

Runs of `decay_stale_trust_tiers` one after another, at times that do not decrease and with
thresholds of a day or more. `DecayStep` says what one run does to each spot and what it answers:
the spots of the first statement are verified by it, so the second does not see them. The time that
a change writes keeps the spot from the next change until more than the threshold has passed
(`verifiedSince_runs`).
-/

set_option autoImplicit false

namespace Vivac

open Lib App

/-- A run of decay: its time and its threshold. -/
structure DecayRun where
  now : Timestamp
  thresholdDays : ℤ

namespace DecayRun

def cutoff (x : DecayRun) : Timestamp := x.now - daysMicros x.thresholdDays

section

variable (cfg : Settings) (be : Backend)

/-- The run ends with the outcome `r`. -/
def Serves (x : DecayRun) (r : Except Exc (ℕ × ℕ)) (s s' : State Unit) : Prop :=
  runAlone (fun i => exec i) ()
    (withSession (decayStaleTrustTiers cfg be x.now x.thresholdDays)) s =
    some (r, s')

def Served (x : DecayRun) (s s' : State Unit) : Prop := ∃ r, x.Serves cfg be r s s'

end

/-- Runs at times that do not decrease. -/
def InTime (xs : List DecayRun) : Prop := xs.Pairwise fun x y => x.now ≤ y.now

/-- The run has lowered the tier of the spot, from 1 to 2 or from 2 to 3. -/
def Downgrades (x : DecayRun) (uid : String) (d d' : Db) : Prop :=
  ∃ s, d.spots.find? uid = some s ∧ (s.trustTier = some 1 ∨ s.trustTier = some 2) ∧
    d'.spots.find? uid = some (s.downgraded x.now)

/-- The run has cleared the assignment of the spot, which was at tier 3. -/
def Requeues (x : DecayRun) (uid : String) (d d' : Db) : Prop :=
  ∃ s, d.spots.find? uid = some s ∧ s.trustTier = some 3 ∧ s.requeued x.now ≠ s ∧
    d'.spots.find? uid = some (s.requeued x.now)

/-- Not PUBLISHED, deleted, without a tier, or verified within the threshold. -/
def Spares (x : DecayRun) (s : Spot) : Prop :=
  s.pipelineStatus ≠ .published ∨ s.deletedAt.isSome ∨ s.trustTier = none ∨
    ∃ t, s.lastVerifiedAt = some t ∧ x.cutoff ≤ t

end DecayRun

/-- The row of the spot is not what it was. -/
def SpotChanged (uid : String) (d d' : Db) : Prop := d'.spots.find? uid ≠ d.spots.find? uid

/-- What one run does: a spot is left as it is, lowered, or sent back, and not two of these; the
spots it spares are left; and it answers how many it has lowered and how many sent back. -/
structure DecayStep (x : DecayRun) (r : Except Exc (ℕ × ℕ)) (d d' : Db) : Prop where
  changes : ∀ uid, SpotChanged uid d d' → x.Downgrades uid d d' ∨ x.Requeues uid d d'
  once : ∀ uid, ¬(x.Downgrades uid d d' ∧ x.Requeues uid d d')
  spares : ∀ uid s, d.spots.find? uid = some s → x.Spares s → ¬SpotChanged uid d d'
  counts : ∀ m n, r = .ok (m, n) → ∃ downgraded requeued : List String,
    downgraded.Nodup ∧ requeued.Nodup ∧ downgraded.length = m ∧ requeued.length = n ∧
    (∀ uid, uid ∈ downgraded ↔ x.Downgrades uid d d') ∧ ∀ uid, uid ∈ requeued ↔ x.Requeues uid d d'

/-- The tiers are those the database admits. -/
def TiersChecked (d : Db) : Prop :=
  ∀ uid s, d.spots.find? uid = some s → s.checkTrustTier = true

/-! ## One run -/

section Step

variable {x : DecayRun} {s : Spot} {d d' : Db}

theorem DecayRun.cutoff_le (h : 1 ≤ x.thresholdDays) : x.cutoff ≤ x.now := Vivac.cutoff_le h x.now

theorem requeued_ne (h : 1 ≤ x.thresholdDays) (hs : isRequeueable x.cutoff s = true) :
    s.requeued x.now ≠ s := by
  intro hsame
  have hfresh : isStale x.cutoff (s.requeued x.now) = false :=
    isStale_of_verified (x.cutoff_le h) rfl
  rw [hsame] at hfresh
  simp [isRequeueable, hfresh] at hs

/-- A spot of an admitted tier is lowered from tier 1 or 2. -/
theorem tier_of_downgradable (hcheck : s.checkTrustTier = true)
    (hs : isDowngradable x.cutoff s = true) : s.trustTier = some 1 ∨ s.trustTier = some 2 := by
  simp only [isDowngradable, Bool.and_eq_true, Option.any_eq_true, decide_eq_true_eq] at hs
  obtain ⟨-, t, ht, hlt⟩ := hs
  simp only [Spot.checkTrustTier, ht, decide_eq_true_eq] at hcheck
  have hcases : t = 1 ∨ t = 2 := by omega
  simpa [ht] using hcases

theorem decayed_eq (s : Spot) : decayed x.now x.cutoff s =
    if isDowngradable x.cutoff s then s.downgraded x.now
    else if isRequeueable x.cutoff s then s.requeued x.now else s := rfl

theorem not_stale_of_spared (h : x.Spares s) : isStale x.cutoff s = false := by
  rcases h with h | h | h | ⟨t, ht, hle⟩
  · simp [isStale, Spot.live, h]
  · rw [Option.isSome_iff_ne_none] at h
    simp [isStale, Spot.live, Option.isNone_iff_eq_none, h]
  · simp [isStale, h]
  · simp [isStale, ht, hle]

/-- The spots that are lowered are those that can be. -/
theorem downgrades_iff (hchecked : TiersChecked d)
    (hall : ∀ uid, d'.spots.find? uid = (d.spots.find? uid).map (decayed x.now x.cutoff))
    (uid : String) : x.Downgrades uid d d' ↔
      ∃ s, d.spots.find? uid = some s ∧ isDowngradable x.cutoff s = true := by
  constructor
  · rintro ⟨s, hs, htier, hs'⟩
    refine ⟨s, hs, ?_⟩
    by_contra hnot
    rw [hall, hs, Option.map_some, Option.some.injEq, decayed_eq, if_neg hnot] at hs'
    -- left alone or sent back, the spot would have kept its tier
    have hkept : (s.downgraded x.now).trustTier = s.trustTier := by
      rw [← hs']
      split <;> rfl
    rcases htier with ht | ht <;> simp [Spot.downgraded, ht] at hkept
  · rintro ⟨s, hs, hlow⟩
    refine ⟨s, hs, tier_of_downgradable (hchecked uid s hs) hlow, ?_⟩
    rw [hall, hs, Option.map_some, decayed_eq, if_pos hlow]

/-- The spots that are sent back are those that can be. -/
theorem requeues_iff (h : 1 ≤ x.thresholdDays)
    (hall : ∀ uid, d'.spots.find? uid = (d.spots.find? uid).map (decayed x.now x.cutoff))
    (uid : String) : x.Requeues uid d d' ↔
      ∃ s, d.spots.find? uid = some s ∧ isRequeueable x.cutoff s = true := by
  constructor
  · rintro ⟨s, hs, htier, hne, hs'⟩
    refine ⟨s, hs, ?_⟩
    have hlow : isDowngradable x.cutoff s = false := by
      simp [isDowngradable, htier]
    by_contra hnot
    rw [hall, hs, Option.map_some, Option.some.injEq, decayed_eq, hlow, if_neg hnot] at hs'
    exact hne hs'.symm
  · rintro ⟨s, hs, hback⟩
    have htier : s.trustTier = some 3 := by
      simp only [isRequeueable, Bool.and_eq_true, beq_iff_eq] at hback
      exact hback.2
    have hlow : isDowngradable x.cutoff s = false := by
      simp [isDowngradable, htier]
    refine ⟨s, hs, htier, requeued_ne h hback, ?_⟩
    rw [hall, hs, Option.map_some, decayed_eq, hlow, if_pos hback]
    rfl

/-- The uids of the rows that meet a condition. -/
theorem mem_uids_filter {p : Spot → Bool} {uid : String} :
    uid ∈ (d.spots.rows.filter p).map Spot.uid ↔ ∃ s, d.spots.find? uid = some s ∧ p s = true := by
  constructor
  · intro hmem
    obtain ⟨s, hs, rfl⟩ := List.mem_map.1 hmem
    obtain ⟨hrow, hp⟩ := List.mem_filter.1 hs
    exact ⟨s, Table.find?_eq_some.2 ⟨hrow, rfl⟩, hp⟩
  · rintro ⟨s, hs, hp⟩
    obtain ⟨hrow, rfl⟩ := Table.find?_eq_some.1 hs
    exact List.mem_map_of_mem (List.mem_filter.2 ⟨hrow, hp⟩)

theorem DecayStep.of_answers {r : Except Exc (ℕ × ℕ)} (h : 1 ≤ x.thresholdDays)
    (hchecked : TiersChecked d) (hanswers : DecayAnswers x.now x.cutoff d r d') :
    DecayStep x r d d' := by
  cases r with
  | error e =>
      -- nothing has changed, and what is as before is neither lowered nor sent back
      obtain rfl : d' = d := hanswers
      have hsame : ∀ uid, ¬SpotChanged uid d' d' := fun uid hchanged => hchanged rfl
      refine ⟨fun uid hchanged => absurd hchanged (hsame uid), ?_, fun uid s _ _ => hsame uid, ?_⟩
      · rintro uid ⟨-, s, hs, -, hne, hs'⟩
        rw [hs, Option.some.injEq] at hs'
        exact hne hs'.symm
      · intro m n hr
        cases hr
  | ok answer =>
      obtain ⟨hall, hanswer⟩ := hanswers
      have hlow := downgrades_iff hchecked hall
      have hback := requeues_iff h hall
      refine ⟨fun uid hchanged => ?_, ?_, fun uid s hs hspared hchanged => ?_, ?_⟩
      · rw [hlow, hback]
        rw [SpotChanged, hall] at hchanged
        cases hs : d.spots.find? uid with
        | none =>
            rw [hs] at hchanged
            exact absurd rfl hchanged
        | some s =>
            rw [hs, Option.map_some, decayed_eq] at hchanged
            by_cases hd : isDowngradable x.cutoff s = true
            · exact .inl ⟨s, rfl, hd⟩
            · rw [if_neg hd] at hchanged
              by_cases hq : isRequeueable x.cutoff s = true
              · exact .inr ⟨s, rfl, hq⟩
              · rw [if_neg hq] at hchanged
                exact absurd rfl hchanged
      · rintro uid ⟨⟨s, hs, htier, -⟩, t, ht, htier', -⟩
        cases hs.symm.trans ht
        rcases htier with h | h <;> rw [h] at htier' <;> cases htier'
      · rw [SpotChanged, hall, hs, Option.map_some, decayed_eq] at hchanged
        apply hchanged
        simp [isDowngradable, isRequeueable, not_stale_of_spared hspared]
      · intro m n hr
        cases hr
        cases hanswer
        refine ⟨(d.spots.rows.filter (isDowngradable x.cutoff)).map Spot.uid,
          (d.spots.rows.filter (isRequeueable x.cutoff)).map Spot.uid, nodup_select_uids _ _,
          nodup_select_uids _ _, ?_, ?_, fun uid => ?_, fun uid => ?_⟩
        · rw [List.length_map, ← List.countP_eq_length_filter]
        · rw [List.length_map, ← List.countP_eq_length_filter]
        · rw [mem_uids_filter, hlow]
        · rw [mem_uids_filter, hback]

end Step

/-! ## Runs -/

section Runs

variable {cfg : Settings} {be : Backend} {x : DecayRun} {r : Except Exc (ℕ × ℕ)} {s s' : State Unit}
  {uid : String}

theorem DecayRun.Serves.answers (h : x.Serves cfg be r s s') (hpositive : 1 ≤ x.thresholdDays)
    (hs : Between s) : DecayAnswers x.now x.cutoff s.db r s'.db ∧ Between s' := by
  have hbody : Lone () (Sees () s.db [] s.db) (decayStaleTrustTiers cfg be x.now x.thresholdDays)
      fun r s' => DecayAnswers x.now x.cutoff s.db r s'.db :=
    lone_decayStaleTrustTiers hpositive s.db
  obtain ⟨r', s'', hrun, -, hanswers⟩ := lone_withSession hbody s hs.sees
  have hsame : some (r', s'') = some (r, s') := hrun.symm.trans h
  cases hsame
  exact ⟨hanswers, between_of_withSession h⟩

/-- Either a run has kept a spot, or it has verified it. -/
theorem find?_of_answers {d d' : Db} (h : DecayAnswers x.now x.cutoff d r d') {row : Spot}
    (hrow : d.spots.find? uid = some row) :
    ∃ row', d'.spots.find? uid = some row' ∧
      (row' = row ∨ row'.lastVerifiedAt = some x.now ∧ isStale x.cutoff row = true) := by
  cases r with
  | error e =>
      obtain rfl : d' = d := h
      exact ⟨row, hrow, .inl rfl⟩
  | ok answer =>
      refine ⟨decayed x.now x.cutoff row, by rw [h.1, hrow, Option.map_some], ?_⟩
      rw [decayed_eq]
      split
      · rename_i hlow
        simp only [isDowngradable, Bool.and_eq_true] at hlow
        exact .inr ⟨rfl, hlow.1⟩
      · split
        · rename_i hback
          simp only [isRequeueable, Bool.and_eq_true] at hback
          exact .inr ⟨rfl, hback.1⟩
        · exact .inl rfl

theorem checkTrustTier_decayed {row : Spot} (h : row.checkTrustTier = true) :
    (decayed x.now x.cutoff row).checkTrustTier = true := by
  rw [decayed_eq]
  split
  · rename_i hlow
    rcases tier_of_downgradable h hlow with ht | ht <;>
      simp [Spot.checkTrustTier, Spot.downgraded, ht]
  · split
    · exact h
    · exact h

theorem TiersChecked.of_answers {d d' : Db} (h : DecayAnswers x.now x.cutoff d r d')
    (hd : TiersChecked d) : TiersChecked d' := by
  cases r with
  | error e =>
      obtain rfl : d' = d := h
      exact hd
  | ok answer =>
      intro uid row hrow
      rw [h.1] at hrow
      obtain ⟨row₀, hrow₀, rfl⟩ := Option.map_eq_some_iff.1 hrow
      exact checkTrustTier_decayed (hd uid row₀ hrow₀)

/-- The spot has been verified at the time or later. -/
def VerifiedSince (t : Timestamp) (uid : String) (d : Db) : Prop :=
  ∃ row t', d.spots.find? uid = some row ∧ row.lastVerifiedAt = some t' ∧ t ≤ t'

/-- A change writes the time of its run. -/
theorem VerifiedSince.of_changed {d d' : Db} (h : DecayAnswers x.now x.cutoff d r d')
    (hchanged : SpotChanged uid d d') : VerifiedSince x.now uid d' := by
  cases hrow : d.spots.find? uid with
  | none =>
      -- a run makes no spot
      have hnone : d'.spots.find? uid = none := by
        cases r with
        | error e =>
            obtain rfl : d' = d := h
            exact hrow
        | ok answer => rw [h.1, hrow, Option.map_none]
      exact absurd (hnone.trans hrow.symm) hchanged
  | some row =>
      obtain ⟨row', hrow', rfl | ⟨hnow, -⟩⟩ := find?_of_answers h hrow
      · exact absurd (hrow'.trans hrow.symm) hchanged
      · exact ⟨row', x.now, hrow', hnow, le_refl _⟩

/-- A later run leaves the time or writes its own. -/
theorem VerifiedSince.of_answers {t : Timestamp} {d d' : Db}
    (h : DecayAnswers x.now x.cutoff d r d') (ht : t ≤ x.now) (hd : VerifiedSince t uid d) :
    VerifiedSince t uid d' := by
  obtain ⟨row, t', hrow, hverified, hle⟩ := hd
  obtain ⟨row', hrow', rfl | ⟨hnow, -⟩⟩ := find?_of_answers h hrow
  · exact ⟨row', t', hrow', hverified, hle⟩
  · exact ⟨row', x.now, hrow', hnow, ht⟩

/-- A run changes no spot that was verified at its cutoff or later. -/
theorem lt_cutoff_of_changed {t : Timestamp} {d d' : Db} (h : DecayAnswers x.now x.cutoff d r d')
    (hd : VerifiedSince t uid d) (hchanged : SpotChanged uid d d') : t < x.cutoff := by
  obtain ⟨row, t', hrow, hverified, hle⟩ := hd
  obtain ⟨row', hrow', rfl | ⟨-, hstale⟩⟩ := find?_of_answers h hrow
  · exact absurd (hrow'.trans hrow.symm) hchanged
  · have hlt : t' < x.cutoff := by
      simp only [isStale, hverified, Bool.and_eq_true, decide_eq_true_eq] at hstale
      exact hstale.2
    exact lt_of_le_of_lt hle hlt

/-- What runs keep that begin when no transaction is open. -/
theorem decayRuns_invariant {I : Db → Prop} {xs : List DecayRun}
    (hpositive : ∀ x ∈ xs, 1 ≤ x.thresholdDays)
    (hkeep : ∀ x ∈ xs, ∀ r d d', DecayAnswers x.now x.cutoff d r d' → I d → I d')
    (h : Turns (DecayRun.Served cfg be) xs s s') (hs : Between s) (hI : I s.db) :
    Between s' ∧ I s'.db := by
  refine h.invariant (I := fun s => Between s ∧ I s.db) (fun x hx a b hab ha => ?_) ⟨hs, hI⟩
  obtain ⟨r, hserves⟩ := hab
  obtain ⟨hanswers, hbetween⟩ := hserves.answers (hpositive x hx) ha.1
  exact ⟨hbetween, hkeep x hx r a.db b.db hanswers ha.2⟩

end Runs

/-- Every run of decay takes one step of every spot at most, and a spot that two runs change has
waited for more than the threshold in between. -/
theorem decay_paced (cfg : Settings) (be : Backend) {xs : List DecayRun} {s₀ : State Unit}
    (htime : DecayRun.InTime xs) (hpositive : ∀ x ∈ xs, 1 ≤ x.thresholdDays) (hs₀ : Between s₀)
    (hchecked : TiersChecked s₀.db) :
    (∀ before x after r s₁ s₂, xs = before ++ x :: after →
      Turns (DecayRun.Served cfg be) before s₀ s₁ → x.Serves cfg be r s₁ s₂ →
      DecayStep x r s₁.db s₂.db) ∧
    ∀ before x between y after s₁ s₂ s₃ s₄ uid, xs = before ++ x :: between ++ y :: after →
      Turns (DecayRun.Served cfg be) before s₀ s₁ → x.Served cfg be s₁ s₂ →
      Turns (DecayRun.Served cfg be) between s₂ s₃ → y.Served cfg be s₃ s₄ →
      SpotChanged uid s₁.db s₂.db → SpotChanged uid s₃.db s₄.db →
      x.now + daysMicros y.thresholdDays < y.now := by
  constructor
  · rintro before x after r s₁ s₂ rfl hbefore hx
    obtain ⟨hs₁, hchecked₁⟩ := decayRuns_invariant
      (fun y hy => hpositive y (List.mem_append_left _ hy))
      (fun y _ r d d' hanswers hd => hd.of_answers hanswers) hbefore hs₀ hchecked
    have hday := hpositive x (by simp)
    exact DecayStep.of_answers hday hchecked₁ (hx.answers hday hs₁).1
  · rintro before x between y after s₁ s₂ s₃ s₄ uid rfl hbefore ⟨r, hx⟩ hbetween
      ⟨r', hy⟩ hfirst hsecond
    obtain ⟨hs₁, -⟩ := decayRuns_invariant
      (fun z hz => hpositive z (by simp [hz])) (fun z _ r d d' hanswers hd =>
        hd.of_answers hanswers)
      hbefore hs₀ hchecked
    obtain ⟨hanswers, hs₂⟩ := hx.answers (hpositive x (by simp)) hs₁
    -- the time that the first change wrote is kept up to the second
    have hlater : ∀ z ∈ between, x.now ≤ z.now := by
      intro z hz
      have hupto := (List.pairwise_append.1 (List.pairwise_append.1 htime).1).2.1
      exact (List.pairwise_cons.1 hupto).1 z hz
    obtain ⟨hs₃, hverified⟩ := decayRuns_invariant
      (fun z hz => hpositive z (by simp [hz]))
      (fun z hz r d d' hz' hd => hd.of_answers hz' (hlater z hz)) hbetween hs₂
      (VerifiedSince.of_changed hanswers hfirst)
    have hlt := lt_cutoff_of_changed (hy.answers (hpositive y (by simp)) hs₃).1 hverified hsecond
    exact lt_sub_iff_add_lt.1 hlt

namespace Sample

/-- A published spot of tier 1 that nobody has verified. -/
def unverified : Db :=
  { Db.empty with
    spots := ⟨[{ spot "s" with trustTier := some 1 }], List.nodup_singleton _⟩ }

def firstDecay : DecayRun := ⟨0, 180⟩

/-- 181 days later. -/
def nextDecay : DecayRun := ⟨15638400000000, 180⟩

theorem tiersChecked_unverified : TiersChecked unverified := by
  intro uid s hs
  obtain ⟨hmem, -⟩ := Table.find?_eq_some.1 hs
  rw [List.mem_singleton.1 hmem]
  rfl

/-- The states after the one and the other run. -/
def decayedTwice : Option (State Unit × State Unit) :=
  (runAlone (fun i => exec i) () (withSession (decayStaleTrustTiers settings backend firstDecay.now
    firstDecay.thresholdDays)) (World.fresh unverified)).bind fun out₁ =>
      (runAlone (fun i => exec i) ()
        (withSession (decayStaleTrustTiers settings backend nextDecay.now
        nextDecay.thresholdDays)) out₁.2).map fun out₂ => (out₁.2, out₂.2)

end Sample

/-- Two runs half a year apart lower the spot twice, and that is more than the threshold. -/
theorem decay_paced_unverified : ∃ s₁ s₂ : State Unit,
    Sample.firstDecay.Served Sample.settings Sample.backend (World.fresh Sample.unverified) s₁ ∧
    Sample.nextDecay.Served Sample.settings Sample.backend s₁ s₂ ∧
    trustTierOf "s" s₁.db = some 2 ∧ trustTierOf "s" s₂.db = some 3 ∧
    Sample.firstDecay.now + daysMicros 180 < Sample.nextDecay.now := by
  have hrun : Sample.decayedTwice.any (fun out =>
      trustTierOf "s" out.1.db = some 2 ∧ trustTierOf "s" out.2.db = some 3) = true := by
    decide +kernel
  obtain ⟨⟨s₁, s₂⟩, hdecayed, htiers⟩ := (Option.any_eq_true _ _).1 hrun
  obtain ⟨⟨r₁, t₁⟩, hfirst, hrest⟩ := Option.bind_eq_some_iff.1 hdecayed
  obtain ⟨⟨r₂, t₂⟩, hsecond, hpair⟩ := Option.map_eq_some_iff.1 hrest
  cases hpair
  simp only [decide_eq_true_eq] at htiers
  have hchanged : ∀ {d d' : Db}, trustTierOf "s" d ≠ trustTierOf "s" d' → SpotChanged "s" d d' := by
    intro d d' hne hsame
    exact hne (by rw [trustTierOf, trustTierOf, hsame])
  have htime : DecayRun.InTime [Sample.firstDecay, Sample.nextDecay] := by
    simp [DecayRun.InTime, Sample.firstDecay, Sample.nextDecay]
  have hdays : ∀ x ∈ [Sample.firstDecay, Sample.nextDecay], 1 ≤ x.thresholdDays := by
    decide
  have hstart : Between (World.fresh Sample.unverified : State Unit) := rfl
  have hpaced := (decay_paced Sample.settings Sample.backend htime hdays hstart
    Sample.tiersChecked_unverified).2 [] Sample.firstDecay [] Sample.nextDecay [] _ t₁ t₁ t₂ "s" rfl
    (.nil _) ⟨r₁, hfirst⟩ (.nil _) ⟨r₂, hsecond⟩ (hchanged (by rw [htiers.1]; decide))
    (hchanged (by rw [htiers.1, htiers.2]; decide))
  exact ⟨t₁, t₂, ⟨r₁, hfirst⟩, ⟨r₂, hsecond⟩, htiers.1, htiers.2, hpaced⟩

end Vivac
