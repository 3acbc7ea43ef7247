import CloudHelp.RankOrder

/-!
# When a plan changes

As time passes, an endpoint becomes eligible when its cooldown ends and stays so, and nothing else
about a plan depends on the time. `RetryAt` is the earliest of those ends, unless the clock stands
before the zero time. A client that sleeps until then misses nothing.
-/

namespace CloudHelp.Selector

open Manifest

variable {rt : Runtime} {document : Document} {observations : Observations} {now later : ℤ}
  {options : Options} {plan : Plan}

/-! ## The passage of time -/

def eligibleEndpoints (document : Document) (observations : Observations) (now : ℤ)
    (options : Options) : Set Endpoint :=
  {endpoint | endpoint ∈ document.nodes.flatMap Node.endpoints ∧
    eligible observations now options endpoint = true}

theorem eligible_mono (h : now ≤ later) {endpoint : Endpoint}
    (he : eligible observations now options endpoint = true) :
    eligible observations later options endpoint = true := by
  rw [eligible, Bool.and_eq_true, Bool.not_eq_true', ← Bool.not_eq_true, cooling_eq_true] at he ⊢
  obtain ⟨husable, hdone⟩ := he
  refine ⟨husable, ?_⟩
  omega

/-- Until the first cooldown ends, the same usable endpoints are in one. -/
theorem cooling_eq_of_before {l : List Candidate} (hle : now ≤ later)
    (hbefore : ∀ c ∈ cooldowns observations now options l, later < c) {offer : Candidate}
    (hmem : offer ∈ l) (husable : usable options offer.endpoint = true) :
    cooling observations later offer.endpoint = cooling observations now offer.endpoint := by
  rw [Bool.eq_iff_iff, cooling_eq_true, cooling_eq_true]
  constructor
  · intro hlt
    omega
  · intro hlt
    apply hbefore
    exact mem_cooldowns.mpr ⟨offer, hmem, husable, hlt, rfl⟩

theorem survey_eq_of_before {l : List Candidate} (hle : now ≤ later)
    (hbefore : ∀ c ∈ cooldowns observations now options l, later < c) :
    scoredOffers observations later options l = scoredOffers observations now options l ∧
      cooldowns observations later options l = cooldowns observations now options l := by
  have hsame : ∀ offer ∈ l, usable options offer.endpoint = true →
      cooling observations later offer.endpoint = cooling observations now offer.endpoint :=
    fun offer hmem => cooling_eq_of_before hle hbefore hmem
  constructor
  · unfold scoredOffers
    congr 1
    apply List.filter_congr
    intro offer hmem
    cases husable : usable options offer.endpoint with
    | false => simp only [eligible, husable, Bool.false_and]
    | true => rw [eligible, eligible, hsame offer hmem husable]
  · unfold cooldowns
    congr 1
    apply List.filter_congr
    intro offer hmem
    cases husable : usable options offer.endpoint with
    | false => rw [Bool.false_and, Bool.false_and]
    | true => rw [hsame offer hmem husable]

/-- Until the first cooldown ends, the plan is the same. -/
theorem rank_eq_of_before (hle : now ≤ later)
    (hbefore : ∀ c ∈ cooldowns observations now options (offers document.nodes), later < c) :
    rank rt document observations later options = rank rt document observations now options := by
  obtain ⟨hscored, hcooldowns⟩ := survey_eq_of_before hle hbefore
  have hselection : selection rt document observations later options =
      selection rt document observations now options := by
    rw [selection, selection, activeCandidates_eq, activeCandidates_eq, hscored]
  rw [rank, rank, surveyNodes_eq, surveyNodes_eq, hselection, hcooldowns]

/-! ## The time to retry -/

theorem limit_of_ok (h : rank rt document observations now options = .ok plan) :
    1 ≤ limit options ∧ limit options ≤ 16 := by
  by_contra hlimit
  have hbad : limit options < 1 ∨ 16 < limit options := by omega
  simp only [rank, (rank_eq_ok h).1, if_pos hbad] at h
  cases h

theorem retryAt_of_ok (h : rank rt document observations now options = .ok plan) :
    plan.retryAt =
      (cooldowns observations now options (offers document.nodes)).foldl earliest 0 := by
  rw [rank_of_valid (rank_eq_ok h).1 (limit_of_ok h)] at h
  rw [← Except.ok.inj h]

theorem candidates_eq_nil (h : rank rt document observations now options = .ok plan) :
    plan.candidates = [] ↔ eligibleEndpoints document observations now options = ∅ := by
  have hlimit := (limit_of_ok h).1
  have hlength : plan.candidates.length = min (limit options).toNat
      ((document.nodes.flatMap Node.endpoints).filter
        (eligible observations now options)).length := by
    rw [(rank_eq_ok h).2, List.length_map, length_selection]
  rw [← List.length_eq_zero_iff, hlength, Set.eq_empty_iff_forall_notMem]
  constructor
  · intro hzero endpoint hmem
    have hnone : (document.nodes.flatMap Node.endpoints).filter
        (eligible observations now options) = [] := by
      apply List.length_eq_zero_iff.mp
      omega
    exact List.filter_eq_nil_iff.mp hnone endpoint hmem.1 hmem.2
  · intro hnone
    have hnil : (document.nodes.flatMap Node.endpoints).filter
        (eligible observations now options) = [] := by
      apply List.filter_eq_nil_iff.mpr
      exact fun endpoint hmem heligible => hnone endpoint ⟨hmem, heligible⟩
    rw [hnil, List.length_nil, Nat.min_zero]

/-- A clock that does not stand before the zero time tells no cooldown from the earliest one. -/
theorem earliest_cooldowns (hnow : 0 ≤ now) (observations : Observations) (options : Options)
    (l : List Candidate) :
    (Time.isZero ((cooldowns observations now options l).foldl earliest 0) = true ∧
        cooldowns observations now options l = []) ∨
      (Time.isZero ((cooldowns observations now options l).foldl earliest 0) = false ∧
        (cooldowns observations now options l).foldl earliest 0 ∈
          cooldowns observations now options l ∧
        ∀ c ∈ cooldowns observations now options l,
          (cooldowns observations now options l).foldl earliest 0 ≤ c) := by
  have hpos : ∀ c ∈ cooldowns observations now options l, 0 < c :=
    fun c => pos_of_mem_cooldowns hnow
  by_cases hne : cooldowns observations now options l = []
  · rw [hne]
    exact Or.inl ⟨rfl, rfl⟩
  · obtain ⟨hmem, hmin⟩ := earliest_spec hne
    refine Or.inr ⟨?_, hmem, hmin (Or.inr fun hzero => lt_irrefl 0 (hpos 0 hzero))⟩
    have := hpos _ hmem
    rw [Time.isZero, beq_eq_false_iff_ne]
    omega

/-- The end of a cooldown makes one more endpoint eligible. -/
theorem eligibleEndpoints_ssubset {c : ℤ}
    (hc : c ∈ cooldowns observations now options (offers document.nodes)) :
    eligibleEndpoints document observations now options ⊂
      eligibleEndpoints document observations c options := by
  obtain ⟨offer, hmem, husable, hlt, huntil⟩ := mem_cooldowns.mp hc
  have hendpoint : offer.endpoint ∈ document.nodes.flatMap Node.endpoints := by
    rw [← map_endpoint_offers]
    exact List.mem_map_of_mem hmem
  apply (Set.ssubset_iff_of_subset ?_).mpr
  · refine ⟨offer.endpoint, ⟨hendpoint, ?_⟩, ?_⟩
    · simp [eligible, husable, cooling, huntil]
    · rintro ⟨_, heligible⟩
      simp [eligible, husable, cooling, huntil, hlt.not_ge] at heligible
  · exact fun endpoint h => ⟨h.1, eligible_mono hlt.le h.2⟩

/-- `RetryAt` is the next time at which the plan can gain a candidate. -/
theorem rank_until_retryAt (hnow : 0 ≤ now)
    (h : rank rt document observations now options = .ok plan) :
    (Time.isZero plan.retryAt = false →
      now < plan.retryAt ∧
      (∀ instant, now ≤ instant → instant < plan.retryAt →
        rank rt document observations instant options = .ok plan) ∧
      eligibleEndpoints document observations now options ⊂
        eligibleEndpoints document observations plan.retryAt options ∧
      ∃ next, rank rt document observations plan.retryAt options = .ok next ∧
        next.candidates ≠ []) ∧
    (Time.isZero plan.retryAt = true →
      ∀ instant, now ≤ instant → rank rt document observations instant options = .ok plan) := by
  have hretry := retryAt_of_ok h
  rcases earliest_cooldowns hnow observations options (offers document.nodes) with
    ⟨hzero, hnone⟩ | ⟨hzero, hmem, hmin⟩
  · rw [← hretry] at hzero
    rw [hzero]
    refine ⟨fun hfalse => absurd hfalse (by decide), fun _ instant hle => ?_⟩
    rw [rank_eq_of_before hle, h]
    rw [hnone]
    exact fun c hc => absurd hc List.not_mem_nil
  · rw [← hretry] at hzero hmem hmin
    rw [hzero]
    refine ⟨fun _ => ?_, fun htrue => absurd htrue (by decide)⟩
    have hgrow := eligibleEndpoints_ssubset hmem
    refine ⟨?_, fun instant hle hlt => ?_, hgrow, ?_⟩
    · obtain ⟨_, _, _, hlt, _⟩ := mem_cooldowns.mp hmem
      exact hlt
    · rw [rank_eq_of_before hle, h]
      intro c hc
      exact hlt.trans_le (hmin c hc)
    · have hnext : rank rt document observations plan.retryAt options = .ok _ :=
        rank_of_valid (rank_eq_ok h).1 (limit_of_ok h)
      refine ⟨_, hnext, ?_⟩
      rw [ne_eq, candidates_eq_nil hnext]
      intro hempty
      rw [hempty] at hgrow
      exact hgrow.2 (Set.empty_subset _)

/-- One endpoint cools down until 7. At 5 it is left out, and so it is at 6. -/
theorem rank_until_retryAt_pair :
    ∃ plan, rank .toy (Sample.listing Sample.pair) (Sample.observed "c" ⟨1, 7, 0, false⟩) 5
        Sample.defaults = .ok plan ∧
      plan.retryAt = 7 ∧
      rank .toy (Sample.listing Sample.pair) (Sample.observed "c" ⟨1, 7, 0, false⟩) 6
        Sample.defaults = .ok plan ∧
      (Sample.endpoint "c" 3) ∈ eligibleEndpoints (Sample.listing Sample.pair)
        (Sample.observed "c" ⟨1, 7, 0, false⟩) 7 Sample.defaults := by
  obtain ⟨plan, hplan⟩ := exists_of_isOk (show (rank .toy (Sample.listing Sample.pair)
    (Sample.observed "c" ⟨1, 7, 0, false⟩) 5 Sample.defaults).isOk = true by decide +kernel)
  have hretry : plan.retryAt = 7 := (retryAt_of_ok hplan).trans (by decide)
  have huntil := (rank_until_retryAt (by decide) hplan).1 (by rw [hretry]; decide)
  rw [hretry] at huntil
  refine ⟨plan, hplan, hretry, huntil.2.1 6 (by decide) (by decide), ?_⟩
  exact ⟨by decide, by decide⟩

end CloudHelp.Selector
