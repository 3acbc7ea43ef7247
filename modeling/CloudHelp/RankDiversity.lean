import CloudHelp.RankOrder

/-!
# Health and diversity of a plan

Two promises of the planner's comments, and exactly when it keeps them. A candidate is preferred
for its provider or ASN only if it is near the best score; but priorities and failures share one
number, so the window of 10,000 points can reach a candidate with more failures and a lower
priority number. And the loop remembers all providers and ASNs it has used, not the last ones, so
that once everything is used it goes by score alone, even if the next candidate repeats the last.
-/

namespace CloudHelp.Selector

open Manifest

variable {rt : Runtime} {document : Document} {observations : Observations} {now : ℤ}
  {options : Options} {t u : Selection.Turn Seen ScoredCandidate}

/-! ## Health -/

def failures (observations : Observations) (item : ScoredCandidate) : ℕ :=
  (observations.get item.candidate.endpoint.id).consecutiveFailures.toNat

/-- The choice has no more failures than the candidates it passes over, the best among them. -/
def HealthFirst (observations : Observations) (t : Selection.Turn Seen ScoredCandidate) : Prop :=
  ∀ passed ∈ t.remaining, less passed t.picked = true →
    failures observations t.picked ≤ failures observations passed

instance (observations : Observations) (t : Selection.Turn Seen ScoredCandidate) :
    Decidable (HealthFirst observations t) :=
  inferInstanceAs (Decidable (∀ passed ∈ t.remaining, less passed t.picked = true → _))

/-- Another candidate near the best is new in more respects, or in as many and ranked before. -/
def Outdone (t : Selection.Turn Seen ScoredCandidate) (item : ScoredCandidate) : Prop :=
  ∃ other ∈ t.remaining, Near t.remaining other ∧
    (novelty t.memory item < novelty t.memory other ∨
      novelty t.memory item = novelty t.memory other ∧ less other item = true)

/-- Whoever has more failures than a candidate ranked before is outdone. -/
def Guarded (observations : Observations) (t : Selection.Turn Seen ScoredCandidate) : Prop :=
  ∀ item ∈ t.remaining, Near t.remaining item →
    (∃ passed ∈ t.remaining, less passed item = true ∧
      failures observations passed < failures observations item) → Outdone t item

theorem not_outdone_picked (h : Chosen t.memory t.remaining t.picked) : ¬Outdone t t.picked := by
  rintro ⟨other, hmem, hnear, hnewer | ⟨hequal, hless⟩⟩
  · exact absurd (h.newest other hmem hnear) hnewer.not_ge
  · rcases h.first other hmem hnear hequal.symm with rfl | hafter
    · rw [not_less_of_less hless] at hless
      cases hless
    · rw [not_less_of_less hless] at hafter
      cases hafter

theorem outdone_of_ne (h : Chosen t.memory t.remaining t.picked) {item : ScoredCandidate}
    (hmem : item ∈ t.remaining) (hnear : Near t.remaining item) (hne : item ≠ t.picked) :
    Outdone t item := by
  refine ⟨t.picked, h.mem, h.near, ?_⟩
  rcases (h.newest item hmem hnear).lt_or_eq with hlt | heq
  · exact Or.inl hlt
  · exact Or.inr ⟨heq, (h.first item hmem hnear heq).resolve_left hne⟩

theorem healthFirst_iff (h : Chosen t.memory t.remaining t.picked) :
    HealthFirst observations t ↔ Guarded observations t := by
  constructor
  · rintro hhealth item hmem hnear ⟨passed, hpassed, hless, hfewer⟩
    apply outdone_of_ne h hmem hnear
    rintro rfl
    exact absurd (hhealth passed hpassed hless) hfewer.not_ge
  · intro hguarded passed hpassed hless
    by_contra hmore
    exact not_outdone_picked h
      (hguarded t.picked h.mem h.near ⟨passed, hpassed, hless, not_le.mp hmore⟩)

/-- More failures cost more than the window and 89 points of priority give back. -/
theorem failures_le_of_score {a b : Endpoint} {x y : Observation}
    (hpriority : b.priority.toNat < a.priority.toNat + 90)
    (hscore : score a x ≤ score b y + 10000) :
    x.consecutiveFailures.toNat ≤ y.consecutiveFailures.toNat := by
  unfold score at hscore
  dsimp only at hscore
  split_ifs at hscore <;> omega

theorem healthFirst_of_priorities (hvalid : validate rt document = .ok ())
    (hpriorities : ∀ a ∈ document.nodes.flatMap Node.endpoints,
      ∀ b ∈ document.nodes.flatMap Node.endpoints,
        eligible observations now options a = true → eligible observations now options b = true →
          b.priority.toNat < a.priority.toNat + 90)
    (ht : t ∈ selection rt document observations now options) : HealthFirst observations t := by
  intro passed hpassed _
  have hactive : ∀ item ∈ t.remaining,
      item ∈ scoredOffers observations now options (offers document.nodes) := fun item hitem =>
    (perm_activeCandidates document).mem_iff.mp ((Selection.picked_of_turn ht).2.subset hitem)
  have hendpoint : ∀ item ∈ scoredOffers observations now options (offers document.nodes),
      item.candidate.endpoint ∈ document.nodes.flatMap Node.endpoints := by
    intro item hitem
    rw [← map_endpoint_offers]
    exact List.mem_map_of_mem (mem_scoredOffers.mp hitem).1
  have hchosen := (chosen_of_turn hvalid ht).2
  have hpicked := hactive t.picked hchosen.mem
  have hother := hactive passed hpassed
  obtain ⟨_, heligible, hscore⟩ := mem_scoredOffers.mp hpicked
  obtain ⟨_, heligible', hscore'⟩ := mem_scoredOffers.mp hother
  have hnear := hchosen.near passed hpassed
  rw [hscore, hscore'] at hnear
  exact failures_le_of_score (hpriorities _ (hendpoint _ hpicked) _ (hendpoint _ hother) heligible
    heligible') hnear

/-- A turn of the selection puts health first exactly if every candidate near the best that has
more failures than one ranked before it is outdone. It always does if the priorities of the
eligible endpoints are less than 90 apart. -/
theorem rank_healthFirst_iff (hvalid : validate rt document = .ok ()) :
    (∀ t ∈ selection rt document observations now options,
      HealthFirst observations t ↔ Guarded observations t) ∧
    ((∀ a ∈ document.nodes.flatMap Node.endpoints, ∀ b ∈ document.nodes.flatMap Node.endpoints,
        eligible observations now options a = true → eligible observations now options b = true →
          b.priority.toNat < a.priority.toNat + 90) →
      ∀ t ∈ selection rt document observations now options, HealthFirst observations t) := by
  refine ⟨fun t ht => healthFirst_iff (chosen_of_turn hvalid ht).2, ?_⟩
  exact fun hpriorities t ht => healthFirst_of_priorities hvalid hpriorities ht

namespace Sample

def uneven : List Node :=
  [node "m" "p" 1 [endpoint "a" 195, endpoint "b" 200], node "n" "q" 2 [endpoint "c" 101]]

def failing : Observations := observed "c" ⟨1, 0, 0, false⟩

theorem valid_uneven : validate .toy (listing uneven) = .ok () := by decide +kernel

end Sample

/-- With `b` and `c` left, the loop passes over `b`, which has never failed, for `c`, which has. -/
theorem rank_prefers_failed :
    validate .toy (Sample.listing Sample.uneven) = .ok () ∧
      (rank .toy (Sample.listing Sample.uneven) Sample.failing 0 Sample.defaults).map
          (fun plan => plan.candidates.map fun c => c.endpoint.id) =
        .ok [str "a", str "c", str "b"] ∧
      ∃ t ∈ selection .toy (Sample.listing Sample.uneven) Sample.failing 0 Sample.defaults,
        t.remaining.map (fun item => (item.candidate.endpoint.id, failures Sample.failing item)) =
            [(str "b", 0), (str "c", 1)] ∧
          t.picked.candidate.endpoint.id = str "c" ∧ ¬HealthFirst Sample.failing t := by
  refine ⟨Sample.valid_uneven, ?_, ?_⟩
  · decide +kernel
  · decide

theorem rank_healthFirst_iff_uneven :
    validate .toy (Sample.listing Sample.uneven) = .ok () ∧
      ∀ t ∈ selection .toy (Sample.listing Sample.uneven) Sample.failing 0 Sample.defaults,
        HealthFirst Sample.failing t ↔ Guarded Sample.failing t :=
  ⟨Sample.valid_uneven, (rank_healthFirst_iff Sample.valid_uneven).1⟩

/-! ## Spread -/

/-- If a candidate near the best differs from the last choice in both respects, then the next choice
differs from it in one. -/
def Spread (t u : Selection.Turn Seen ScoredCandidate) : Prop :=
  (∃ item ∈ u.remaining, Near u.remaining item ∧
      item.candidate.provider ≠ t.picked.candidate.provider ∧
      item.candidate.asn ≠ t.picked.candidate.asn) →
    u.picked.candidate.provider ≠ t.picked.candidate.provider ∨
      u.picked.candidate.asn ≠ t.picked.candidate.asn

instance (t u : Selection.Turn Seen ScoredCandidate) : Decidable (Spread t u) :=
  inferInstanceAs (Decidable ((∃ item ∈ u.remaining, Near u.remaining item ∧ _ ≠ _ ∧ _ ≠ _) →
    _ ≠ _ ∨ _ ≠ _))

/-- A candidate near the best has a provider or an ASN that is not used yet, or the best differs
from the last choice, or no candidate near the best differs from it in both respects. -/
def CanSpread (front : List (Selection.Turn Seen ScoredCandidate))
    (t u : Selection.Turn Seen ScoredCandidate) : Prop :=
  (∃ item ∈ u.remaining, Near u.remaining item ∧
    (item.candidate.provider ∉ (front ++ [t]).map (fun t => t.picked.candidate.provider) ∨
      item.candidate.asn ∉ (front ++ [t]).map fun t => t.picked.candidate.asn)) ∨
  (∀ best, u.remaining.head? = some best →
    best.candidate.provider ≠ t.picked.candidate.provider ∨
      best.candidate.asn ≠ t.picked.candidate.asn) ∨
  ∀ item ∈ u.remaining, Near u.remaining item →
    item.candidate.provider = t.picked.candidate.provider ∨
      item.candidate.asn = t.picked.candidate.asn

theorem mem_foldl_add (l : List ScoredCandidate) (seen : Seen) :
    (∀ provider, provider ∈ (l.foldl Seen.add seen).providers ↔
      provider ∈ l.map (fun item => item.candidate.provider) ∨ provider ∈ seen.providers) ∧
    ∀ asn, asn ∈ (l.foldl Seen.add seen).asns ↔
      asn ∈ l.map (fun item => item.candidate.asn) ∨ asn ∈ seen.asns := by
  induction l generalizing seen with
  | nil => simp
  | cons item rest ih =>
      obtain ⟨hproviders, hasns⟩ := ih (seen.add item)
      rw [List.foldl_cons]
      refine ⟨fun provider => ?_, fun asn => ?_⟩
      · rw [hproviders, List.map_cons, List.mem_cons, Seen.add, List.mem_cons]
        tauto
      · rw [hasns, List.map_cons, List.mem_cons, Seen.add, List.mem_cons]
        tauto

/-- The loop has seen the providers and ASNs of what it has chosen. -/
theorem memory_of_split {front back : List (Selection.Turn Seen ScoredCandidate)}
    (h : selection rt document observations now options = front ++ u :: back) :
    (∀ provider, provider ∈ u.memory.providers ↔
      provider ∈ front.map fun t => t.picked.candidate.provider) ∧
    ∀ asn, asn ∈ u.memory.asns ↔ asn ∈ front.map fun t => t.picked.candidate.asn := by
  obtain ⟨_, _, hmemory, _⟩ := Selection.turns_split h
  obtain ⟨hproviders, hasns⟩ := mem_foldl_add (front.map Selection.Turn.picked) ⟨[], []⟩
  rw [hmemory]
  refine ⟨fun provider => ?_, fun asn => ?_⟩
  · rw [hproviders, List.map_map]
    simp [Function.comp_def]
  · rw [hasns, List.map_map]
    simp [Function.comp_def]

theorem novelty_pos {seen : Seen} {item : ScoredCandidate} :
    novelty seen item ≠ 0 ↔
      item.candidate.provider ∉ seen.providers ∨ item.candidate.asn ∉ seen.asns := by
  rw [Ne, novelty_eq_zero, Bool.not_eq_false, Bool.or_eq_true, Bool.not_eq_true', Bool.not_eq_true',
    Seen.providerSeen, Seen.asnSeen, decide_eq_false_iff_not, decide_eq_false_iff_not]

/-- Where nothing near the best is new, the best is chosen. -/
theorem picked_eq_best (hr : Ranked u.remaining) (h : Chosen u.memory u.remaining u.picked)
    (hold : ∀ item ∈ u.remaining, Near u.remaining item → novelty u.memory item = 0) :
    u.remaining.head? = some u.picked := by
  cases hl : u.remaining with
  | nil =>
      have := h.mem
      rw [hl] at this
      cases this
  | cons best rest =>
      rw [hl] at hr
      have hnear : Near u.remaining best := by
        rw [hl]
        exact (near_iff hr).mpr (Nat.le_add_right _ _)
      have hbest : best ∈ u.remaining := hl ▸ List.mem_cons_self
      have hequal := (hold best hbest hnear).trans (hold u.picked h.mem h.near).symm
      rcases h.first best hbest hnear hequal with rfl | hless
      · rfl
      · have hpicked := h.mem
        rw [hl] at hpicked
        rcases List.mem_cons.mp hpicked with heq | hrest
        · rw [heq]
          rfl
        · rw [not_less_of_less (List.rel_of_pairwise_cons hr hrest)] at hless
          cases hless

/-- A choice that is new in some respect differs from the last one. -/
theorem differs_of_new {front back : List (Selection.Turn Seen ScoredCandidate)}
    (h : selection rt document observations now options = (front ++ [t]) ++ u :: back)
    (hnew : novelty u.memory u.picked ≠ 0) :
    u.picked.candidate.provider ≠ t.picked.candidate.provider ∨
      u.picked.candidate.asn ≠ t.picked.candidate.asn := by
  obtain ⟨hproviders, hasns⟩ := memory_of_split h
  have hlast : t ∈ front ++ [t] := List.mem_append_right _ List.mem_cons_self
  rcases novelty_pos.mp hnew with hprovider | hasn
  · refine Or.inl fun heq => hprovider ?_
    rw [heq, hproviders]
    exact List.mem_map_of_mem hlast
  · refine Or.inr fun heq => hasn ?_
    rw [heq, hasns]
    exact List.mem_map_of_mem hlast

theorem spread_iff (hvalid : validate rt document = .ok ())
    {front back : List (Selection.Turn Seen ScoredCandidate)}
    (h : selection rt document observations now options = (front ++ [t]) ++ u :: back) :
    Spread t u ↔
      (∃ item ∈ u.remaining, Near u.remaining item ∧ novelty u.memory item ≠ 0) ∨
      (∀ best, u.remaining.head? = some best →
        best.candidate.provider ≠ t.picked.candidate.provider ∨
          best.candidate.asn ≠ t.picked.candidate.asn) ∨
      ∀ item ∈ u.remaining, Near u.remaining item →
        item.candidate.provider = t.picked.candidate.provider ∨
          item.candidate.asn = t.picked.candidate.asn := by
  have hu : u ∈ selection rt document observations now options := by
    rw [h]
    exact List.mem_append_right _ List.mem_cons_self
  obtain ⟨hr, hchosen⟩ := chosen_of_turn hvalid hu
  by_cases hnew : ∃ item ∈ u.remaining, Near u.remaining item ∧ novelty u.memory item ≠ 0
  · refine ⟨fun _ => Or.inl hnew, fun _ _ => differs_of_new h ?_⟩
    obtain ⟨item, hmem, hnear, hitem⟩ := hnew
    have := hchosen.newest item hmem hnear
    omega
  · have hold : ∀ item ∈ u.remaining, Near u.remaining item → novelty u.memory item = 0 :=
      fun item hmem hnear => not_not.mp fun hne => hnew ⟨item, hmem, hnear, hne⟩
    have hbest := picked_eq_best hr hchosen hold
    rw [or_iff_right hnew]
    constructor
    · intro hspread
      by_cases hapart : ∃ item ∈ u.remaining, Near u.remaining item ∧
          item.candidate.provider ≠ t.picked.candidate.provider ∧
          item.candidate.asn ≠ t.picked.candidate.asn
      · refine Or.inl fun best hhead => ?_
        rw [hbest] at hhead
        exact Option.some.inj hhead ▸ hspread hapart
      · refine Or.inr fun item hmem hnear => ?_
        by_contra hne
        rw [not_or] at hne
        exact hapart ⟨item, hmem, hnear, hne⟩
    · rintro (hdiffers | hsame) ⟨item, hmem, hnear, hprovider, hasn⟩
      · exact hdiffers u.picked hbest
      · rcases hsame item hmem hnear with heq | heq
        · exact absurd heq hprovider
        · exact absurd heq hasn

/-- Two consecutive candidates of a plan are spread exactly if the next one can be told by a new
provider or ASN, or the best happens to differ from the last. -/
theorem rank_spread_iff {plan : Plan}
    (hplan : rank rt document observations now options = .ok plan) :
    plan.candidates = (selection rt document observations now options).map (·.picked.candidate) ∧
    ∀ front t u back, selection rt document observations now options = front ++ t :: u :: back →
      (Spread t u ↔ CanSpread front t u) := by
  obtain ⟨hvalid, hcandidates⟩ := rank_eq_ok hplan
  refine ⟨hcandidates, fun front t u back h => ?_⟩
  have hsplit : selection rt document observations now options = (front ++ [t]) ++ u :: back := by
    rw [h, List.append_assoc]
    rfl
  obtain ⟨hproviders, hasns⟩ := memory_of_split hsplit
  simp only [CanSpread, spread_iff hvalid hsplit, novelty_pos, hproviders, hasns]

namespace Sample

def square : List Node :=
  [node "m" "p" 1 [endpoint "a" 1, endpoint "d" 4], node "n" "q" 2 [endpoint "b" 2, endpoint "c" 3]]

theorem rank_square : ∃ plan, rank .toy (listing square) unobserved 0 defaults = .ok plan :=
  exists_of_isOk (by decide +kernel)

end Sample

/-- After `a` and `b` both providers are used, and `c` follows `b` although `d`, at the other
provider, is only 1,000 points behind. -/
theorem rank_repeats_provider :
    (rank .toy (Sample.listing Sample.square) Sample.unobserved 0 Sample.defaults).map
        (fun plan => plan.candidates.map fun c => (c.endpoint.id, c.provider, c.asn)) =
      .ok [(str "a", str "p", 1), (str "b", str "q", 2), (str "c", str "q", 2),
        (str "d", str "p", 1)] ∧
    ∃ front t u back,
      selection .toy (Sample.listing Sample.square) Sample.unobserved 0 Sample.defaults =
        front ++ t :: u :: back ∧
      t.picked.candidate.endpoint.id = str "b" ∧ u.picked.candidate.endpoint.id = str "c" ∧
      ¬Spread t u := by
  refine ⟨by decide +kernel, ?_⟩
  have hturns : ((selection .toy (Sample.listing Sample.square) Sample.unobserved 0
      Sample.defaults)[1]?.bind fun t => (selection .toy (Sample.listing Sample.square)
        Sample.unobserved 0 Sample.defaults)[2]?.map fun u =>
          decide (t.picked.candidate.endpoint.id = str "b" ∧
            u.picked.candidate.endpoint.id = str "c" ∧ ¬Spread t u)) = some true := by
    decide
  obtain ⟨t, ht, hturns⟩ := Option.bind_eq_some_iff.mp hturns
  obtain ⟨u, hu, hturns⟩ := Option.map_eq_some_iff.mp hturns
  exact ⟨_, t, u, _, eq_take_append_of_getElem? ht hu, of_decide_eq_true hturns⟩

theorem rank_spread_iff_square : ∃ plan,
    rank .toy (Sample.listing Sample.square) Sample.unobserved 0 Sample.defaults = .ok plan ∧
      ∀ front t u back,
        selection .toy (Sample.listing Sample.square) Sample.unobserved 0 Sample.defaults =
          front ++ t :: u :: back → (Spread t u ↔ CanSpread front t u) := by
  obtain ⟨plan, hplan⟩ := Sample.rank_square
  exact ⟨plan, hplan, (rank_spread_iff hplan).2⟩

end CloudHelp.Selector
