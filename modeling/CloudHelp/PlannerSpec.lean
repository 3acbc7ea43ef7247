import CloudHelp.CatalogOrder
import CloudHelp.ManifestSpec
import CloudHelp.Planner

/-!
# What the planner collects and chooses

The pass over the catalog is a filter: `eligible` endpoints become scored candidates, and the ends
of the cooldowns of the others are folded into one instant (`surveyNodes_eq`). The sorted list is
strictly ordered, because no endpoint identifier occurs twice in a valid document
(`ranked_activeCandidates`). On such a list `mostDiverse` takes the first of those with the
greatest `novelty` among the candidates that are close enough to the best (`chosen_mostDiverse`).
-/

namespace CloudHelp.Selector

open Manifest

variable {rt : Runtime} {observations : Observations} {now : ℤ} {options : Options}

/-! ## The pass over the catalog -/

def candidateOf (node : Node) (endpoint : Endpoint) : Candidate :=
  ⟨node.id, node.provider, node.asn, endpoint⟩

/-- All endpoints of a catalog, in the order of the two loops. -/
def offers (nodes : List Node) : List Candidate :=
  nodes.flatMap fun node => node.endpoints.map (candidateOf node)

/-- Not an AmneziaWG endpoint while UDP is unavailable. -/
def usable (options : Options) (endpoint : Endpoint) : Bool :=
  !(decide (endpoint.transport = transportAmneziaWG) && !options.udpAvailable)

def cooling (observations : Observations) (now : ℤ) (endpoint : Endpoint) : Bool :=
  decide (now < (observations.get endpoint.id).cooldownUntil)

def eligible (observations : Observations) (now : ℤ) (options : Options) (endpoint : Endpoint) :
    Bool :=
  usable options endpoint && !cooling observations now endpoint

def scored (observations : Observations) (offer : Candidate) : ScoredCandidate :=
  ⟨offer, score offer.endpoint (observations.get offer.endpoint.id)⟩

def scoredOffers (observations : Observations) (now : ℤ) (options : Options)
    (l : List Candidate) : List ScoredCandidate :=
  (l.filter fun offer => eligible observations now options offer.endpoint).map (scored observations)

def cooldowns (observations : Observations) (now : ℤ) (options : Options) (l : List Candidate) :
    List ℤ :=
  (l.filter fun offer =>
    usable options offer.endpoint && cooling observations now offer.endpoint).map
      fun offer => (observations.get offer.endpoint.id).cooldownUntil

/-- The running minimum of the pass; the zero time stands for none so far. -/
def earliest (retryAt cooldownUntil : ℤ) : ℤ :=
  if Time.isZero retryAt = true ∨ cooldownUntil < retryAt then cooldownUntil else retryAt

def Survey.extend (observations : Observations) (now : ℤ) (options : Options) (survey : Survey)
    (l : List Candidate) : Survey :=
  ⟨survey.active ++ scoredOffers observations now options l,
    (cooldowns observations now options l).foldl earliest survey.retryAt⟩

theorem extend_append (survey : Survey) (l m : List Candidate) :
    survey.extend observations now options (l ++ m) =
      (survey.extend observations now options l).extend observations now options m := by
  simp [Survey.extend, scoredOffers, cooldowns]

theorem cooling_eq_true {endpoint : Endpoint} :
    cooling observations now endpoint = true ↔
      now < (observations.get endpoint.id).cooldownUntil := by
  rw [cooling, decide_eq_true_iff]

theorem mem_cooldowns {l : List Candidate} {c : ℤ} :
    c ∈ cooldowns observations now options l ↔
      ∃ offer ∈ l, usable options offer.endpoint = true ∧ now < c ∧
        (observations.get offer.endpoint.id).cooldownUntil = c := by
  simp only [cooldowns, List.mem_map, List.mem_filter, Bool.and_eq_true, cooling_eq_true]
  constructor
  · rintro ⟨offer, ⟨hmem, husable, hlt⟩, rfl⟩
    exact ⟨offer, hmem, husable, hlt, rfl⟩
  · rintro ⟨offer, hmem, husable, hlt, rfl⟩
    exact ⟨offer, ⟨hmem, husable, hlt⟩, rfl⟩

theorem usable_eq_false {endpoint : Endpoint} :
    usable options endpoint = false ↔
      endpoint.transport = transportAmneziaWG ∧ options.udpAvailable = false := by
  simp [usable]

theorem consider_eq (node : Node) (survey : Survey) (endpoint : Endpoint) :
    consider observations now options node survey endpoint =
      survey.extend observations now options [candidateOf node endpoint] := by
  unfold consider
  cases husable : usable options endpoint with
  | false =>
      rw [if_pos (usable_eq_false.mp husable)]
      simp [Survey.extend, scoredOffers, cooldowns, candidateOf, eligible, husable]
  | true =>
      have hudp := husable
      rw [← Bool.not_eq_false, usable_eq_false] at hudp
      rw [if_neg hudp]
      dsimp only
      cases hcool : cooling observations now endpoint with
      | false =>
          rw [if_neg (of_decide_eq_false hcool)]
          simp [Survey.extend, scoredOffers, cooldowns, scored, candidateOf, eligible, husable,
            hcool]
      | true =>
          rw [if_pos (of_decide_eq_true hcool)]
          simp only [Survey.extend, scoredOffers, cooldowns, candidateOf, eligible, husable, hcool,
            earliest, List.filter_cons, List.filter_nil, List.map_cons, List.map_nil,
            List.foldl_cons, List.foldl_nil, Bool.not_true, Bool.and_false, Bool.and_true,
            Bool.false_eq_true, if_true, if_false, List.append_nil]
          split_ifs <;> rfl

theorem considerAll_eq (node : Node) (l : List Endpoint) (survey : Survey) :
    l.foldl (consider observations now options node) survey =
      survey.extend observations now options (l.map (candidateOf node)) := by
  induction l generalizing survey with
  | nil => simp [Survey.extend, scoredOffers, cooldowns]
  | cons endpoint rest ih =>
      rw [List.foldl_cons, ih, consider_eq, ← extend_append, List.map_cons]
      rfl

/-- The pass is a filter and a fold over all endpoints. -/
theorem surveyNodes_eq (nodes : List Node) :
    surveyNodes observations now options nodes =
      ⟨scoredOffers observations now options (offers nodes),
        (cooldowns observations now options (offers nodes)).foldl earliest 0⟩ := by
  have hfold : ∀ survey : Survey, nodes.foldl (fun survey node =>
      node.endpoints.foldl (consider observations now options node) survey) survey =
        survey.extend observations now options (offers nodes) := by
    induction nodes with
    | nil => simp [offers, Survey.extend, scoredOffers, cooldowns]
    | cons node rest ih =>
        intro survey
        rw [List.foldl_cons, considerAll_eq, ih, ← extend_append]
        rfl
  exact hfold ⟨[], 0⟩

/-! ## The sorted list -/

def Ranked (l : List ScoredCandidate) : Prop := l.Pairwise fun a b => less a b = true

theorem strictWeak_less : StrictWeak less := strictWeak_lessBy _ _

theorem score_le_of_less {a b : ScoredCandidate} (h : less a b = true) : a.score ≤ b.score := by
  unfold less lessBy at h
  split_ifs at h with he
  · exact he.le
  · exact (of_decide_eq_true h).le

theorem not_less_of_less {a b : ScoredCandidate} (h : less a b = true) : less b a = false :=
  strictWeak_less.asymm a b h

theorem map_endpoint_offers (nodes : List Node) :
    (offers nodes).map Candidate.endpoint = nodes.flatMap Node.endpoints := by
  simp [offers, List.map_flatMap, Function.comp_def, candidateOf]

theorem nodup_offers {document : Document} (h : validate rt document = .ok ()) :
    ((offers document.nodes).map fun offer => offer.endpoint.id).Nodup := by
  have hids := nodup_endpointIDs_of_ok (validate_eq_ok.mp h).contents
  rwa [← map_endpoint_offers, List.map_map] at hids

theorem nodup_scoredOffers {l : List Candidate} (h : (l.map fun offer => offer.endpoint.id).Nodup) :
    ((scoredOffers observations now options l).map fun item =>
      item.candidate.endpoint.id).Nodup := by
  rw [scoredOffers, List.map_map]
  exact h.sublist (List.filter_sublist.map _)

theorem separates_less {l : List ScoredCandidate}
    (h : (l.map fun item => item.candidate.endpoint.id).Nodup) : Separates less l :=
  separates_lessBy (injOn_id h)

theorem activeCandidates_eq (document : Document) :
    activeCandidates rt document observations now options =
      rt.sort.run less (scoredOffers observations now options (offers document.nodes)) := by
  rw [activeCandidates, surveyNodes_eq]

theorem ranked_activeCandidates {document : Document} (h : validate rt document = .ok ()) :
    Ranked (activeCandidates rt document observations now options) := by
  have hnodup : ((scoredOffers observations now options (offers document.nodes)).map
      fun item => item.candidate.endpoint.id).Nodup := nodup_scoredOffers (nodup_offers h)
  rw [activeCandidates_eq]
  exact rt.sort.run_strict strictWeak_less (separates_less hnodup) hnodup.of_map

/-! ## One choice -/

def novelty (seen : Seen) (item : ScoredCandidate) : ℕ :=
  (!seen.providerSeen item).toNat + (!seen.asnSeen item).toNat

def Near (l : List ScoredCandidate) (item : ScoredCandidate) : Prop :=
  ∀ other ∈ l, item.score ≤ other.score + 10000

instance (l : List ScoredCandidate) (item : ScoredCandidate) : Decidable (Near l item) :=
  inferInstanceAs (Decidable (∀ other ∈ l, _ ≤ _))

/-- The first of the newest candidates among those near the best. -/
structure Chosen (seen : Seen) (l : List ScoredCandidate) (item : ScoredCandidate) : Prop where
  mem : item ∈ l
  near : Near l item
  newest : ∀ other ∈ l, Near l other → novelty seen other ≤ novelty seen item
  first : ∀ other ∈ l, Near l other → novelty seen other = novelty seen item →
    other = item ∨ less item other = true

theorem firstWithin_eq_some {maximumScore : ℕ} {accept : ScoredCandidate → Bool} {index found : ℕ}
    {l : List ScoredCandidate} (h : firstWithin maximumScore accept index l = some found) :
    ∃ front item back, l = front ++ item :: back ∧ found = index + front.length ∧
      item.score ≤ maximumScore ∧ accept item = true ∧ ∀ other ∈ front, accept other = false := by
  induction l generalizing index with
  | nil => cases h
  | cons item rest ih =>
      rw [firstWithin] at h
      split_ifs at h with hhigh haccept
      · refine ⟨[], item, rest, rfl, (Option.some.inj h).symm, not_lt.mp hhigh, haccept, ?_⟩
        exact fun _ hmem => (List.not_mem_nil hmem).elim
      · obtain ⟨front, other, back, rfl, rfl, hscore, hother, hfront⟩ := ih h
        refine ⟨item :: front, other, back, rfl, ?_, hscore, hother, ?_⟩
        · rw [List.length_cons]
          omega
        · exact List.forall_mem_cons.mpr ⟨Bool.eq_false_of_not_eq_true haccept, hfront⟩

theorem firstWithin_eq_none {maximumScore : ℕ} {accept : ScoredCandidate → Bool} {index : ℕ}
    {l : List ScoredCandidate} (hl : Ranked l)
    (h : firstWithin maximumScore accept index l = none) :
    ∀ item ∈ l, item.score ≤ maximumScore → accept item = false := by
  induction l generalizing index with
  | nil => exact fun _ hmem => (List.not_mem_nil hmem).elim
  | cons first rest ih =>
      obtain ⟨hfirst, hrest⟩ := List.pairwise_cons.mp hl
      rw [firstWithin] at h
      intro item hmem hscore
      have hlow : first.score ≤ item.score := by
        rcases List.mem_cons.mp hmem with rfl | hmem
        · exact le_rfl
        · exact score_le_of_less (hfirst item hmem)
      rw [if_neg (hlow.trans hscore).not_gt] at h
      split_ifs at h with haccept
      rcases List.mem_cons.mp hmem with rfl | hmem
      · exact Bool.eq_false_of_not_eq_true haccept
      · exact ih hrest h item hmem hscore

theorem near_iff {best : ScoredCandidate} {rest : List ScoredCandidate}
    (hl : Ranked (best :: rest)) {item : ScoredCandidate} :
    Near (best :: rest) item ↔ item.score ≤ best.score + 10000 := by
  refine ⟨fun h => h best List.mem_cons_self, fun h other hmem => ?_⟩
  rcases List.mem_cons.mp hmem with rfl | hmem
  · exact h
  · have := score_le_of_less (List.rel_of_pairwise_cons hl hmem)
    omega

theorem novelty_le_two (seen : Seen) (item : ScoredCandidate) : novelty seen item ≤ 2 := by
  unfold novelty
  cases seen.providerSeen item <;> cases seen.asnSeen item <;> decide

theorem novelty_eq_two {seen : Seen} {item : ScoredCandidate} :
    novelty seen item = 2 ↔ (!seen.providerSeen item && !seen.asnSeen item) = true := by
  unfold novelty
  cases seen.providerSeen item <;> cases seen.asnSeen item <;> decide

theorem novelty_eq_zero {seen : Seen} {item : ScoredCandidate} :
    novelty seen item = 0 ↔ (!seen.providerSeen item || !seen.asnSeen item) = false := by
  unfold novelty
  cases seen.providerSeen item <;> cases seen.asnSeen item <;> decide

theorem chosen_of_split {seen : Seen} {front back : List ScoredCandidate} {item : ScoredCandidate}
    (hl : Ranked (front ++ item :: back)) (hnear : Near (front ++ item :: back) item)
    (hnewest : ∀ other ∈ front ++ item :: back, Near (front ++ item :: back) other →
      novelty seen other ≤ novelty seen item)
    (hfront : ∀ other ∈ front, novelty seen other < novelty seen item) :
    Chosen seen (front ++ item :: back) item where
  mem := List.mem_append_right _ List.mem_cons_self
  near := hnear
  newest := hnewest
  first := by
    intro other hmem _ heq
    obtain ⟨_, hback, _⟩ := List.pairwise_append.mp hl
    rcases List.mem_append.mp hmem with hmem | hmem
    · exact absurd heq (hfront other hmem).ne
    · rcases List.mem_cons.mp hmem with rfl | hmem
      · exact Or.inl rfl
      · exact Or.inr (List.rel_of_pairwise_cons hback hmem)

/-- What `mostDiverse` finds, as a split of the list. -/
theorem mostDiverse_split (seen : Seen) {l : List ScoredCandidate} (hl : Ranked l) (hne : l ≠ []) :
    ∃ front item back, l = front ++ item :: back ∧ mostDiverse seen l = front.length ∧
      Chosen seen l item := by
  cases l with
  | nil => exact absurd rfl hne
  | cons best rest =>
      cases htwo : firstWithin (best.score + 10000)
          (fun item => !seen.providerSeen item && !seen.asnSeen item) 0 (best :: rest) with
      | some index =>
          obtain ⟨front, item, back, hsplit, rfl, hscore, hnew, hfront⟩ := firstWithin_eq_some htwo
          refine ⟨front, item, back, hsplit, by simp [mostDiverse, htwo], ?_⟩
          have hnear := (near_iff hl).mpr hscore
          rw [← novelty_eq_two] at hnew
          rw [hsplit] at hl hnear ⊢
          refine chosen_of_split hl hnear (fun other _ _ => ?_) fun other hmem => ?_
          · rw [hnew]
            exact novelty_le_two seen other
          · have hold := hfront other hmem
            rw [← Bool.not_eq_true, ← novelty_eq_two] at hold
            have := novelty_le_two seen other
            omega
      | none =>
          -- no candidate near the best is new in both respects
          have hbelow : ∀ other ∈ best :: rest, Near (best :: rest) other →
              novelty seen other ≤ 1 := by
            intro other hmem hnear
            have hold := firstWithin_eq_none hl htwo other hmem ((near_iff hl).mp hnear)
            rw [← Bool.not_eq_true, ← novelty_eq_two] at hold
            have := novelty_le_two seen other
            omega
          cases hone : firstWithin (best.score + 10000)
              (fun item => !seen.providerSeen item || !seen.asnSeen item) 0 (best :: rest) with
          | some index =>
              obtain ⟨front, item, back, hsplit, rfl, hscore, hnew, hfront⟩ :=
                firstWithin_eq_some hone
              refine ⟨front, item, back, hsplit, by simp [mostDiverse, htwo, hone], ?_⟩
              have hnear := (near_iff hl).mpr hscore
              rw [← Bool.not_eq_false, ← novelty_eq_zero] at hnew
              rw [hsplit] at hl hnear hbelow ⊢
              refine chosen_of_split hl hnear (fun other hmem hother => ?_) fun other hmem => ?_
              · have := hbelow other hmem hother
                omega
              · have hold := novelty_eq_zero.mpr (hfront other hmem)
                omega
          | none =>
              refine ⟨[], best, rest, rfl, by simp [mostDiverse, htwo, hone], ?_⟩
              have hnear := (near_iff hl).mpr (Nat.le_add_right best.score 10000)
              change Chosen seen ([] ++ best :: rest) best
              refine chosen_of_split hl hnear (fun other hmem hother => ?_) ?_
              · have hold := novelty_eq_zero.mpr
                  (firstWithin_eq_none hl hone other hmem ((near_iff hl).mp hother))
                omega
              · exact fun _ hmem => (List.not_mem_nil hmem).elim

/-! ## The loop -/

theorem mostDiverse_lt (seen : Seen) (l : List ScoredCandidate) (hne : l ≠ []) :
    mostDiverse seen l < l.length := by
  have hbound : ∀ accept : ScoredCandidate → Bool, ∀ maximumScore found,
      firstWithin maximumScore accept 0 l = some found → found < l.length := by
    intro accept maximumScore found h
    obtain ⟨front, item, back, rfl, rfl, _⟩ := firstWithin_eq_some h
    rw [List.length_append, List.length_cons]
    omega
  cases l with
  | nil => exact absurd rfl hne
  | cons best rest =>
      unfold mostDiverse
      dsimp only
      split
      · exact hbound _ _ _ ‹_›
      · split
        · exact hbound _ _ _ ‹_›
        · exact Nat.succ_pos _

/-- At every turn the loop takes the first of the newest candidates near the best. -/
theorem chosen_of_turn {document : Document} (h : validate rt document = .ok ())
    {t : Selection.Turn Seen ScoredCandidate}
    (ht : t ∈ selection rt document observations now options) :
    Ranked t.remaining ∧ Chosen t.memory t.remaining t.picked := by
  obtain ⟨hpicked, hsub⟩ := Selection.picked_of_turn ht
  have hranked : Ranked t.remaining := List.Pairwise.sublist hsub (ranked_activeCandidates h)
  have hne : t.remaining ≠ [] := by
    intro hnil
    rw [hnil] at hpicked
    cases hpicked
  obtain ⟨front, item, back, hsplit, hindex, hchosen⟩ := mostDiverse_split t.memory hranked hne
  rw [hindex] at hpicked
  have hitem : t.remaining[front.length]? = some item := by
    rw [hsplit]
    simp
  rw [hitem] at hpicked
  exact ⟨hranked, Option.some.inj hpicked ▸ hchosen⟩

theorem rank_of_valid {document : Document} (h : validate rt document = .ok ())
    (hlimit : 1 ≤ limit options ∧ limit options ≤ 16) :
    rank rt document observations now options = .ok
      { candidates := (selection rt document observations now options).map (·.picked.candidate)
        retryAt :=
          (cooldowns observations now options (offers document.nodes)).foldl earliest 0 } := by
  have hbad : ¬(limit options < 1 ∨ 16 < limit options) := by omega
  rw [rank, h]
  dsimp only
  rw [if_neg hbad, surveyNodes_eq]

/-- A plan comes from a valid document and holds what the loop has chosen. -/
theorem rank_eq_ok {document : Document} {plan : Plan}
    (h : rank rt document observations now options = .ok plan) :
    validate rt document = .ok () ∧
      plan.candidates = (selection rt document observations now options).map
        (·.picked.candidate) := by
  unfold rank at h
  cases hvalid : validate rt document with
  | error e =>
      rw [hvalid] at h
      cases h
  | ok u =>
      simp only [hvalid] at h
      split_ifs at h
      rw [← Except.ok.inj h]
      exact ⟨rfl, rfl⟩

end CloudHelp.Selector
