import CloudHelp.PlannerSpec

/-!
# What a plan contains, and what it does not depend on

A plan holds as many eligible endpoints as it may, and none of them is more than 10,000 points
behind one that comes later or is left out. Its candidates do not depend on the order of the
catalog. Neither does the time to retry, except where the zero time, which stands for no cooldown,
is itself the end of one.
-/

namespace CloudHelp.Selector

open Manifest

variable {rt : Runtime} {document document' : Document} {observations observations' : Observations}
  {now : ℤ} {options : Options}

/-! ## The candidates of a plan -/

theorem mem_offers {nodes : List Node} {offer : Candidate} :
    offer ∈ offers nodes ↔
      ∃ node ∈ nodes, ∃ endpoint ∈ node.endpoints, candidateOf node endpoint = offer := by
  simp [offers]

theorem mem_scoredOffers {l : List Candidate} {item : ScoredCandidate} :
    item ∈ scoredOffers observations now options l ↔
      item.candidate ∈ l ∧ eligible observations now options item.candidate.endpoint = true ∧
        item.score = score item.candidate.endpoint
          (observations.get item.candidate.endpoint.id) := by
  simp only [scoredOffers, List.mem_map, List.mem_filter, scored]
  constructor
  · rintro ⟨offer, ⟨hmem, heligible⟩, rfl⟩
    exact ⟨hmem, heligible, rfl⟩
  · rintro ⟨hmem, heligible, hscore⟩
    refine ⟨item.candidate, ⟨hmem, heligible⟩, ?_⟩
    rw [← hscore]

theorem perm_activeCandidates (document : Document) :
    (activeCandidates rt document observations now options).Perm
      (scoredOffers observations now options (offers document.nodes)) := by
  rw [activeCandidates_eq]
  exact rt.sort.perm _ _

theorem length_scoredOffers (nodes : List Node) :
    (scoredOffers observations now options (offers nodes)).length =
      ((nodes.flatMap Node.endpoints).filter (eligible observations now options)).length := by
  rw [← map_endpoint_offers, List.filter_map, List.length_map, scoredOffers, List.length_map]
  rfl

/-- The scored candidates are those that are chosen and those that are left. -/
theorem perm_selection (rt : Runtime) (document : Document) (observations : Observations) (now : ℤ)
    (options : Options) :
    ∃ left, ((selection rt document observations now options).map Selection.Turn.picked ++
      left).Perm (scoredOffers observations now options (offers document.nodes)) :=
  ⟨_, (Selection.perm_turns mostDiverse Seen.add (limit options).toNat ⟨[], []⟩
    (activeCandidates rt document observations now options)).trans (perm_activeCandidates document)⟩

theorem picked_mem {t : Selection.Turn Seen ScoredCandidate}
    (ht : t ∈ selection rt document observations now options) :
    t.picked ∈ scoredOffers observations now options (offers document.nodes) := by
  obtain ⟨left, hperm⟩ := perm_selection rt document observations now options
  exact hperm.mem_iff.mp (List.mem_append_left _ (List.mem_map_of_mem ht))

theorem length_selection (document : Document) :
    (selection rt document observations now options).length =
      min (limit options).toNat
        ((document.nodes.flatMap Node.endpoints).filter
          (eligible observations now options)).length := by
  rw [selection, Selection.length_turns mostDiverse_lt, (perm_activeCandidates document).length_eq,
    length_scoredOffers]

/-- Nothing that is left when a candidate is chosen is more than 10,000 points ahead of it. -/
theorem score_le_of_left (hvalid : validate rt document = .ok ())
    {front back : List (Selection.Turn Seen ScoredCandidate)}
    {t : Selection.Turn Seen ScoredCandidate}
    (h : selection rt document observations now options = front ++ t :: back)
    {item : ScoredCandidate}
    (hitem : item ∈ scoredOffers observations now options (offers document.nodes))
    (hfront : item ∉ front.map Selection.Turn.picked) : t.picked.score ≤ item.score + 10000 := by
  have ht : t ∈ selection rt document observations now options := by
    rw [h]
    exact List.mem_append_right _ List.mem_cons_self
  obtain ⟨_, _, _, _, hperm⟩ := Selection.turns_split h
  have hmem := (hperm.trans (perm_activeCandidates document)).mem_iff.mpr hitem
  exact (chosen_of_turn hvalid ht).2.near item ((List.mem_append.mp hmem).resolve_left hfront)

/-- The plan for a valid document and valid options: eligible endpoints under their own nodes, each
once, as many as there are or may be, and no more than 10,000 points behind what comes later or is
left out. -/
theorem rank_selects (hvalid : validate rt document = .ok ())
    (hlimit : 1 ≤ limit options ∧ limit options ≤ 16) :
    ∃ plan, rank rt document observations now options = .ok plan ∧
      (∀ c ∈ plan.candidates, ∃ node ∈ document.nodes, c.endpoint ∈ node.endpoints ∧
        eligible observations now options c.endpoint = true ∧ c.nodeID = node.id ∧
        c.provider = node.provider ∧ c.asn = node.asn) ∧
      (plan.candidates.map fun c => c.endpoint.id).Nodup ∧
      plan.candidates.length = min (limit options).toNat
        ((document.nodes.flatMap Node.endpoints).filter
          (eligible observations now options)).length ∧
      ∀ front c back, plan.candidates = front ++ c :: back →
        ∀ node ∈ document.nodes, ∀ d ∈ node.endpoints,
          eligible observations now options d = true → d ∉ front.map Candidate.endpoint →
            score c.endpoint (observations.get c.endpoint.id) ≤
              score d (observations.get d.id) + 10000 := by
  refine ⟨_, rank_of_valid hvalid hlimit, fun c hc => ?_, ?_, ?_, ?_⟩
  · obtain ⟨t, ht, rfl⟩ := List.mem_map.mp hc
    obtain ⟨hoffer, heligible, _⟩ := mem_scoredOffers.mp (picked_mem ht)
    obtain ⟨node, hnode, endpoint, hendpoint, he⟩ := mem_offers.mp hoffer
    rw [← he] at heligible ⊢
    exact ⟨node, hnode, hendpoint, heligible, rfl, rfl, rfl⟩
  · obtain ⟨left, hperm⟩ := perm_selection rt document observations now options
    have hids := (hperm.map fun item => item.candidate.endpoint.id).nodup_iff.mpr
      (nodup_scoredOffers (nodup_offers hvalid))
    rw [List.map_append, List.map_map] at hids
    rw [List.map_map]
    exact hids.of_append_left
  · rw [List.length_map]
    exact length_selection document
  · intro front c back hplan node hnode d hd heligible hfront
    obtain ⟨turns, rest, hturns, rfl, hrest⟩ := List.map_eq_append_iff.mp hplan
    obtain ⟨t, later, rfl, rfl, rfl⟩ := List.map_eq_cons_iff.mp hrest
    have hitem : scored observations (candidateOf node d) ∈
        scoredOffers observations now options (offers document.nodes) :=
      mem_scoredOffers.mpr ⟨mem_offers.mpr ⟨node, hnode, d, hd, rfl⟩, heligible, rfl⟩
    have hscore := score_le_of_left hvalid hturns hitem fun hmem => hfront ?_
    · have ht : t ∈ selection rt document observations now options := by
        rw [hturns]
        exact List.mem_append_right _ List.mem_cons_self
      rw [(mem_scoredOffers.mp (picked_mem ht)).2.2] at hscore
      exact hscore
    · obtain ⟨u, hu, he⟩ := List.mem_map.mp hmem
      rw [List.map_map, List.mem_map]
      exact ⟨u, hu, congrArg (fun item => item.candidate.endpoint) he⟩

namespace Sample

def endpoint (id : String) (priority : UInt16) : Endpoint :=
  ⟨str id, transportAmneziaWG, str "192.0.2.1:443", [], str "c", priority⟩

def node (id provider : String) (asn : UInt32) (endpoints : List Endpoint) : Node :=
  ⟨str id, str "r", str "DE", str provider, asn, endpoints⟩

def listing (nodes : List Node) : Document :=
  ⟨schemaVersion, 1, 1, Duration.hour, 2 * Duration.hour, Manifest.Sample.rotated,
    Manifest.Sample.catalog.discovery, nodes⟩

def pair : List Node :=
  [node "m" "p" 1 [endpoint "a" 1, endpoint "b" 2], node "n" "q" 2 [endpoint "c" 3]]

def defaults : Options := ⟨true, 0⟩

def unobserved : Observations := fun _ => none

theorem valid_pair : validate .toy (listing pair) = .ok () := by decide +kernel

end Sample

theorem rank_selects_pair : ∃ plan,
    rank .toy (Sample.listing Sample.pair) Sample.unobserved 0 Sample.defaults = .ok plan ∧
      plan.candidates.length = 3 := by
  obtain ⟨plan, hplan, _, _, hlength, _⟩ :=
    rank_selects Sample.valid_pair
      (by decide : 1 ≤ limit Sample.defaults ∧ limit Sample.defaults ≤ 16)
  exact ⟨plan, hplan, hlength.trans (by decide)⟩

/-! ## The order of the catalog -/

/-- The same document up to the order of nodes and of the endpoints inside a node. -/
def Reordered (d d' : Document) : Prop :=
  { d with nodes := d'.nodes } = d' ∧
    Multiset.Rel Node.Reordered (d.nodes : Multiset Node) (d'.nodes : Multiset Node)

theorem candidateOf_eq_of_reordered {n m : Node} (h : n.Reordered m) :
    candidateOf n = candidateOf m := by
  rw [← h.1]
  rfl

theorem offers_perm {l m : List Node}
    (h : Multiset.Rel Node.Reordered (l : Multiset Node) (m : Multiset Node)) :
    (offers l).Perm (offers m) := by
  have hbind : ∀ nodes : List Node, (offers nodes : Multiset Candidate) =
      (nodes : Multiset Node).bind fun node => (node.endpoints.map (candidateOf node) : List _) :=
    fun nodes => (Multiset.coe_bind nodes _).symm
  rw [← Multiset.coe_eq_coe, hbind, hbind, ← Multiset.rel_eq]
  refine Multiset.rel_bind (fun n m hr => ?_) h
  rw [Multiset.rel_eq, Multiset.coe_eq_coe, candidateOf_eq_of_reordered hr]
  exact hr.2.map _

/-- Observations matter only at the identifiers of the candidates. -/
theorem scoredOffers_congr (now : ℤ) (options : Options) {l : List Candidate}
    (h : ∀ offer ∈ l, observations offer.endpoint.id = observations' offer.endpoint.id) :
    scoredOffers observations now options l = scoredOffers observations' now options l ∧
      cooldowns observations now options l = cooldowns observations' now options l := by
  have hget : ∀ offer ∈ l,
      observations.get offer.endpoint.id = observations'.get offer.endpoint.id :=
    fun offer hmem => congrArg (Option.getD · _) (h offer hmem)
  have hcooling : ∀ offer ∈ l,
      cooling observations now offer.endpoint = cooling observations' now offer.endpoint := by
    intro offer hmem
    rw [cooling, cooling, hget offer hmem]
  constructor
  · unfold scoredOffers
    rw [List.filter_congr fun offer hmem => by rw [eligible, hcooling offer hmem]]
    refine List.map_congr_left fun offer hmem => ?_
    rw [scored, hget offer (List.mem_of_mem_filter hmem)]
    rfl
  · unfold cooldowns
    rw [List.filter_congr fun offer hmem => by rw [hcooling offer hmem]]
    refine List.map_congr_left fun offer hmem => ?_
    rw [hget offer (List.mem_of_mem_filter hmem)]

theorem selection_eq_of_perm (hvalid : validate rt document = .ok ())
    (hp : (scoredOffers observations now options (offers document.nodes)).Perm
      (scoredOffers observations' now options (offers document'.nodes))) :
    selection rt document observations now options =
      selection rt document' observations' now options := by
  rw [selection, selection, activeCandidates_eq, activeCandidates_eq]
  rw [rt.sort.run_eq_of_perm strictWeak_less
    (separates_less (nodup_scoredOffers (nodup_offers hvalid))) hp]

/-- The zero time is not the earliest of different instants. -/
def Unambiguous (l : List ℤ) : Prop := 0 ∈ l → (∃ c ∈ l, c < 0) ∨ ∀ c ∈ l, c = 0

theorem pos_of_mem_cooldowns (hnow : 0 ≤ now) {l : List Candidate} {c : ℤ}
    (hc : c ∈ cooldowns observations now options l) : 0 < c := by
  obtain ⟨_, _, _, hlt, _⟩ := mem_cooldowns.mp hc
  omega

/-- The running minimum is one of the instants, and the earliest unless the zero time is met. -/
theorem earliest_spec {l : List ℤ} (hne : l ≠ []) :
    l.foldl earliest 0 ∈ l ∧
      ((∃ c ∈ l, c < 0) ∨ 0 ∉ l → ∀ c ∈ l, l.foldl earliest 0 ≤ c) := by
  induction l using List.reverseRecOn with
  | nil => exact absurd rfl hne
  | append_singleton l c ih =>
      rw [List.foldl_append, List.foldl_cons, List.foldl_nil]
      by_cases hl : l = []
      · subst hl
        simp [earliest, Time.isZero]
      · obtain ⟨hmem, hmin⟩ := ih hl
        generalize l.foldl earliest 0 = r at hmem hmin ⊢
        -- once the zero time is met, only a negative instant can still come out
        have hbound : (∃ d ∈ l ++ [c], d < 0) ∨ 0 ∉ l ++ [c] →
            (r ≠ 0 ∧ ∀ d ∈ l, r ≤ d) ∨ (c < 0 ∧ ∀ d ∈ l, 0 ≤ d) := by
          intro hcase
          by_cases hold : (∃ d ∈ l, d < 0) ∨ 0 ∉ l
          · refine Or.inl ⟨?_, hmin hold⟩
            rintro rfl
            rcases hold with ⟨d, hd, hneg⟩ | hzero
            · exact absurd (hmin (Or.inl ⟨d, hd, hneg⟩) d hd) hneg.not_ge
            · exact hzero hmem
          · rw [not_or, not_not] at hold
            have hpos : ∀ d ∈ l, 0 ≤ d := fun d hd => not_lt.mp fun hneg => hold.1 ⟨d, hd, hneg⟩
            refine Or.inr ⟨?_, hpos⟩
            rcases hcase with ⟨d, hd, hneg⟩ | hzero
            · rcases List.mem_append.mp hd with hd | hd
              · exact absurd (hpos d hd) hneg.not_ge
              · exact List.mem_singleton.mp hd ▸ hneg
            · exact absurd (List.mem_append_left _ hold.2) hzero
        simp only [earliest, Time.isZero, beq_iff_eq]
        split_ifs with hearlier
        · refine ⟨List.mem_append_right _ List.mem_cons_self, fun hcase d hd => ?_⟩
          rcases List.mem_append.mp hd with hd | hd
          · rcases hbound hcase with ⟨hr, hlow⟩ | ⟨hc, hpos⟩
            · exact ((hearlier.resolve_left hr).trans_le (hlow d hd)).le
            · exact hc.le.trans (hpos d hd)
          · exact (List.mem_singleton.mp hd).ge
        · rw [not_or, not_lt] at hearlier
          refine ⟨List.mem_append_left _ hmem, fun hcase d hd => ?_⟩
          rcases List.mem_append.mp hd with hd | hd
          · rcases hbound hcase with ⟨_, hlow⟩ | ⟨hc, hpos⟩
            · exact hlow d hd
            · exact absurd (hearlier.2.trans_lt hc) (hpos r hmem).not_gt
          · exact hearlier.2.trans (List.mem_singleton.mp hd).ge

theorem earliest_eq_of_perm {l m : List ℤ} (hl : Unambiguous l) (hp : l.Perm m) :
    l.foldl earliest 0 = m.foldl earliest 0 := by
  by_cases hne : l = []
  · subst hne
    rw [List.nil_perm.mp hp]
  · have hne' : m ≠ [] := fun hm => hne (List.perm_nil.mp (hm ▸ hp))
    obtain ⟨hmem, hmin⟩ := earliest_spec hne
    obtain ⟨hmem', hmin'⟩ := earliest_spec hne'
    by_cases hcase : (∃ c ∈ l, c < 0) ∨ 0 ∉ l
    · have hcase' : (∃ c ∈ m, c < 0) ∨ 0 ∉ m := by
        simpa only [hp.mem_iff] using hcase
      exact le_antisymm (hmin hcase _ (hp.mem_iff.mpr hmem')) (hmin' hcase' _ (hp.mem_iff.mp hmem))
    · rw [not_or, not_not] at hcase
      have hzero := (hl hcase.2).resolve_left hcase.1
      rw [hzero _ hmem, hzero _ (hp.mem_iff.mpr hmem')]

/-- Reordering the catalog changes no candidate of the plan, and not the time to retry unless the
zero time is the earliest end of several cooldowns, which takes a clock before the zero time. -/
theorem rank_reordered (hvalid : validate rt document = .ok ())
    (hvalid' : validate rt document' = .ok ()) (hr : Reordered document document')
    (hobservations : ∀ node ∈ document.nodes, ∀ endpoint ∈ node.endpoints,
      observations endpoint.id = observations' endpoint.id) :
    (rank rt document observations now options).map Plan.candidates =
        (rank rt document' observations' now options).map Plan.candidates ∧
      (Unambiguous (cooldowns observations now options (offers document.nodes)) →
        rank rt document observations now options =
          rank rt document' observations' now options) ∧
      (¬Unambiguous (cooldowns observations now options (offers document.nodes)) → now < 0) := by
  have hperm := offers_perm hr.2
  have hagree : ∀ offer ∈ offers document.nodes,
      observations offer.endpoint.id = observations' offer.endpoint.id := by
    intro offer hmem
    obtain ⟨node, hnode, endpoint, hendpoint, rfl⟩ := mem_offers.mp hmem
    exact hobservations node hnode endpoint hendpoint
  obtain ⟨hscored, hcooldowns⟩ := scoredOffers_congr now options hagree
  have hselection : selection rt document observations now options =
      selection rt document' observations' now options := by
    refine selection_eq_of_perm hvalid ?_
    rw [hscored]
    exact (hperm.filter _).map _
  have hclock : ¬Unambiguous (cooldowns observations now options (offers document.nodes)) →
      now < 0 := by
    intro hunclear
    by_contra hnow
    exact hunclear fun hzero => absurd (pos_of_mem_cooldowns (not_lt.mp hnow) hzero) (lt_irrefl 0)
  by_cases hlimit : 1 ≤ limit options ∧ limit options ≤ 16
  · rw [rank_of_valid hvalid hlimit, rank_of_valid hvalid' hlimit, hselection]
    refine ⟨rfl, fun hclear => ?_, hclock⟩
    rw [earliest_eq_of_perm hclear
      (m := cooldowns observations' now options (offers document'.nodes))]
    rw [hcooldowns]
    exact (hperm.filter _).map _
  · have hbad : limit options < 1 ∨ 16 < limit options := by omega
    have hsame : rank rt document observations now options =
        rank rt document' observations' now options := by
      simp only [rank, hvalid, hvalid', if_pos hbad]
    exact ⟨congrArg _ hsame, fun _ => hsame, hclock⟩

namespace Sample

theorem valid_reverse : validate .toy (listing pair.reverse) = .ok () := by decide +kernel

theorem reordered_pair : Reordered (listing pair) (listing pair.reverse) := by
  refine ⟨rfl, ?_⟩
  change Multiset.Rel Node.Reordered (pair : Multiset Node) (pair.reverse : Multiset Node)
  rw [Multiset.coe_eq_coe.mpr pair.reverse_perm]
  exact Multiset.rel_refl_of_refl_on fun node _ => ⟨rfl, List.Perm.refl _⟩

def observed (id : String) (observation : Observation) : Observations :=
  fun key => if key = str id then some observation else none

end Sample

/-- A nanosecond before the zero time every endpoint that was never observed is in a cooldown
which ends at the zero time, and the time to retry depends on the order of the nodes. -/
theorem rank_order_shows :
    validate .toy (Sample.listing Sample.pair) = .ok () ∧
      validate .toy (Sample.listing Sample.pair.reverse) = .ok () ∧
      Reordered (Sample.listing Sample.pair) (Sample.listing Sample.pair.reverse) ∧
      (rank .toy (Sample.listing Sample.pair) (Sample.observed "c" ⟨1, 7, 0, false⟩) (-1)
        Sample.defaults).map Plan.retryAt = .ok 7 ∧
      (rank .toy (Sample.listing Sample.pair.reverse) (Sample.observed "c" ⟨1, 7, 0, false⟩) (-1)
        Sample.defaults).map Plan.retryAt = .ok 0 := by
  refine ⟨Sample.valid_pair, Sample.valid_reverse, Sample.reordered_pair, ?_, ?_⟩
  · decide +kernel
  · decide +kernel

theorem rank_reordered_pair :
    rank .toy (Sample.listing Sample.pair) (Sample.observed "c" ⟨1, 7, 0, false⟩) 5
      Sample.defaults =
      rank .toy (Sample.listing Sample.pair.reverse) (Sample.observed "c" ⟨1, 7, 0, false⟩) 5
        Sample.defaults :=
  (rank_reordered Sample.valid_pair Sample.valid_reverse Sample.reordered_pair
    fun _ _ _ _ => rfl).2.1 (by unfold Unambiguous; decide)

end CloudHelp.Selector
