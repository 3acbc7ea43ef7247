import CloudHelp.Catalog

/-!
# The canonical order of a catalog

The sort is not stable, so the canonical order of a catalog is determined only because the
validator, which runs on the sorted lists, finds every identifier once. Then the canonical catalog
is a normal form for reordering: two catalogs have the same one exactly if they differ in the order
of their discovery entries, of their nodes and of the endpoints of a node.
-/

namespace CloudHelp.Manifest

variable {rt : Runtime}

/-! ## What validation says about identifiers -/

theorem validateSources_cons {index : ℕ} {ids : List Bytes} {source : DiscoveryEndpoint}
    {rest : List DiscoveryEndpoint} (h : validateSources rt index ids (source :: rest) = .ok ()) :
    source.id ∉ ids ∧ validateSources rt (index + 1) (source.id :: ids) rest = .ok () := by
  unfold validateSources at h
  cases hurl : rt.parseRequestURI source.url with
  | none =>
      simp only [hurl] at h
      split_ifs at h
  | some parsed =>
      simp only [hurl] at h
      split_ifs at h with _ hid
      exact ⟨hid, h⟩

theorem validateEndpoints_cons {nodeID : Bytes} {index : ℕ} {ids out : List Bytes}
    {endpoint : Endpoint} {rest : List Endpoint}
    (h : validateEndpoints nodeID index ids (endpoint :: rest) = .ok out) :
    endpoint.id ∉ ids ∧ validateEndpoints nodeID (index + 1) (endpoint.id :: ids) rest =
      .ok out := by
  unfold validateEndpoints at h
  cases hok : validateEndpoint endpoint with
  | error e =>
      simp only [hok] at h
      cases h
  | ok u =>
      simp only [hok] at h
      split_ifs at h with hid
      exact ⟨hid, h⟩

theorem validateNodes_cons {index : ℕ} {nodeIDs endpointIDs : List Bytes} {node : Node}
    {rest : List Node} (h : validateNodes index nodeIDs endpointIDs (node :: rest) = .ok ()) :
    node.id ∉ nodeIDs ∧ ∃ out, validateEndpoints node.id 0 endpointIDs node.endpoints = .ok out ∧
      validateNodes (index + 1) (node.id :: nodeIDs) out rest = .ok () := by
  unfold validateNodes at h
  cases hend : validateEndpoints node.id 0 endpointIDs node.endpoints with
  | error e =>
      simp only [hend] at h
      split_ifs at h
  | ok out =>
      simp only [hend] at h
      split_ifs at h with _ hid
      exact ⟨hid, out, rfl, h⟩

theorem nodup_sources {index : ℕ} {ids : List Bytes} {discovery : List DiscoveryEndpoint}
    (h : validateSources rt index ids discovery = .ok ()) :
    (discovery.map DiscoveryEndpoint.id).Nodup := by
  refine (nodup_of_fresh (P := fun seen l => ∃ i, validateSources rt i seen l = .ok ()) ?_
    ⟨index, h⟩).1
  rintro seen source rest ⟨i, hi⟩
  obtain ⟨hid, hrest⟩ := validateSources_cons hi
  exact ⟨hid, i + 1, hrest⟩

theorem nodup_endpoints {nodeID : Bytes} {index : ℕ} {ids out : List Bytes}
    {endpoints : List Endpoint} (h : validateEndpoints nodeID index ids endpoints = .ok out) :
    (endpoints.map Endpoint.id).Nodup := by
  refine (nodup_of_fresh (P := fun seen l => ∃ i, validateEndpoints nodeID i seen l = .ok out) ?_
    ⟨index, h⟩).1
  rintro seen endpoint rest ⟨i, hi⟩
  obtain ⟨hid, hrest⟩ := validateEndpoints_cons hi
  exact ⟨hid, i + 1, hrest⟩

theorem nodup_nodes {index : ℕ} {nodeIDs endpointIDs : List Bytes} {nodes : List Node}
    (h : validateNodes index nodeIDs endpointIDs nodes = .ok ()) :
    (nodes.map Node.id).Nodup := by
  refine (nodup_of_fresh (P := fun seen l => ∃ i ends, validateNodes i seen ends l = .ok ()) ?_
    ⟨index, endpointIDs, h⟩).1
  rintro seen node rest ⟨i, ends, hi⟩
  obtain ⟨hid, out, _, hrest⟩ := validateNodes_cons hi
  exact ⟨hid, i + 1, out, hrest⟩

theorem nodup_endpoints_of_node {index : ℕ} {nodeIDs endpointIDs : List Bytes} {nodes : List Node}
    (h : validateNodes index nodeIDs endpointIDs nodes = .ok ()) :
    ∀ node ∈ nodes, (node.endpoints.map Endpoint.id).Nodup := by
  induction nodes generalizing index nodeIDs endpointIDs with
  | nil => simp
  | cons node rest ih =>
      obtain ⟨_, out, hend, hrest⟩ := validateNodes_cons h
      exact List.forall_mem_cons.mpr ⟨nodup_endpoints hend, ih hrest⟩

/-- The identifiers that are seen after a node are those seen before and those of its endpoints. -/
theorem mem_validateEndpoints {nodeID : Bytes} {index : ℕ} {ids out : List Bytes}
    {endpoints : List Endpoint} (h : validateEndpoints nodeID index ids endpoints = .ok out)
    (id : Bytes) : id ∈ out ↔ id ∈ ids ∨ id ∈ endpoints.map Endpoint.id := by
  induction endpoints generalizing index ids with
  | nil =>
      rw [validateEndpoints] at h
      simp [← Except.ok.inj h]
  | cons endpoint rest ih =>
      rw [ih (validateEndpoints_cons h).2]
      simp only [List.mem_cons, List.map_cons]
      tauto

/-- An endpoint identifier occurs once in the whole catalog. -/
theorem nodup_catalogEndpoints {index : ℕ} {nodeIDs endpointIDs : List Bytes} {nodes : List Node}
    (h : validateNodes index nodeIDs endpointIDs nodes = .ok ()) :
    ((nodes.flatMap Node.endpoints).map Endpoint.id).Nodup ∧
      ∀ id ∈ (nodes.flatMap Node.endpoints).map Endpoint.id, id ∉ endpointIDs := by
  induction nodes generalizing index nodeIDs endpointIDs with
  | nil => simp
  | cons node rest ih =>
      obtain ⟨_, out, hend, hrest⟩ := validateNodes_cons h
      obtain ⟨hnodup, hfresh⟩ := ih hrest
      have hout := mem_validateEndpoints hend
      obtain ⟨hown, hownFresh⟩ := nodup_of_fresh
        (P := fun seen l => ∃ i, validateEndpoints node.id i seen l = .ok out)
        (fun seen endpoint rest ⟨i, hi⟩ =>
          ⟨(validateEndpoints_cons hi).1, i + 1, (validateEndpoints_cons hi).2⟩) ⟨0, hend⟩
      rw [List.flatMap_cons, List.map_append]
      refine ⟨List.nodup_append.mpr ⟨hown, hnodup, ?_⟩, fun id hid => ?_⟩
      · rintro id hid other hother rfl
        exact hfresh id hother ((hout id).mpr (Or.inr hid))
      · rcases List.mem_append.mp hid with hid | hid
        · obtain ⟨endpoint, hmem, rfl⟩ := List.mem_map.mp hid
          exact hownFresh endpoint hmem
        · exact fun hold => hfresh id hid ((hout id).mpr (Or.inl hold))

/-- No identifier occurs twice where the canonical order depends on it. -/
structure Distinct (discovery : List DiscoveryEndpoint) (nodes : List Node) : Prop where
  sourceIDs : (discovery.map DiscoveryEndpoint.id).Nodup
  nodeIDs : (nodes.map Node.id).Nodup
  endpointIDs : ∀ node ∈ nodes, (node.endpoints.map Endpoint.id).Nodup

theorem loops_of_ok {discovery : List DiscoveryEndpoint} {nodes : List Node}
    (h : validateCatalogContents rt discovery nodes = .ok ()) :
    validateSources rt 0 [] discovery = .ok () ∧ validateNodes 0 [] [] nodes = .ok () := by
  unfold validateCatalogContents at h
  cases hdiscovery : validateDiscovery rt discovery with
  | error e =>
      rw [hdiscovery] at h
      cases h
  | ok u =>
      rw [hdiscovery] at h
      simp only at h
      split_ifs at h
      unfold validateDiscovery at hdiscovery
      split_ifs at hdiscovery
      exact ⟨hdiscovery, h⟩

theorem distinct_of_ok {discovery : List DiscoveryEndpoint} {nodes : List Node}
    (h : validateCatalogContents rt discovery nodes = .ok ()) : Distinct discovery nodes := by
  obtain ⟨hsources, hnodes⟩ := loops_of_ok h
  exact ⟨nodup_sources hsources, nodup_nodes hnodes, nodup_endpoints_of_node hnodes⟩

theorem nodup_endpointIDs_of_ok {discovery : List DiscoveryEndpoint} {nodes : List Node}
    (h : validateCatalogContents rt discovery nodes = .ok ()) :
    ((nodes.flatMap Node.endpoints).map Endpoint.id).Nodup :=
  (nodup_catalogEndpoints (loops_of_ok h).2).1

/-! ## Reordering -/

def Node.Reordered (n m : Node) : Prop :=
  { n with endpoints := m.endpoints } = m ∧ n.endpoints.Perm m.endpoints

/-- The same catalog up to the order of discovery entries, nodes and endpoints inside a node. -/
def Catalog.Reordered (c d : Catalog) : Prop :=
  c.revision = d.revision ∧ c.discovery.Perm d.discovery ∧
    Multiset.Rel Node.Reordered (c.nodes : Multiset Node) (d.nodes : Multiset Node)

theorem Node.Reordered.symm {n m : Node} (h : n.Reordered m) : m.Reordered n := by
  refine ⟨?_, h.2.symm⟩
  rw [← h.1]

theorem Catalog.Reordered.symm {c d : Catalog} (h : c.Reordered d) : d.Reordered c := by
  refine ⟨h.1.symm, h.2.1.symm, ?_⟩
  rw [← Multiset.rel_flip]
  exact h.2.2.mono fun _ _ _ _ hr => hr.symm

/-! ## The normal form -/

theorem injOn_id {α : Type} {f : α → Bytes} {l : List α} (h : (l.map f).Nodup) :
    Set.InjOn f {a | a ∈ l} :=
  fun _ ha _ hb he => List.inj_on_of_nodup_map h ha hb he

theorem canonicalDiscovery_perm (discovery : List DiscoveryEndpoint) :
    (canonicalDiscovery rt discovery).Perm discovery :=
  rt.sort.perm _ _

theorem canonicalEndpoints_perm (endpoints : List Endpoint) :
    (canonicalEndpoints rt endpoints).Perm endpoints :=
  rt.sort.perm _ _

theorem canonicalNodes_perm (nodes : List Node) :
    (canonicalNodes rt nodes).Perm (nodes.map (canonicalNode rt)) :=
  rt.sort.perm _ _

theorem canonicalDiscovery_eq_of_perm {l m : List DiscoveryEndpoint}
    (h : (l.map DiscoveryEndpoint.id).Nodup) (hp : l.Perm m) :
    canonicalDiscovery rt l = canonicalDiscovery rt m :=
  rt.sort.run_eq_of_perm (strictWeak_lessBy _ _) (separates_lessBy (injOn_id h)) hp

theorem canonicalEndpoints_eq_of_perm {l m : List Endpoint} (h : (l.map Endpoint.id).Nodup)
    (hp : l.Perm m) : canonicalEndpoints rt l = canonicalEndpoints rt m :=
  rt.sort.run_eq_of_perm (strictWeak_lessBy _ _) (separates_lessBy (injOn_id h)) hp

/-- The order of nodes is the order by a constant and then by identifier. -/
theorem lessByID_eq :
    (fun left right : Node => decide (left.id < right.id)) = lessBy (fun _ => 0) Node.id := by
  funext left right
  simp [lessBy]

theorem canonicalNodes_eq_of_perm {l m : List Node} (h : (l.map Node.id).Nodup)
    (hp : (l.map (canonicalNode rt)).Perm (m.map (canonicalNode rt))) :
    canonicalNodes rt l = canonicalNodes rt m := by
  unfold canonicalNodes
  rw [lessByID_eq]
  refine rt.sort.run_eq_of_perm (strictWeak_lessBy _ _) (separates_lessBy (injOn_id ?_)) hp
  rwa [List.map_map]

theorem canonicalNode_eq_of_reordered {n m : Node} (h : (n.endpoints.map Endpoint.id).Nodup)
    (hr : n.Reordered m) : canonicalNode rt n = canonicalNode rt m := by
  unfold canonicalNode
  rw [canonicalEndpoints_eq_of_perm h hr.2, ← hr.1]

theorem reordered_of_canonicalNode_eq {n m : Node} (h : canonicalNode rt n = canonicalNode rt m) :
    n.Reordered m := by
  simp only [canonicalNode, Node.mk.injEq] at h
  obtain ⟨hid, hregion, hcountry, hprovider, hasn, hendpoints⟩ := h
  refine ⟨Node.ext hid hregion hcountry hprovider hasn rfl, ?_⟩
  exact (canonicalEndpoints_perm n.endpoints).symm.trans
    (hendpoints ▸ canonicalEndpoints_perm m.endpoints)

theorem map_canonicalNode_perm {l m : List Node} :
    (l.map (canonicalNode rt)).Perm (m.map (canonicalNode rt)) ↔
      Multiset.Rel (fun n n' => canonicalNode rt n = canonicalNode rt n') (l : Multiset Node)
        (m : Multiset Node) := by
  rw [← Multiset.coe_eq_coe, ← Multiset.map_coe, ← Multiset.map_coe, ← Multiset.rel_eq,
    Multiset.rel_map]

theorem canonicalCatalog_eq_of_reordered {c d : Catalog} (h : Distinct c.discovery c.nodes)
    (hr : c.Reordered d) : canonicalCatalog rt c = canonicalCatalog rt d := by
  obtain ⟨hrevision, hdiscovery, hnodes⟩ := hr
  unfold canonicalCatalog
  rw [hrevision, canonicalDiscovery_eq_of_perm h.sourceIDs hdiscovery]
  rw [canonicalNodes_eq_of_perm h.nodeIDs (map_canonicalNode_perm.mpr ?_)]
  exact hnodes.mono fun n hn _ _ hr => canonicalNode_eq_of_reordered (h.endpointIDs n hn) hr

theorem reordered_of_canonicalCatalog_eq {c d : Catalog}
    (h : canonicalCatalog rt c = canonicalCatalog rt d) : c.Reordered d := by
  simp only [canonicalCatalog, Catalog.mk.injEq] at h
  obtain ⟨hrevision, hdiscovery, hnodes⟩ := h
  refine ⟨hrevision, ?_, ?_⟩
  · exact (canonicalDiscovery_perm c.discovery).symm.trans
      (hdiscovery ▸ canonicalDiscovery_perm d.discovery)
  · have hperm := (canonicalNodes_perm c.nodes).symm.trans (hnodes ▸ canonicalNodes_perm d.nodes)
    exact (map_canonicalNode_perm.mp hperm).mono fun _ _ _ _ he => reordered_of_canonicalNode_eq he

theorem reordered_canonicalCatalog (catalog : Catalog) :
    catalog.Reordered (canonicalCatalog rt catalog) := by
  refine ⟨rfl, (canonicalDiscovery_perm catalog.discovery).symm, ?_⟩
  change Multiset.Rel Node.Reordered (catalog.nodes : Multiset Node)
    (canonicalNodes rt catalog.nodes : Multiset Node)
  rw [Multiset.coe_eq_coe.mpr (canonicalNodes_perm catalog.nodes), ← Multiset.map_coe,
    Multiset.rel_map_right]
  refine Multiset.rel_refl_of_refl_on fun node _ => ⟨rfl, ?_⟩
  exact (canonicalEndpoints_perm node.endpoints).symm

/-- Identifiers that are distinct in the canonical catalog are distinct in the catalog. -/
theorem Distinct.of_canonical {c : Catalog}
    (h : Distinct (canonicalCatalog rt c).discovery (canonicalCatalog rt c).nodes) :
    Distinct c.discovery c.nodes := by
  refine ⟨?_, ?_, fun node hnode => ?_⟩
  · exact ((canonicalDiscovery_perm c.discovery).map _).nodup_iff.mp h.sourceIDs
  · have hids := ((canonicalNodes_perm c.nodes).map Node.id).nodup_iff.mp h.nodeIDs
    rwa [List.map_map] at hids
  · have hmem : canonicalNode rt node ∈ canonicalNodes rt c.nodes :=
      (canonicalNodes_perm c.nodes).mem_iff.mpr (List.mem_map_of_mem hnode)
    exact ((canonicalEndpoints_perm node.endpoints).map _).nodup_iff.mp (h.endpointIDs _ hmem)

/-! ## The digest -/

theorem catalogDigest_eq_ok {c : Catalog} {digest : Bytes} :
    catalogDigest rt c = .ok digest ↔
      validateCatalogContents rt (canonicalCatalog rt c).discovery (canonicalCatalog rt c).nodes =
          .ok () ∧ rt.digest (canonicalCatalog rt c).marshal = digest := by
  unfold catalogDigest
  cases hok : validateCatalogContents rt (canonicalCatalog rt c).discovery
      (canonicalCatalog rt c).nodes with
  | error e => simp [hok]
  | ok u => simp [hok]

/-- A valid catalog has the canonical form of every reordering of it. -/
theorem canonicalCatalog_eq_of_digest {c d : Catalog} {digest : Bytes}
    (h : catalogDigest rt c = .ok digest) (hr : c.Reordered d) :
    canonicalCatalog rt c = canonicalCatalog rt d :=
  canonicalCatalog_eq_of_reordered
    (Distinct.of_canonical (distinct_of_ok (catalogDigest_eq_ok.mp h).1)) hr

theorem catalogDigest_of_reordered {c d : Catalog} {digest : Bytes} (hr : c.Reordered d)
    (h : catalogDigest rt c = .ok digest) : catalogDigest rt d = .ok digest := by
  rw [catalogDigest_eq_ok, ← canonicalCatalog_eq_of_digest h hr]
  exact catalogDigest_eq_ok.mp h

theorem catalogDigest_reordered_iff {c d : Catalog} (hr : c.Reordered d) (digest : Bytes) :
    catalogDigest rt c = .ok digest ↔ catalogDigest rt d = .ok digest :=
  ⟨catalogDigest_of_reordered hr, catalogDigest_of_reordered hr.symm⟩

theorem canonicalCatalog_utf8 {c : Catalog} (h : c.Utf8) : (canonicalCatalog rt c).Utf8 := by
  refine ⟨fun d hd => ?_, fun n hn => ?_⟩
  · exact h.1 d ((canonicalDiscovery_perm c.discovery).mem_iff.mp hd)
  · obtain ⟨m, hm, rfl⟩ := List.mem_map.mp ((canonicalNodes_perm c.nodes).mem_iff.mp hn)
    obtain ⟨hid, hregion, hcountry, hprovider, hendpoints⟩ := h.2 m hm
    refine ⟨hid, hregion, hcountry, hprovider, fun e he => hendpoints e ?_⟩
    exact (canonicalEndpoints_perm m.endpoints).mem_iff.mp he

/-- Without collisions, equal digests mean equal content. -/
theorem reordered_of_digest_eq {c d : Catalog} {digest : Bytes} (hc : c.Utf8) (hd : d.Utf8)
    (hcollision : rt.CollisionFreeOn
      {(canonicalCatalog rt c).marshal, (canonicalCatalog rt d).marshal})
    (hcd : catalogDigest rt c = .ok digest) (hdd : catalogDigest rt d = .ok digest) :
    c.Reordered d := by
  have hdigest := (catalogDigest_eq_ok.mp hcd).2.trans (catalogDigest_eq_ok.mp hdd).2.symm
  have htext := hcollision.digest_inj (Set.mem_insert _ _)
    (Set.mem_insert_of_mem _ (Set.mem_singleton _)) hdigest
  exact reordered_of_canonicalCatalog_eq
    (Catalog.marshal_injOn (canonicalCatalog_utf8 hc) (canonicalCatalog_utf8 hd) htext)

end CloudHelp.Manifest
