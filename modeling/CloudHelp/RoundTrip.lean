import CloudHelp.ClientRun
import CloudHelp.PolicyIdentity

/-!
# What is issued verifies

An envelope that `Issue` returns goes out as the handler writes it, is read back by
`DecodeEnvelope` and passes `Verify` under the same root exactly while the document is current.
The decoder of `encoding/json` comes in with the property its documentation gives it: it reads
back what the encoder wrote for strings of valid UTF-8.
-/

namespace CloudHelp

open Manifest Base64Url

/-- `json.NewEncoder(writer).Encode(envelope)` of the handler: compact JSON and a newline. -/
def Manifest.encodeEnvelope (envelope : Envelope) : Bytes := envelope.toJson.encode ++ [10]

namespace Runtime

variable (rt : Runtime)

/-- The decoder gives back an encoded document whose `int` field fits. -/
def ReadsDocuments : Prop :=
  ∀ (d : Document) (b : Bytes), d.Utf8 → -2 ^ 63 ≤ d.schemaVersion ∧ d.schemaVersion < 2 ^ 63 →
    d.marshal = .ok b → decodeStrict rt rt.decodeDocument b = .ok d

def ReadsEnvelopes : Prop :=
  ∀ e : Envelope, e.Utf8 → decodeStrict rt rt.decodeEnvelope (encodeEnvelope e) = .ok e

/-- A signature made with a key verifies under its public half. -/
def VerifiesSigned : Prop :=
  ∀ key message : Bytes, validEd25519PrivateKey rt key = true →
    rt.verify (publicKey key) message (rt.sign key message).toList = true

end Runtime

namespace Manifest

variable {rt : Runtime} {catalog : Catalog} {version : UInt64} {keyPolicy : KeyPolicy}
  {root : Bytes} {now ttl : ℤ} {privateKey payload : Bytes}

/-! ## The envelope on the wire -/

theorem encodedLen_mono {m n : ℕ} (h : m ≤ n) : encodedLen m ≤ encodedLen n := by
  unfold encodedLen
  omega

theorem encodedLen_ne_zero {n : ℕ} (h : n ≠ 0) : encodedLen n ≠ 0 := by
  unfold encodedLen
  omega

theorem safe_encodeChar : ∀ html, ∀ n < 64, JsonText.safe html (encodeChar n) = true := by decide

/-- Base64 text needs no escapes. -/
theorem ofString_encodeToString (html : Bool) (s : Bytes) :
    Json.ofString html (encodeToString s) = .str (encodeToString s) := by
  rw [Json.ofString, JsonText.escape_of_safe]
  intro c hc
  obtain ⟨n, hn, rfl⟩ := List.mem_map.mp hc
  exact safe_encodeChar html n (sextets_lt s n hn)

theorem utf8_encodeToString (s : Bytes) : Utf8.validString (encodeToString s) = true :=
  utf8_of_decodeString (decodeString_encodeToString s)

theorem utf8_sealPayload (payload privateKey : Bytes) :
    (sealPayload rt payload privateKey).Utf8 := by
  have halgorithm : Utf8.validString algorithm = true := by decide
  exact ⟨halgorithm, utf8_digest _, utf8_encodeToString _, utf8_encodeToString _⟩

/-- The wrapper adds the same number of bytes to every payload. -/
theorem length_encodeEnvelope (payload privateKey : Bytes) :
    (encodeEnvelope (sealPayload rt payload privateKey)).length =
      encodedLen payload.length + 193 := by
  have halgorithm : Json.ofString true algorithm = .str algorithm := rfl
  have hnames : (str "algorithm").length = 9 ∧ (str "key_id").length = 6 ∧
      (str "payload").length = 7 ∧ (str "signature").length = 9 ∧ algorithm.length = 7 := by decide
  obtain ⟨h1, h2, h3, h4, h5⟩ := hnames
  simp only [encodeEnvelope, Envelope.toJson, sealPayload, jsonString, halgorithm, keyID,
    Runtime.digest, ofString_encodeToString, Json.encode, Json.encodeMember, Json.encodeMembers,
    List.length_append, List.length_cons, List.length_nil, length_encodeToString,
    Vector.length_toList, h1, h2, h3, h4, h5]
  simp only [encodedLen]
  omega

theorem decodeEnvelope_encodeEnvelope (henvelopes : rt.ReadsEnvelopes) (privateKey : Bytes)
    (hsize : payload.length ≤ maxManifestBytes) :
    (encodeEnvelope (sealPayload rt payload privateKey)).length ≤ maxEnvelopeBytes ∧
      decodeEnvelope rt ⟨encodeEnvelope (sealPayload rt payload privateKey), none⟩ =
        .ok (sealPayload rt payload privateKey) := by
  have hlength : (encodeEnvelope (sealPayload rt payload privateKey)).length =
      encodedLen payload.length + 193 := length_encodeEnvelope payload privateKey
  have hbound : (encodeEnvelope (sealPayload rt payload privateKey)).length ≤ maxEnvelopeBytes := by
    have hpayload := encodedLen_mono hsize
    unfold maxEnvelopeBytes
    omega
  refine ⟨hbound, ?_⟩
  have hread : (Reader.mk (encodeEnvelope (sealPayload rt payload privateKey)) none).readAll
      (maxEnvelopeBytes + 1) = .ok (encodeEnvelope (sealPayload rt payload privateKey)) := by
    rw [Reader.readAll, if_neg (by simpa using hbound)]
  rw [decodeEnvelope, hread]
  simp only
  rw [if_neg (by rw [hlength] at hbound ⊢; omega), henvelopes _ (utf8_sealPayload _ _)]

/-! ## The document inside -/

theorem utf8_issuedDocument (hcatalog : catalog.Utf8) {digest : Bytes}
    (hpolicy : validateKeyPolicy rt keyPolicy root = .ok digest) :
    (issuedDocument rt catalog version keyPolicy now ttl).Utf8 := by
  obtain ⟨⟨signature, hs⟩, _⟩ := validateKeyPolicy_eq_ok.mp hpolicy
  exact ⟨hs.canonical_utf8, canonicalCatalog_utf8 hcatalog⟩

/-- The keys whose identifiers the grant is looked up by. -/
def policyKeys (keyPolicy : KeyPolicy) : Set Bytes :=
  {raw | ∃ g ∈ keyPolicy.keys, decodeString g.publicKey = some raw}

/-- The grant under a key's identifier holds that key. -/
theorem grant_of_authorized {digest : Bytes}
    (hpolicy : validateKeyPolicy rt keyPolicy root = .ok digest)
    (hgrant : Authorized keyPolicy (keyID rt (publicKey privateKey)) version)
    (hcollision : rt.CollisionFreeOn (insert (publicKey privateKey) (policyKeys keyPolicy))) :
    ∃ g, keyPolicyGrant (canonicalKeyPolicy rt keyPolicy) (keyID rt (publicKey privateKey))
      version = .ok (g, publicKey privateKey) := by
  obtain ⟨⟨signature, hs⟩, _⟩ := validateKeyPolicy_eq_ok.mp hpolicy
  have hshape := shape_of_ok hs.shape
  obtain ⟨⟨g, raw⟩, hok⟩ := hgrant
  obtain ⟨hmem, hid, _, hraw⟩ := hshape.grant_eq_ok.mp hok
  obtain ⟨hdecode, _, hkey⟩ := grantKey_eq_some.mp hraw
  have heq : raw = publicKey privateKey := by
    refine hcollision.digest_inj (Set.mem_insert_of_mem _ ⟨g, hmem, hdecode⟩) (Set.mem_insert _ _)
      ?_
    exact hkey.trans hid
  exact ⟨g, by rw [hshape.grant_canonical, hok, heq]⟩

/-- A sealed payload is authentic at every clock reading inside its document's validity. -/
theorem Sealed.authentic
    (hs : Sealed rt catalog version keyPolicy root now ttl privateKey payload)
    (hdocuments : rt.ReadsDocuments) (hsign : rt.VerifiesSigned) (hcatalog : catalog.Utf8)
    (hcollision : rt.CollisionFreeOn (insert (publicKey privateKey) (policyKeys keyPolicy)))
    {clock : ℤ}
    (hbegun : (issuedDocument rt catalog version keyPolicy now ttl).issuedAt - allowedClockSkew ≤
      clock)
    (hcurrent : clock < (issuedDocument rt catalog version keyPolicy now ttl).expiresAt) :
    ∃ o : Opened, Authentic rt (sealPayload rt payload privateKey) root clock o ∧
      o.document = issuedDocument rt catalog version keyPolicy now ttl ∧ o.payload = payload := by
  obtain ⟨digest, hpolicy⟩ := hs.policy
  obtain ⟨g, hgrant⟩ := grant_of_authorized hpolicy hs.grant hcollision
  obtain ⟨⟨signature, hsigned⟩, _⟩ := validateKeyPolicy_eq_ok.mp hpolicy
  have hlength : payload.length ≠ 0 := by
    rw [Ne, List.length_eq_zero_iff]
    exact Document.marshal_ne_nil hs.encoded
  refine ⟨⟨payload, (rt.sign privateKey payload).toList,
    issuedDocument rt catalog version keyPolicy now ttl, digest, g, publicKey privateKey⟩, ?_, rfl,
    rfl⟩
  have hschema : -2 ^ 63 ≤ schemaVersion ∧ schemaVersion < 2 ^ 63 := by decide
  exact
    { root := hsigned.root
      algorithm := rfl
      keyID := rt.digest_ne_nil _
      encodedPayload := by
        change (encodeToString payload).length ≠ 0 ∧ (encodeToString payload).length ≤ _
        rw [length_encodeToString]
        exact ⟨encodedLen_ne_zero hlength, encodedLen_mono hs.size⟩
      encodedSignature := by
        change (encodeToString _).length = _
        rw [length_encodeToString, Vector.length_toList]
        rfl
      payload := decodeString_encodeToString payload
      payloadSize := ⟨hlength, hs.size⟩
      signature := decodeString_encodeToString _
      document := hdocuments _ _ (utf8_issuedDocument hcatalog hpolicy) hschema hs.encoded
      valid := hs.valid
      policy := validateKeyPolicy_canonical hpolicy
      grant := hgrant
      signatureSize := Vector.length_toList
      verified := hsign _ _ hs.key
      begun := hbegun
      current := hcurrent }

/-- Whoever accepts a sealed envelope has found its payload and its document. -/
theorem Sealed.opened
    (hs : Sealed rt catalog version keyPolicy root now ttl privateKey payload)
    (hdocuments : rt.ReadsDocuments) (hcatalog : catalog.Utf8) {root' : Bytes} {clock : ℤ}
    {o : Opened} (ho : Authentic rt (sealPayload rt payload privateKey) root' clock o) :
    o.payload = payload ∧ o.document = issuedDocument rt catalog version keyPolicy now ttl := by
  have hpayload : o.payload = payload :=
    Option.some.inj (ho.payload.symm.trans (decodeString_encodeToString payload))
  obtain ⟨digest, hpolicy⟩ := hs.policy
  have hschema : -2 ^ 63 ≤ schemaVersion ∧ schemaVersion < 2 ^ 63 := by decide
  have hread := hdocuments (issuedDocument rt catalog version keyPolicy now ttl) payload
    (utf8_issuedDocument hcatalog hpolicy) hschema hs.encoded
  have hopened := ho.document
  rw [hpayload, hread] at hopened
  exact ⟨hpayload, (Except.ok.inj hopened).symm⟩

/-- From the empty state the clock alone decides. -/
theorem Sealed.verify_empty
    (hs : Sealed rt catalog version keyPolicy root now ttl privateKey payload)
    (hdocuments : rt.ReadsDocuments) (hsign : rt.VerifiesSigned) (hcatalog : catalog.Utf8)
    (hcollision : rt.CollisionFreeOn (insert (publicKey privateKey) (policyKeys keyPolicy)))
    (clock : ℤ) :
    let document := issuedDocument rt catalog version keyPolicy now ttl
    (document.issuedAt - allowedClockSkew ≤ clock ∧ clock < document.expiresAt →
        (verify rt (sealPayload rt payload privateKey) root clock .empty).1 = .ok document) ∧
      (¬(document.issuedAt - allowedClockSkew ≤ clock ∧ clock < document.expiresAt) →
        ∃ e, (verify rt (sealPayload rt payload privateKey) root clock .empty).1 = .error e) := by
  intro document
  constructor
  · rintro ⟨hbegun, hcurrent⟩
    obtain ⟨o, ho, hdocument, _⟩ :=
      hs.authentic hdocuments hsign hcatalog hcollision hbegun hcurrent
    rw [verify_of_authentic ho (transition_empty _), hdocument]
  · intro hout
    cases hresult : (verify rt (sealPayload rt payload privateKey) root clock .empty).1 with
    | error e => exact ⟨e, rfl⟩
    | ok d =>
        obtain ⟨o, ho, rfl, _⟩ := verify_ok hresult
        have hdocument : o.document = document := (hs.opened hdocuments hcatalog ho).2
        rw [← hdocument] at hout
        exact absurd ⟨ho.begun, ho.current⟩ hout

/-! ## The order in the document -/

theorem sorted_priority {α : Type} (p : α → UInt16) (id : α → Bytes) (l : List α) :
    (rt.sort.run (lessBy (fun a => (p a).toNat) id) l).Pairwise fun a b =>
      p a < p b ∨ p a = p b ∧ id a ≤ id b := by
  refine (rt.sort.sorted (strictWeak_lessBy _ _) l).imp fun {a b} h => ?_
  rw [lessBy_eq_false] at h
  rw [UInt16.lt_iff_toNat_lt, ← UInt16.toNat_inj]
  exact h.imp_right fun h => ⟨h.1.symm, h.2⟩

theorem sorted_canonicalNodes (nodes : List Node) :
    (canonicalNodes rt nodes).Pairwise fun a b => a.id ≤ b.id := by
  unfold canonicalNodes
  rw [lessByID_eq]
  refine (rt.sort.sorted (strictWeak_lessBy _ _) _).imp fun {a b} h => ?_
  rw [lessBy_eq_false] at h
  rcases h with h | h
  · exact absurd h (lt_irrefl _)
  · exact h.2

structure CanonicalContent (catalog : Catalog) (document : Document) : Prop where
  content : catalog.Reordered ⟨document.catalogRevision, document.discovery, document.nodes⟩
  discovery : document.discovery.Pairwise fun a b =>
    a.priority < b.priority ∨ a.priority = b.priority ∧ a.id ≤ b.id
  nodes : document.nodes.Pairwise fun a b => a.id ≤ b.id
  endpoints : ∀ node ∈ document.nodes, node.endpoints.Pairwise fun a b =>
    a.priority < b.priority ∨ a.priority = b.priority ∧ a.id ≤ b.id

theorem canonicalContent_issuedDocument :
    CanonicalContent catalog (issuedDocument rt catalog version keyPolicy now ttl) where
  content := reordered_canonicalCatalog catalog
  discovery := sorted_priority DiscoveryEndpoint.priority DiscoveryEndpoint.id _
  nodes := sorted_canonicalNodes _
  endpoints := by
    intro node hnode
    obtain ⟨m, _, rfl⟩ := List.mem_map.mp ((canonicalNodes_perm catalog.nodes).mem_iff.mp hnode)
    exact sorted_priority Endpoint.priority Endpoint.id m.endpoints

/-- An issued envelope survives the wire, and it verifies from the empty state exactly while its
document is current. The document holds the catalog in canonical order, the version and the
policy. -/
theorem issue_verify (hdocuments : rt.ReadsDocuments) (henvelopes : rt.ReadsEnvelopes)
    (hsign : rt.VerifiesSigned) (hcatalog : catalog.Utf8)
    (hcollision : rt.CollisionFreeOn (insert (publicKey privateKey) (policyKeys keyPolicy)))
    {envelope : Envelope}
    (h : issue rt catalog version keyPolicy root now ttl privateKey = .ok envelope) :
    (encodeEnvelope envelope).length ≤ maxEnvelopeBytes ∧
      decodeEnvelope rt ⟨encodeEnvelope envelope, none⟩ = .ok envelope ∧
      ∃ document : Document,
        (∀ clock,
          (document.issuedAt - allowedClockSkew ≤ clock ∧ clock < document.expiresAt →
            (verify rt envelope root clock .empty).1 = .ok document) ∧
          (¬(document.issuedAt - allowedClockSkew ≤ clock ∧ clock < document.expiresAt) →
            ∃ e, (verify rt envelope root clock .empty).1 = .error e)) ∧
        document.issuedAt = Time.truncateSecond now ∧
        document.expiresAt = document.issuedAt + ttl ∧
        CanonicalContent catalog document ∧ document.version = version ∧
        document.keyPolicy.version = keyPolicy.version ∧
        document.keyPolicy.rootKeyID = keyPolicy.rootKeyID ∧
        document.keyPolicy.keys.Perm keyPolicy.keys ∧
        document.keyPolicy.signature = keyPolicy.signature := by
  obtain ⟨payload, hs, rfl⟩ := issue_eq_ok.mp h
  obtain ⟨hlength, hdecode⟩ := decodeEnvelope_encodeEnvelope henvelopes privateKey hs.size
  refine ⟨hlength, hdecode, issuedDocument rt catalog version keyPolicy now ttl,
    hs.verify_empty hdocuments hsign hcatalog hcollision, rfl, rfl, canonicalContent_issuedDocument,
    rfl, rfl, rfl, canonicalKeyGrants_perm keyPolicy.keys, rfl⟩

namespace Sample

open Classical in
noncomputable def inverting : Runtime :=
  { Runtime.toy with
    decodeDocument := fun s =>
      if h : ∃ d : Document, d.Utf8 ∧ d.marshal = .ok s then .ok (h.choose, [])
      else .error (.library "invalid character")
    decodeEnvelope := fun s =>
      if h : ∃ e : Envelope, e.Utf8 ∧ encodeEnvelope e = s then .ok (h.choose, [])
      else .error (.library "invalid character") }

theorem readsDocuments_inverting : inverting.ReadsDocuments := by
  intro d b hutf8 _ hb
  have hex : ∃ d : Document, d.Utf8 ∧ d.marshal = .ok b := ⟨d, hutf8, hb⟩
  have hdecode : inverting.decodeDocument b = .ok (hex.choose, []) := dif_pos hex
  have hchoose : hex.choose = d :=
    Document.marshal_injOn hex.choose_spec.1 hutf8 hex.choose_spec.2 hb
  rw [decodeStrict, hdecode, hchoose]
  rfl

theorem readsEnvelopes_inverting : inverting.ReadsEnvelopes := by
  intro e hutf8
  have hex : ∃ f : Envelope, f.Utf8 ∧ encodeEnvelope f = encodeEnvelope e := ⟨e, hutf8, rfl⟩
  have hdecode : inverting.decodeEnvelope (encodeEnvelope e) = .ok (hex.choose, []) := dif_pos hex
  have hchoose : hex.choose = e := by
    refine Envelope.toJson_injOn _ _ hex.choose_spec.1 hutf8 ?_
    exact Json.encode_injOn (Envelope.wellFormed_toJson _) (Envelope.wellFormed_toJson _)
      (List.append_cancel_right hex.choose_spec.2)
  rw [decodeStrict, hdecode, hchoose]
  rfl

theorem verifiesSigned_inverting : inverting.VerifiesSigned :=
  fun _ _ _ => decide_eq_true rfl

theorem utf8_catalog : Sample.catalog.Utf8 := by
  simp only [Catalog.Utf8, DiscoveryEndpoint.Utf8, Node.Utf8, Endpoint.Utf8, Sample.catalog]
  decide

theorem collisionFree_keys : inverting.CollisionFreeOn
    (insert (publicKey (List.replicate 64 2)) (policyKeys rotated)) := by
  refine Runtime.collisionFreeOn_of_nodup [List.replicate 32 2, List.replicate 32 1] ?_
    (by decide)
  rintro raw (rfl | ⟨g, hg, hdecode⟩)
  · decide
  · have hkeys : ∀ g ∈ rotated.keys, decodeString g.publicKey ∈
        [some (List.replicate 32 2), some (List.replicate 32 1)] := by decide
    have hmem := hkeys g hg
    rw [hdecode] at hmem
    simpa using hmem

theorem issue_inverting : ∃ envelope, issue inverting Sample.catalog 6 rotated Sample.root today
    Duration.hour (List.replicate 64 2) = .ok envelope :=
  exists_of_isOk (by decide +kernel)

end Sample

theorem issue_verify_inverting :
    ∃ envelope, issue Sample.inverting Sample.catalog 6 Sample.rotated Sample.root Sample.today
        Duration.hour (List.replicate 64 2) = .ok envelope ∧
      decodeEnvelope Sample.inverting ⟨encodeEnvelope envelope, none⟩ = .ok envelope := by
  obtain ⟨envelope, h⟩ := Sample.issue_inverting
  exact ⟨envelope, h, (issue_verify Sample.readsDocuments_inverting Sample.readsEnvelopes_inverting
    Sample.verifiesSigned_inverting Sample.utf8_catalog Sample.collisionFree_keys h).2.1⟩

end Manifest

end CloudHelp
