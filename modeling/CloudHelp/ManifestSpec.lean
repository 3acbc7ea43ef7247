import CloudHelp.CatalogOrder
import CloudHelp.KeyPolicyPartition
import CloudHelp.Manifest

/-!
# What issuing and verifying have checked

One characterisation per function: `Sealed` for a successful `issue`, `Authentic` for a successful
`authenticate`, `Complete` and `Succeeds` for the transition check of the caller's state. The
results about runs are proved from these and do not open the functions again.
-/

namespace CloudHelp.Manifest

open Base64Url

variable {rt : Runtime}

/-! ## Documents -/

structure ValidDocument (rt : Runtime) (document : Document) : Prop where
  schemaVersion : document.schemaVersion = schemaVersion
  version : document.version ≠ 0
  catalogRevision : document.catalogRevision ≠ 0
  issuedAt : document.issuedAt ≠ 0
  expiresAt : document.expiresAt ≠ 0
  lifetime : document.issuedAt < document.expiresAt ∧
    document.expiresAt - document.issuedAt ≤ maxManifestLife
  signature : document.keyPolicy.signature ≠ []
  policy : validateKeyPolicyShape rt document.keyPolicy = .ok ()
  contents : validateCatalogContents rt document.discovery document.nodes = .ok ()

theorem validate_eq_ok {document : Document} :
    validate rt document = .ok () ↔ ValidDocument rt document := by
  constructor
  · intro h
    unfold validate at h
    cases hshape : validateKeyPolicyShape rt document.keyPolicy with
    | error e =>
        simp only [hshape] at h
        split_ifs at h
    | ok u =>
        simp only [hshape] at h
        split_ifs at h with hschema hversion hrevision htimes hafter hlife hsignature
        rw [not_not] at hschema
        simp only [Time.isZero, beq_iff_eq, not_or] at htimes
        exact ⟨hschema, hversion, hrevision, htimes.1, htimes.2, ⟨hafter, not_lt.mp hlife⟩,
          hsignature, hshape, h⟩
  · intro h
    have hlife := not_lt.mpr h.lifetime.2
    simp [validate, h.schemaVersion, h.version, h.catalogRevision, h.issuedAt, h.expiresAt,
      h.lifetime.1, hlife, h.signature, h.policy, h.contents, Time.isZero]

/-! ## Issuing -/

structure Sealed (rt : Runtime) (catalog : Catalog) (version : UInt64) (keyPolicy : KeyPolicy)
    (rootPublicKey : Bytes) (now ttl : ℤ) (privateKey payload : Bytes) : Prop where
  key : validEd25519PrivateKey rt privateKey = true
  positive : version ≠ 0
  ttlRange : Duration.minute ≤ ttl ∧ ttl ≤ maxManifestLife
  policy : ∃ digest, validateKeyPolicy rt keyPolicy rootPublicKey = .ok digest
  grant : Authorized keyPolicy (keyID rt (publicKey privateKey)) version
  valid : ValidDocument rt (issuedDocument rt catalog version keyPolicy now ttl)
  encoded : (issuedDocument rt catalog version keyPolicy now ttl).marshal = .ok payload
  size : payload.length ≤ maxManifestBytes

theorem issue_eq_ok {catalog : Catalog} {version : UInt64} {keyPolicy : KeyPolicy}
    {rootPublicKey : Bytes} {now ttl : ℤ} {privateKey : Bytes} {envelope : Envelope} :
    issue rt catalog version keyPolicy rootPublicKey now ttl privateKey = .ok envelope ↔
      ∃ payload, Sealed rt catalog version keyPolicy rootPublicKey now ttl privateKey payload ∧
        sealPayload rt payload privateKey = envelope := by
  constructor
  · intro h
    unfold issue at h
    cases hpolicy : validateKeyPolicy rt keyPolicy rootPublicKey with
    | error e =>
        simp only [hpolicy] at h
        split_ifs at h
    | ok digest =>
        cases hgrant : keyPolicyGrant keyPolicy (keyID rt (publicKey privateKey)) version with
        | error e =>
            simp only [hpolicy, hgrant] at h
            split_ifs at h
        | ok grant =>
            cases hvalid : validate rt (issuedDocument rt catalog version keyPolicy now ttl) with
            | error e =>
                simp only [hpolicy, hgrant, hvalid] at h
                split_ifs at h
            | ok u =>
                cases hpayload : (issuedDocument rt catalog version keyPolicy now ttl).marshal with
                | error e =>
                    simp only [hpolicy, hgrant, hvalid, hpayload] at h
                    split_ifs at h
                | ok payload =>
                    simp only [hpolicy, hgrant, hvalid, hpayload] at h
                    split_ifs at h with hkey hversion httl hsize
                    rw [not_or, not_lt, not_lt] at httl
                    refine ⟨payload, ⟨by simpa using hkey, hversion, httl, ⟨digest, hpolicy⟩,
                      ⟨grant, hgrant⟩, validate_eq_ok.mp hvalid, hpayload, not_lt.mp hsize⟩,
                      Except.ok.inj h⟩
  · rintro ⟨payload, hs, rfl⟩
    obtain ⟨digest, hpolicy⟩ := hs.policy
    obtain ⟨grant, hgrant⟩ := hs.grant
    simp [issue, hs.key, hs.positive, hs.ttlRange.1.not_gt, hs.ttlRange.2.not_gt, hpolicy, hgrant,
      validate_eq_ok.mpr hs.valid, hs.encoded, hs.size.not_gt]

/-! ## Verifying -/

structure Opened where
  payload : Bytes
  signature : Bytes
  document : Document
  policyDigest : Bytes
  grant : KeyGrant
  key : Bytes

def Opened.candidate (rt : Runtime) (o : Opened) : TrustedState :=
  candidateState rt o.payload o.document o.policyDigest o.grant

structure Authentic (rt : Runtime) (envelope : Envelope) (rootPublicKey : Bytes) (now : ℤ)
    (o : Opened) : Prop where
  root : rootPublicKey.length = publicKeySize
  algorithm : envelope.algorithm = algorithm
  keyID : envelope.keyID ≠ []
  encodedPayload : envelope.payload.length ≠ 0 ∧
    envelope.payload.length ≤ encodedLen maxManifestBytes
  encodedSignature : envelope.signature.length = encodedLen signatureSize
  payload : decodeString envelope.payload = some o.payload
  payloadSize : o.payload.length ≠ 0 ∧ o.payload.length ≤ maxManifestBytes
  signature : decodeString envelope.signature = some o.signature
  document : decodeStrict rt rt.decodeDocument o.payload = .ok o.document
  valid : ValidDocument rt o.document
  policy : validateKeyPolicy rt o.document.keyPolicy rootPublicKey = .ok o.policyDigest
  grant : keyPolicyGrant o.document.keyPolicy envelope.keyID o.document.version =
    .ok (o.grant, o.key)
  signatureSize : o.signature.length = signatureSize
  verified : rt.verify o.key o.payload o.signature = true
  begun : o.document.issuedAt - allowedClockSkew ≤ now
  current : now < o.document.expiresAt

theorem authenticatePayload_eq_ok {envelope : Envelope} {rootPublicKey payload signature : Bytes}
    {now : ℤ} {document : Document} {candidate : TrustedState}
    (h : authenticatePayload rt envelope rootPublicKey payload signature now =
      .ok (document, candidate)) :
    ∃ policyDigest grant key,
      decodeStrict rt rt.decodeDocument payload = .ok document ∧ ValidDocument rt document ∧
      validateKeyPolicy rt document.keyPolicy rootPublicKey = .ok policyDigest ∧
      keyPolicyGrant document.keyPolicy envelope.keyID document.version = .ok (grant, key) ∧
      signature.length = signatureSize ∧ rt.verify key payload signature = true ∧
      document.issuedAt - allowedClockSkew ≤ now ∧ now < document.expiresAt ∧
      candidateState rt payload document policyDigest grant = candidate := by
  unfold authenticatePayload at h
  cases hdocument : decodeStrict rt rt.decodeDocument payload with
  | error e =>
      simp only [hdocument] at h
      cases h
  | ok d =>
      cases hvalid : validate rt d with
      | error e =>
          simp only [hdocument, hvalid] at h
          cases h
      | ok u =>
          cases hpolicy : validateKeyPolicy rt d.keyPolicy rootPublicKey with
          | error e =>
              simp only [hdocument, hvalid, hpolicy] at h
              cases h
          | ok policyDigest =>
              cases hgrant : keyPolicyGrant d.keyPolicy envelope.keyID d.version with
              | error e =>
                  simp only [hdocument, hvalid, hpolicy, hgrant] at h
                  cases h
              | ok found =>
                  obtain ⟨grant, key⟩ := found
                  simp only [hdocument, hvalid, hpolicy, hgrant] at h
                  split_ifs at h with hsignature hbegun hcurrent
                  obtain ⟨rfl, rfl⟩ := Prod.mk.inj (Except.ok.inj h)
                  rw [not_or, not_not] at hsignature
                  refine ⟨policyDigest, grant, key, rfl, validate_eq_ok.mp hvalid, hpolicy, hgrant,
                    hsignature.1, by simpa using hsignature.2, ?_, hcurrent, rfl⟩
                  exact not_lt.mp hbegun

theorem authenticate_eq_ok {envelope : Envelope} {rootPublicKey : Bytes} {now : ℤ}
    {document : Document} {candidate : TrustedState} :
    authenticate rt envelope rootPublicKey now = .ok (document, candidate) ↔
      ∃ o : Opened, Authentic rt envelope rootPublicKey now o ∧ o.document = document ∧
        o.candidate rt = candidate := by
  constructor
  · intro h
    unfold authenticate at h
    cases hpayload : decodeString envelope.payload with
    | none =>
        simp only [hpayload] at h
        split_ifs at h
    | some payload =>
        cases hsignature : decodeString envelope.signature with
        | none =>
            simp only [hpayload, hsignature] at h
            split_ifs at h
        | some signature =>
            simp only [hpayload, hsignature] at h
            split_ifs at h with hroot halgorithm hkeyID hencoded hencodedSig hsize
            rw [not_not] at hroot halgorithm hencodedSig
            rw [not_or, not_lt] at hencoded hsize
            obtain ⟨policyDigest, grant, key, hdocument, hvalid, hpolicy, hgrant, hsigsize, hverify,
              hbegun, hcurrent, hcandidate⟩ := authenticatePayload_eq_ok h
            exact ⟨⟨payload, signature, document, policyDigest, grant, key⟩,
              ⟨hroot, halgorithm, hkeyID, hencoded, hencodedSig, hpayload, hsize, hsignature,
                hdocument, hvalid, hpolicy, hgrant, hsigsize, hverify, hbegun, hcurrent⟩, rfl,
              hcandidate⟩
  · rintro ⟨o, ho, rfl, rfl⟩
    have hbegun : ¬now < o.document.issuedAt + -allowedClockSkew := not_lt.mpr ho.begun
    simp only [authenticate, ho.root, ho.algorithm, ho.keyID, ho.encodedPayload.1,
      ho.encodedPayload.2.not_gt, ho.encodedSignature, ho.payload, ho.payloadSize.1,
      ho.payloadSize.2.not_gt, ho.signature, authenticatePayload, ho.document,
      validate_eq_ok.mpr ho.valid, ho.policy, ho.grant, ho.signatureSize, ho.verified, hbegun,
      ho.current, ne_eq, not_true_eq_false, or_self, if_false, Bool.true_eq_false, Opened.candidate]

/-! ## The caller's state -/

structure Complete (t : TrustedState) : Prop where
  version : t.version ≠ 0
  issuedAt : t.issuedAt ≠ 0
  policyVersion : t.policyVersion ≠ 0
  payloadSHA256 : validSHA256Digest t.payloadSHA256 = true
  policySHA256 : validSHA256Digest t.policySHA256 = true
  signingKeyID : t.signingKeyID.length = encodedLen 32
  signingKeyEpoch : t.signingKeyEpoch ≠ 0

structure Succeeds (t c : TrustedState) : Prop where
  policyVersion : t.policyVersion ≤ c.policyVersion
  policySHA256 : c.policyVersion = t.policyVersion → c.policySHA256 = t.policySHA256
  version : t.version ≤ c.version
  same : c.version = t.version → c.payloadSHA256 = t.payloadSHA256 ∧ c.issuedAt = t.issuedAt
  issuedAt : t.issuedAt ≤ c.issuedAt
  epoch : c.version ≠ t.version → t.signingKeyEpoch ≤ c.signingKeyEpoch
  sameKey : c.version ≠ t.version → c.signingKeyID = t.signingKeyID →
    c.signingKeyEpoch = t.signingKeyEpoch
  otherKey : c.version ≠ t.version → c.signingKeyID ≠ t.signingKeyID →
    t.signingKeyEpoch < c.signingKeyEpoch

theorem length_ne_zero_of_validSHA256Digest {s : Bytes} (h : validSHA256Digest s = true) :
    s ≠ [] := by
  rintro rfl
  revert h
  decide

theorem validSHA256Digest_digest (s : Bytes) : validSHA256Digest (rt.digest s) = true := by
  rw [validSHA256Digest, rt.decodeString_digest]
  simp

theorem transition_empty (c : TrustedState) :
    validateStateTransition .empty c = .ok () := by
  simp [validateStateTransition, TrustedState.empty, Time.isZero]

theorem Complete.guards {t : TrustedState} (h : Complete t) :
    ¬(t.payloadSHA256 = [] ∨ Time.isZero t.issuedAt = true ∨ t.policyVersion = 0 ∨
      t.policySHA256 = [] ∨ t.signingKeyID = [] ∨ t.signingKeyEpoch = 0) ∧
    ¬(validSHA256Digest t.payloadSHA256 = false ∨ validSHA256Digest t.policySHA256 = false ∨
      t.signingKeyID.length ≠ encodedLen 32) := by
  have hkey : t.signingKeyID ≠ [] := by
    intro hnil
    have hlen := h.signingKeyID
    simp [hnil, encodedLen] at hlen
  refine ⟨?_, ?_⟩
  · simp [length_ne_zero_of_validSHA256Digest h.payloadSHA256, Time.isZero, h.issuedAt,
      h.policyVersion, length_ne_zero_of_validSHA256Digest h.policySHA256, hkey, h.signingKeyEpoch]
  · simp [h.payloadSHA256, h.policySHA256, h.signingKeyID]

theorem transition_complete {t c : TrustedState} (ht : Complete t) :
    validateStateTransition t c = .ok () ↔ Succeeds t c := by
  unfold validateStateTransition
  rw [if_neg ht.version, if_neg ht.guards.1, if_neg ht.guards.2]
  constructor
  · intro h
    split_ifs at h with hp hps hv hve hsame hi he hsk hok
    · rw [not_or, not_not, not_not] at hsame
      rw [UInt64.not_lt] at hp
      refine ⟨hp, fun heq => ?_, UInt64.le_of_eq hve.symm, fun _ => hsame, hsame.2.ge, ?_, ?_, ?_⟩
      · exact not_not.mp fun hne => hps ⟨heq, hne⟩
      · exact fun hne => absurd hve hne
      · exact fun hne => absurd hve hne
      · exact fun hne => absurd hve hne
    · rw [UInt64.not_lt] at hp hv he
      refine ⟨hp, fun heq => ?_, hv, fun heq => absurd heq hve, not_lt.mp hi, fun _ => he, ?_, ?_⟩
      · exact not_not.mp fun hne => hps ⟨heq, hne⟩
      · exact fun _ hkey => not_not.mp fun hne => hsk ⟨hkey, hne⟩
      · exact fun _ hkey => UInt64.not_le.mp fun hle => hok ⟨hkey, hle⟩
  · intro h
    rw [if_neg (UInt64.not_lt.mpr h.policyVersion), if_neg fun hps => hps.2 (h.policySHA256 hps.1),
      if_neg (UInt64.not_lt.mpr h.version)]
    by_cases hve : c.version = t.version
    · rw [if_pos hve, if_neg]
      rw [not_or, not_not, not_not]
      exact h.same hve
    · rw [if_neg hve, if_neg (not_lt.mpr h.issuedAt), if_neg (UInt64.not_lt.mpr (h.epoch hve)),
        if_neg fun hsk => hsk.2 (h.sameKey hve hsk.1),
        if_neg fun hok => UInt64.not_le.mpr (h.otherKey hve hok.1) hok.2]

/-- Every branch of the transition check that complains about the caller's own state. -/
def malformedState : List Error :=
  [.new "manifest: trusted state is internally inconsistent",
    .new "manifest: trusted state is incomplete",
    .new "manifest: trusted state contains invalid digests or key ID"]

theorem transition_not_malformed {t c : TrustedState} (ht : t = .empty ∨ Complete t) {e : Error}
    (h : validateStateTransition t c = .error e) : e ∉ malformedState := by
  rcases ht with rfl | ht
  · rw [transition_empty] at h
    cases h
  · unfold validateStateTransition at h
    rw [if_neg ht.version, if_neg ht.guards.1, if_neg ht.guards.2] at h
    split_ifs at h <;> cases h <;> simp [malformedState]

/-! ## A small deployment -/

namespace Sample

/-- The runtime whose decoder knows the given texts and the documents they stand for. -/
def reading (entries : List (Bytes × Document)) : Runtime :=
  { Runtime.toy with
    decodeDocument := fun s =>
      match entries.lookup s with
      | some d => .ok (d, [])
      | none => .error (.library "unexpected end of JSON input") }

def catalog : Catalog :=
  ⟨1, [⟨str "a", str "https://mirror", 1⟩],
    [⟨str "n", str "r", str "DE", str "p", 1,
      [⟨str "e", transportAmneziaWG, str "192.0.2.1:443", [], str "c", 1⟩]⟩]⟩

def document (policy : KeyPolicy) (version : UInt64) (now : ℤ) : Document :=
  issuedDocument .toy catalog version policy now Duration.hour

def envelope (seed : UInt8) (payload : Bytes) : Envelope :=
  sealPayload .toy payload (List.replicate 64 seed)

end Sample

end CloudHelp.Manifest
