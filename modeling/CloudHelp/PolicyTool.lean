import CloudHelp.RoundTrip

/-!
# The offline policy tool and its reader

`cmd/manifest-key-policy` signs a list of grants with the offline root and writes the policy as
indented JSON; `DecodeKeyPolicy` reads that file in the control plane, under a limit of its own.
What the tool writes is within that limit (`length_encodePolicy_le`), and of the checks of `Issue`
none fails on account of the policy for the key granted a version (`issue_iff_issuable`).
-/

namespace CloudHelp

open Base64Url

namespace Manifest

variable (rt : Runtime)

def maxKeyPolicyBytes : ℕ := 32 * 1024

def decodeKeyPolicy (decodePolicy : Bytes → Except Error (KeyPolicy × Bytes)) (reader : Reader) :
    Except Error KeyPolicy :=
  match reader.readAll (maxKeyPolicyBytes + 1) with
  | .error e => .error (.wrap "manifest: read key policy: %w" [] e)
  | .ok data =>
      if data.length = 0 ∨ maxKeyPolicyBytes < data.length then
        .error (.new "manifest: key policy size is invalid")
      else match decodeStrict rt decodePolicy data with
        | .error e => .error (.wrap "manifest: decode key policy: %w" [] e)
        | .ok policy => .ok policy

/-- What `Issue` asks of its arguments apart from the policy, the grant and the key. -/
structure Publishable (catalog : Catalog) (version : UInt64) (keyPolicy : KeyPolicy)
    (now ttl : ℤ) : Prop where
  ttlRange : Duration.minute ≤ ttl ∧ ttl ≤ maxManifestLife
  catalogRevision : catalog.revision ≠ 0
  issuedAt : Time.truncateSecond now ≠ 0
  expiresAt : Time.truncateSecond now + ttl ≠ 0
  contents : validateCatalogContents rt (canonicalDiscovery rt catalog.discovery)
    (canonicalNodes rt catalog.nodes) = .ok ()
  encoded : ∃ payload, (issuedDocument rt catalog version keyPolicy now ttl).marshal = .ok payload ∧
    payload.length ≤ maxManifestBytes

structure Issuable (catalog : Catalog) (version : UInt64) (keyPolicy : KeyPolicy) (now ttl : ℤ)
    (privateKey : Bytes) : Prop extends Publishable rt catalog version keyPolicy now ttl where
  key : validEd25519PrivateKey rt privateKey = true

end Manifest

namespace PolicyTool

open Manifest

/-- What the operating system answers while the policy file is written; `none` is success. -/
structure FileResults where
  create : Option Error
  write : Option Error
  sync : Option Error
  close : Option Error

def FileResults.success : FileResults := ⟨none, none, none, none⟩

/-- `encoder.Encode(policy)` with two spaces of indentation and HTML escaping off. -/
def encodePolicy (policy : KeyPolicy) : Bytes := (policy.json false).indent 0 ++ [10]

/-- `writePolicy`: the content of the new file. After an error there is none, the file is removed.
-/
def writePolicy (file : FileResults) (policy : KeyPolicy) : Except Error Bytes :=
  match file.create with
  | some e => .error (.wrap "create key policy: %w" [] e)
  | none =>
      match file.write with
      | some e => .error (.wrap "encode key policy: %w" [] e)
      | none =>
          match file.sync with
          | some e => .error (.wrap "sync key policy: %w" [] e)
          | none =>
              match file.close with
              | some e => .error (.wrap "close key policy: %w" [] e)
              | none => .ok (encodePolicy policy)

variable {rt : Runtime} {root : Bytes} {version : UInt64} {grants : List KeyGrant}
  {policy : KeyPolicy}

/-! ## The signed policy -/

theorem signKeyPolicy_eq_ok (h : signKeyPolicy rt root version grants = .ok policy) :
    validEd25519PrivateKey rt root = true ∧
      validateKeyPolicyShape rt { policy with signature := [] } = .ok () ∧
      policy.keys = canonicalKeyGrants rt grants ∧
      policy.rootKeyID = keyID rt (publicKey root) ∧
      policy.signature =
        encodeToString (rt.sign root (keyPolicySigningBytes rt policy)).toList := by
  unfold signKeyPolicy at h
  dsimp only at h
  split_ifs at h with hroot
  split at h
  · cases h
  · rename_i hshape
    obtain rfl := Except.ok.inj h
    exact ⟨by simpa using hroot, hshape, rfl, rfl, rfl⟩

/-- A signature of the right size does not change the shape. -/
theorem validateKeyPolicyShape_signed
    (h : validateKeyPolicyShape rt { policy with signature := [] } = .ok ())
    (hsize : policy.signature.length = encodedLen signatureSize) :
    validateKeyPolicyShape rt policy = .ok () := by
  unfold validateKeyPolicyShape at h ⊢
  simpa [hsize] using h

theorem length_keys_le (h : validateKeyPolicyShape rt policy = .ok ()) :
    policy.keys.length ≤ maxPolicyKeys := by
  unfold validateKeyPolicyShape at h
  dsimp only at h
  split_ifs at h with _ _ hkeys
  all_goals omega

theorem length_publicKey (h : validEd25519PrivateKey rt root = true) :
    (publicKey root).length = publicKeySize := by
  have hlength : root.length = privateKeySize := (of_decide_eq_true h).1
  rw [publicKey, List.length_drop, hlength]
  rfl

theorem signedBy_of_sign (hsign : rt.VerifiesSigned)
    (h : signKeyPolicy rt root version grants = .ok policy) :
    ∃ signature, SignedBy rt policy (publicKey root) signature := by
  obtain ⟨hroot, hshape, _, hid, hsignature⟩ := signKeyPolicy_eq_ok h
  have hsize : policy.signature.length = encodedLen signatureSize := by
    rw [hsignature, length_encodeToString, Vector.length_toList]
    rfl
  refine ⟨(rt.sign root (keyPolicySigningBytes rt policy)).toList, ?_⟩
  exact
    { root := length_publicKey hroot
      shape := validateKeyPolicyShape_signed hshape hsize
      rootKeyID := hid
      decode := by rw [hsignature, decodeString_encodeToString]
      size := Vector.length_toList
      verify := hsign root _ hroot }

/-! ## The size of the file -/

def NewGrant (rt : Runtime) (grant : KeyGrant) : Prop :=
  ∃ key epoch notBeforeVersion notAfterVersion,
    newKeyGrant rt key epoch notBeforeVersion notAfterVersion = .ok grant

theorem length_indent_grant {g : KeyGrant} (h : NewGrant rt g) :
    (Json.indent 2 (g.json false)).length ≤ 272 := by
  obtain ⟨key, epoch, notBefore, notAfter, hg⟩ := h
  unfold newKeyGrant at hg
  split_ifs at hg with hkey
  rw [not_not] at hkey
  obtain rfl := Except.ok.inj hg
  have hnames : (str "key_id").length = 6 ∧ (str "public_key").length = 10 ∧
      (str "epoch").length = 5 ∧ (str "not_before_version").length = 18 ∧
      (str "not_after_version").length = 17 := by decide
  obtain ⟨h1, h2, h3, h4, h5⟩ := hnames
  have hepoch := length_formatInt_le epoch
  have hstart := length_formatInt_le notBefore
  have hend := length_formatInt_le notAfter
  simp only [KeyGrant.json, keyID, Runtime.digest, ofString_encodeToString, Json.indent,
    Json.indentMember, Json.indentMembers, Json.newline, List.length_append, List.length_cons,
    List.length_nil, List.length_replicate, length_encodeToString, Vector.length_toList, hkey, h1,
    h2, h3, h4, h5]
  simp only [encodedLen, publicKeySize]
  omega

theorem length_indentItems_le (h : ∀ g ∈ grants, NewGrant rt g) :
    (Json.indentItems 1 (grants.map (KeyGrant.json false))).length ≤ 278 * grants.length + 4 := by
  induction grants with
  | nil => simp [Json.indentItems, Json.newline]
  | cons g grants ih =>
      have hg := length_indent_grant (h g List.mem_cons_self)
      have hrest := ih fun g' hg' => h g' (List.mem_cons_of_mem _ hg')
      simp only [List.map_cons, Json.indentItems, Json.newline, List.length_cons,
        List.length_append, List.length_replicate, Nat.reduceAdd]
      omega

theorem length_indent_grants (h : ∀ g ∈ grants, NewGrant rt g) :
    (Json.indent 1 (.arr (grants.map (KeyGrant.json false)))).length ≤ 278 * grants.length + 4 := by
  cases grants with
  | nil => simp [Json.indent]
  | cons g grants =>
      have hg := length_indent_grant (h g List.mem_cons_self)
      have hrest := length_indentItems_le fun g' hg' => h g' (List.mem_cons_of_mem _ hg')
      simp only [List.map_cons, Json.indent, Json.newline, List.length_cons, List.length_append,
        List.length_replicate, Nat.reduceAdd]
      omega

theorem length_encodePolicy_le (hnew : ∀ g ∈ grants, NewGrant rt g)
    (h : signKeyPolicy rt root version grants = .ok policy) :
    (encodePolicy policy).length ≤ maxKeyPolicyBytes := by
  obtain ⟨_, hshape, hkeys, hid, hsignature⟩ := signKeyPolicy_eq_ok h
  have hall : ∀ g ∈ policy.keys, NewGrant rt g := by
    intro g hg
    rw [hkeys, mem_canonicalKeyGrants] at hg
    exact hnew g hg
  have hgrants := length_indent_grants hall
  have hcount : policy.keys.length ≤ maxPolicyKeys := (length_keys_le hshape :)
  have hversion := length_formatInt_le policy.version
  have hnames : (str "version").length = 7 ∧ (str "root_key_id").length = 11 ∧
      (str "keys").length = 4 ∧ (str "signature").length = 9 := by decide
  obtain ⟨h1, h2, h3, h4⟩ := hnames
  rw [encodePolicy, KeyPolicy.json, hid, hsignature]
  simp only [keyID, Runtime.digest, ofString_encodeToString, Json.indent.eq_6, Json.indent.eq_1,
    Json.indent.eq_2, Json.indentMember, Json.indentMembers, Json.newline, List.length_append,
    List.length_cons, List.length_nil, List.length_replicate, length_encodeToString,
    Vector.length_toList, Nat.reduceAdd, h1, h2, h3, h4]
  simp only [encodedLen]
  unfold maxPolicyKeys at hcount
  unfold maxKeyPolicyBytes
  omega

/-! ## Issuing under the policy -/

/-- With the policy signed by the root and the key granted the version, what is left of the checks
of `Issue` is `Issuable`. -/
theorem issue_iff_issuable {rootPublicKey signature privateKey : Bytes} {v : UInt64}
    (hs : SignedBy rt policy rootPublicKey signature) (hv : v ≠ 0)
    (hgrant : Authorized policy (keyID rt (publicKey privateKey)) v) (catalog : Catalog)
    (now ttl : ℤ) :
    (∃ envelope, issue rt catalog v policy rootPublicKey now ttl privateKey = .ok envelope) ↔
      Issuable rt catalog v policy now ttl privateKey := by
  constructor
  · rintro ⟨envelope, h⟩
    obtain ⟨payload, hsealed, _⟩ := issue_eq_ok.mp h
    exact
      { key := hsealed.key
        ttlRange := hsealed.ttlRange
        catalogRevision := hsealed.valid.catalogRevision
        issuedAt := hsealed.valid.issuedAt
        expiresAt := hsealed.valid.expiresAt
        contents := hsealed.valid.contents
        encoded := ⟨payload, hsealed.encoded, hsealed.size⟩ }
  · intro h
    obtain ⟨payload, hencoded, hsize⟩ := h.encoded
    have hdigest : validateKeyPolicy rt policy rootPublicKey =
        .ok (rt.digest (canonicalPolicyText rt policy)) :=
      validateKeyPolicy_eq_ok.mpr ⟨⟨signature, hs⟩, rfl⟩
    obtain ⟨⟨_, hcanonical⟩, _⟩ :=
      validateKeyPolicy_eq_ok.mp (validateKeyPolicy_canonical hdigest)
    have hminute : (0 : ℤ) < Duration.minute := by decide
    have hlife := h.ttlRange
    have hvalid : ValidDocument rt (issuedDocument rt catalog v policy now ttl) :=
      { schemaVersion := rfl
        version := hv
        catalogRevision := h.catalogRevision
        issuedAt := h.issuedAt
        expiresAt := h.expiresAt
        lifetime := by
          simp only [issuedDocument]
          omega
        signature := by
          intro hnil
          have hdecode : decodeString [] = some signature := hnil ▸ hs.decode
          obtain rfl : [] = signature := Option.some.inj hdecode
          exact absurd hs.size (by decide)
        policy := hcanonical.shape
        contents := h.contents }
    exact ⟨_, issue_eq_ok.mpr ⟨payload, ⟨h.key, hv, h.ttlRange, ⟨_, hdigest⟩, hgrant, hvalid,
      hencoded, hsize⟩, rfl⟩⟩

/-- The grant that covers a version is the one found under its key's identifier. -/
theorem keyPolicyGrant_of_covers {g : KeyGrant} {raw : Bytes} {v : UInt64} (h : Shape rt policy)
    (hg : g ∈ policy.keys) (hcovers : g.Covers v) (hkey : grantKey rt g = some raw) :
    keyPolicyGrant policy (keyID rt raw) v = .ok (g, raw) := by
  obtain ⟨_, _, hid⟩ := grantKey_eq_some.mp hkey
  exact h.grant_eq_ok.mpr ⟨hg, hid.symm, hcovers, hkey⟩

end PolicyTool

end CloudHelp
