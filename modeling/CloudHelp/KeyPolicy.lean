import CloudHelp.ManifestJson

/-!
# Key policies

`internal/manifest/keypolicy.go`: the shape a policy must have, the grant of a key for a version,
the bytes the offline root signs and the digest that stands for a signed policy. A private key is
its seed followed by its public key, as in `crypto/ed25519`.
-/

namespace CloudHelp.Manifest

open Base64Url

variable (rt : Runtime)

def keyPolicyContext : Bytes := str "virtual-cloud-help-service/manifest-key-policy/v1"

def maxPolicyKeys : ℕ := 64

def seedSize : ℕ := 32

def publicKeySize : ℕ := 32

def privateKeySize : ℕ := 64

def signatureSize : ℕ := 64

def maxUint64 : UInt64 := 18446744073709551615

def keyID (publicKey : Bytes) : Bytes := rt.digest publicKey

def canonicalKeyGrants (grants : List KeyGrant) : List KeyGrant :=
  rt.sort.run (lessBy (fun g => g.notBeforeVersion.toNat) KeyGrant.keyID) grants

def canonicalKeyPolicy (policy : KeyPolicy) : KeyPolicy :=
  { policy with keys := canonicalKeyGrants rt policy.keys }

/-- The raw key of a grant, when its text decodes to a key with the grant's ID. -/
def grantKey (grant : KeyGrant) : Option Bytes :=
  match decodeString grant.publicKey with
  | none => none
  | some raw => if raw.length = publicKeySize ∧ keyID rt raw = grant.keyID then some raw else none

/-- The loop of `validateKeyPolicyShape` over the sorted grants; `previous` is `grants[index-1]`. -/
def validateGrants : ℕ → Option KeyGrant → List Bytes → List KeyGrant → Except Error Unit
  | _, _, _, [] => .ok ()
  | index, previous, seenKeys, grant :: rest =>
      if grantKey rt grant = none then
        .error (.errorf "manifest: key policy grant %d has an invalid key" [.num index])
      else if grant.keyID ∈ seenKeys then
        .error (.errorf "manifest: duplicate key policy grant %q" [.text grant.keyID])
      else if grant.epoch = 0 ∨ grant.notBeforeVersion = 0 then
        .error (.errorf "manifest: key policy grant %q has a zero epoch or start version"
          [.text grant.keyID])
      else if grant.notAfterVersion ≠ 0 ∧ grant.notAfterVersion < grant.notBeforeVersion then
        .error (.errorf "manifest: key policy grant %q has an invalid version range"
          [.text grant.keyID])
      else match previous with
        | none =>
            if grant.epoch ≠ 1 ∨ grant.notBeforeVersion ≠ 1 then
              .error (.new "manifest: first key policy grant must start at epoch and version 1")
            else validateGrants (index + 1) (some grant) (grant.keyID :: seenKeys) rest
        | some previous =>
            if previous.notAfterVersion = 0 ∨ previous.notAfterVersion = maxUint64 then
              .error (.new "manifest: only the final key policy grant may be open-ended")
            else if grant.epoch ≠ previous.epoch + 1 ∨
                grant.notBeforeVersion ≠ previous.notAfterVersion + 1 then
              .error (.new "manifest: key policy grants must have contiguous versions and epochs")
            else validateGrants (index + 1) (some grant) (grant.keyID :: seenKeys) rest

def validateKeyPolicyShape (policy : KeyPolicy) : Except Error Unit :=
  let grants := canonicalKeyGrants rt policy.keys
  if policy.version = 0 then .error (.new "manifest: key policy version must be positive")
  else if policy.rootKeyID.length ≠ encodedLen 32 then
    .error (.new "manifest: key policy root key ID is invalid")
  else if policy.keys.length = 0 ∨ maxPolicyKeys < policy.keys.length then
    .error (.errorf "manifest: key policy must contain between 1 and %d grants"
      [.num maxPolicyKeys])
  else if policy.signature ≠ [] ∧ policy.signature.length ≠ encodedLen signatureSize then
    .error (.new "manifest: encoded key policy signature size is invalid")
  else match validateGrants rt 0 none [] grants with
    | .error e => .error e
    | .ok () =>
        if (grants.getLast?.map KeyGrant.notAfterVersion).getD 0 ≠ 0 then
          .error (.new "manifest: final key policy grant must be open-ended")
        else .ok ()

/-- `KeyPolicyGrant`: the first grant of the key decides. -/
def keyPolicyGrant (policy : KeyPolicy) (keyID : Bytes) (version : UInt64) :
    Except Error (KeyGrant × Bytes) :=
  match policy.keys.find? fun grant => grant.keyID = keyID with
  | none => .error (.errorf "manifest: signing key %q is absent from key policy" [.text keyID])
  | some grant =>
      if version < grant.notBeforeVersion ∨
          (grant.notAfterVersion ≠ 0 ∧ grant.notAfterVersion < version) then
        .error (.errorf "manifest: signing key %q is not authorized for version %d"
          [.text keyID, .num version.toNat])
      else match decodeString grant.publicKey with
        | none => .error (.new "manifest: key policy contains an invalid public key")
        | some raw =>
            if raw.length ≠ publicKeySize then
              .error (.new "manifest: key policy contains an invalid public key")
            else .ok (grant, raw)

/-- `privateKey.Public()` -/
def publicKey (privateKey : Bytes) : Bytes := privateKey.drop seedSize

def validEd25519PrivateKey (privateKey : Bytes) : Bool :=
  privateKey.length = privateKeySize ∧
    (rt.newKeyFromSeed (privateKey.take seedSize)).toList = privateKey

def newKeyGrant (publicKey : Bytes) (epoch notBeforeVersion notAfterVersion : UInt64) :
    Except Error KeyGrant :=
  if publicKey.length ≠ publicKeySize then .error (.new "manifest: invalid manifest public key")
  else .ok
    { keyID := keyID rt publicKey
      publicKey := encodeToString publicKey
      epoch := epoch
      notBeforeVersion := notBeforeVersion
      notAfterVersion := notAfterVersion }

/-- What the offline root signs. Encoding it cannot fail. -/
def keyPolicySigningBytes (policy : KeyPolicy) : Bytes :=
  (Json.obj [(str "context", jsonString keyPolicyContext),
    (str "version", .num policy.version.toNat), (str "root_key_id", jsonString policy.rootKeyID),
    (str "keys", .arr ((canonicalKeyGrants rt policy.keys).map KeyGrant.toJson))]).encode

def signKeyPolicy (rootPrivateKey : Bytes) (version : UInt64) (grants : List KeyGrant) :
    Except Error KeyPolicy :=
  let policy : KeyPolicy :=
    { version := version
      rootKeyID := keyID rt (publicKey rootPrivateKey)
      keys := canonicalKeyGrants rt grants
      signature := [] }
  if validEd25519PrivateKey rt rootPrivateKey = false then
    .error (.new "manifest: invalid offline root private key")
  else match validateKeyPolicyShape rt policy with
    | .error e => .error e
    | .ok () =>
        .ok { policy with
          signature := encodeToString
            (rt.sign rootPrivateKey (keyPolicySigningBytes rt policy)).toList }

/-- The text whose digest `ValidateKeyPolicy` returns. -/
def canonicalPolicyText (policy : KeyPolicy) : Bytes := (canonicalKeyPolicy rt policy).toJson.encode

def validateKeyPolicy (policy : KeyPolicy) (rootPublicKey : Bytes) : Except Error Bytes :=
  if rootPublicKey.length ≠ publicKeySize then
    .error (.new "manifest: invalid offline root public key")
  else match validateKeyPolicyShape rt policy with
    | .error e => .error e
    | .ok () =>
        if policy.rootKeyID ≠ keyID rt rootPublicKey then
          .error (.new "manifest: key policy root does not match the pinned offline root")
        else match decodeString policy.signature with
          | none => .error (.new "manifest: key policy signature is invalid")
          | some signature =>
              if signature.length ≠ signatureSize then
                .error (.new "manifest: key policy signature is invalid")
              else if rt.verify rootPublicKey (keyPolicySigningBytes rt policy) signature =
                  false then
                .error (.new "manifest: key policy signature verification failed")
              else .ok (rt.digest (canonicalPolicyText rt policy))

structure SignedBy (policy : KeyPolicy) (rootPublicKey signature : Bytes) : Prop where
  root : rootPublicKey.length = publicKeySize
  shape : validateKeyPolicyShape rt policy = .ok ()
  rootKeyID : policy.rootKeyID = keyID rt rootPublicKey
  decode : decodeString policy.signature = some signature
  size : signature.length = signatureSize
  verify : rt.verify rootPublicKey (keyPolicySigningBytes rt policy) signature = true

variable {rt}

theorem validateKeyPolicy_eq_ok {policy : KeyPolicy} {rootPublicKey digest : Bytes} :
    validateKeyPolicy rt policy rootPublicKey = .ok digest ↔
      (∃ signature, SignedBy rt policy rootPublicKey signature) ∧
        rt.digest (canonicalPolicyText rt policy) = digest := by
  constructor
  · intro h
    unfold validateKeyPolicy at h
    cases hshape : validateKeyPolicyShape rt policy with
    | error e =>
        simp only [hshape] at h
        split_ifs at h
    | ok u =>
        cases hdecode : decodeString policy.signature with
        | none =>
            simp only [hshape, hdecode] at h
            split_ifs at h
        | some signature =>
            simp only [hshape, hdecode] at h
            split_ifs at h with hroot hid hsize hverify
            refine ⟨⟨signature, ?_⟩, Except.ok.inj h⟩
            rw [not_not] at hroot hid hsize
            exact ⟨hroot, hshape, hid, hdecode, hsize, by simpa using hverify⟩
  · rintro ⟨⟨signature, hs⟩, rfl⟩
    simp [validateKeyPolicy, hs.root, hs.shape, hs.rootKeyID, hs.decode, hs.size, hs.verify]

end CloudHelp.Manifest
