import CloudHelp.Catalog
import CloudHelp.KeyPolicy

/-!
# Issuing and verifying manifests

`Validate`, `Issue`, `DecodeEnvelope` and `Verify` of `internal/manifest/manifest.go`. `verify`
returns the state next to its result because the source returns the caller's state with every
error. Its body is cut where the caller's state comes in: `authenticate` is everything before, and
ends with the state the document would leave behind.

`Sealed` and `Authentic` say what a successful `issue` and a successful `authenticate` have checked.
-/

namespace CloudHelp.Manifest

open Base64Url

variable (rt : Runtime)

def schemaVersion : ℤ := 3

def algorithm : Bytes := str "Ed25519"

def maxManifestBytes : ℕ := 2 ^ 20

def maxManifestLife : ℤ := Duration.hour

def allowedClockSkew : ℤ := 2 * Duration.minute

def validate (document : Document) : Except Error Unit :=
  if document.schemaVersion ≠ schemaVersion then
    .error (.errorf "manifest: unsupported schema version %d" [.num document.schemaVersion])
  else if document.version = 0 then .error (.new "manifest: version must be greater than zero")
  else if document.catalogRevision = 0 then
    .error (.new "manifest: catalog revision must be greater than zero")
  else if Time.isZero document.issuedAt = true ∨ Time.isZero document.expiresAt = true then
    .error (.new "manifest: issuance and expiry times are required")
  else if ¬document.issuedAt < document.expiresAt then
    .error (.new "manifest: expiry must be after issuance")
  else if maxManifestLife < document.expiresAt - document.issuedAt then
    .error (.errorf "manifest: lifetime exceeds %s" [.duration maxManifestLife])
  else if document.keyPolicy.signature = [] then
    .error (.new "manifest: signed key policy is required")
  else match validateKeyPolicyShape rt document.keyPolicy with
    | .error e => .error e
    | .ok () => validateCatalogContents rt document.discovery document.nodes

/-! ## Issuing -/

def issuedDocument (catalog : Catalog) (version : UInt64) (keyPolicy : KeyPolicy) (now ttl : ℤ) :
    Document :=
  { schemaVersion := schemaVersion
    version := version
    catalogRevision := catalog.revision
    issuedAt := Time.truncateSecond now
    expiresAt := Time.truncateSecond now + ttl
    keyPolicy := canonicalKeyPolicy rt keyPolicy
    discovery := canonicalDiscovery rt catalog.discovery
    nodes := canonicalNodes rt catalog.nodes }

def sealPayload (payload privateKey : Bytes) : Envelope :=
  { algorithm := algorithm
    keyID := keyID rt (publicKey privateKey)
    payload := encodeToString payload
    signature := encodeToString (rt.sign privateKey payload).toList }

def issue (catalog : Catalog) (version : UInt64) (keyPolicy : KeyPolicy) (rootPublicKey : Bytes)
    (now ttl : ℤ) (privateKey : Bytes) : Except Error Envelope :=
  let document := issuedDocument rt catalog version keyPolicy now ttl
  if validEd25519PrivateKey rt privateKey = false then
    .error (.new "manifest: invalid Ed25519 private key")
  else if version = 0 then .error (.new "manifest: issued version must be greater than zero")
  else if ttl < Duration.minute ∨ maxManifestLife < ttl then
    .error (.errorf "manifest: ttl must be between 1m and %s" [.duration maxManifestLife])
  else match validateKeyPolicy rt keyPolicy rootPublicKey with
    | .error e => .error e
    | .ok _ =>
        match keyPolicyGrant keyPolicy (keyID rt (publicKey privateKey)) version with
        | .error e => .error e
        | .ok _ =>
            match validate rt document with
            | .error e => .error e
            | .ok () =>
                match document.marshal with
                | .error e => .error (.wrap "manifest: encode payload: %w" [] e)
                | .ok payload =>
                    if maxManifestBytes < payload.length then
                      .error (.new "manifest: encoded payload exceeds 1 MiB")
                    else .ok (sealPayload rt payload privateKey)

/-! ## Decoding -/

/-- A reader: the bytes it yields, and the error it ends with where that is not the end of file. -/
structure Reader where
  body : Bytes
  failure : Option Error

/-- `io.ReadAll(io.LimitReader(reader, limit))`: nothing past the limit is asked for. -/
def Reader.readAll (reader : Reader) (limit : ℕ) : Except Error Bytes :=
  if limit ≤ reader.body.length then .ok (reader.body.take limit)
  else match reader.failure with
    | none => .ok reader.body
    | some e => .error e

/-- `decodeStrict`, with the decoder of the target's type. -/
def decodeStrict {α : Type} (decode : Bytes → Except Error (α × Bytes)) (data : Bytes) :
    Except Error α :=
  match decode data with
  | .error e => .error e
  | .ok (value, rest) =>
      match rt.decodeAny rest with
      | .eof => .ok value
      | .error e => .error (.wrap "decode trailing JSON data: %w" [] e)
      | .value => .error (.new "unexpected trailing JSON value")

def maxEnvelopeBytes : ℕ := encodedLen maxManifestBytes + 1024

def decodeEnvelope (reader : Reader) : Except Error Envelope :=
  match reader.readAll (maxEnvelopeBytes + 1) with
  | .error e => .error (.wrap "manifest: read envelope: %w" [] e)
  | .ok data =>
      if data.length = 0 ∨ maxEnvelopeBytes < data.length then
        .error (.new "manifest: envelope size is invalid")
      else match decodeStrict rt rt.decodeEnvelope data with
        | .error e => .error (.wrap "manifest: decode envelope: %w" [] e)
        | .ok envelope => .ok envelope

/-! ## Verifying -/

def validSHA256Digest (encoded : Bytes) : Bool :=
  match decodeString encoded with
  | none => false
  | some raw => raw.length == 32

def candidateState (payload : Bytes) (document : Document) (policyDigest : Bytes)
    (grant : KeyGrant) : TrustedState :=
  { version := document.version
    issuedAt := document.issuedAt
    payloadSHA256 := rt.digest payload
    policyVersion := document.keyPolicy.version
    policySHA256 := policyDigest
    signingKeyID := grant.keyID
    signingKeyEpoch := grant.epoch }

/-- `Verify` up to the candidate state, after the envelope's texts are decoded. -/
def authenticatePayload (envelope : Envelope) (rootPublicKey payload signature : Bytes) (now : ℤ) :
    Except Error (Document × TrustedState) :=
  match decodeStrict rt rt.decodeDocument payload with
  | .error e => .error (.wrap "manifest: decode signed document: %w" [] e)
  | .ok document =>
      match validate rt document with
      | .error e => .error e
      | .ok () =>
          match validateKeyPolicy rt document.keyPolicy rootPublicKey with
          | .error e => .error e
          | .ok policyDigest =>
              match keyPolicyGrant document.keyPolicy envelope.keyID document.version with
              | .error e => .error e
              | .ok (grant, signingPublicKey) =>
                  if signature.length ≠ signatureSize ∨
                      rt.verify signingPublicKey payload signature = false then
                    .error (.new "manifest: signature verification failed")
                  else if now < document.issuedAt + -allowedClockSkew then
                    .error (.new "manifest: document is not valid yet")
                  else if ¬now < document.expiresAt then
                    .error (.new "manifest: document has expired")
                  else .ok (document, candidateState rt payload document policyDigest grant)

def authenticate (envelope : Envelope) (rootPublicKey : Bytes) (now : ℤ) :
    Except Error (Document × TrustedState) :=
  if rootPublicKey.length ≠ publicKeySize then
    .error (.new "manifest: invalid offline root public key")
  else if envelope.algorithm ≠ algorithm then
    .error (.errorf "manifest: unsupported algorithm %q" [.text envelope.algorithm])
  else if envelope.keyID = [] then .error (.new "manifest: signing key ID is required")
  else if envelope.payload.length = 0 ∨ encodedLen maxManifestBytes < envelope.payload.length then
    .error (.new "manifest: encoded payload size is invalid")
  else if envelope.signature.length ≠ encodedLen signatureSize then
    .error (.new "manifest: encoded signature size is invalid")
  else match decodeString envelope.payload with
    | none => .error (.wrap "manifest: decode payload: %w" [] (.library "illegal base64 data"))
    | some payload =>
        if payload.length = 0 ∨ maxManifestBytes < payload.length then
          .error (.new "manifest: payload size is invalid")
        else match decodeString envelope.signature with
          | none =>
              .error (.wrap "manifest: decode signature: %w" [] (.library "illegal base64 data"))
          | some signature => authenticatePayload rt envelope rootPublicKey payload signature now

def validateStateTransition (trusted candidate : TrustedState) : Except Error Unit :=
  if trusted.version = 0 then
    if trusted.payloadSHA256 ≠ [] ∨ Time.isZero trusted.issuedAt = false ∨
        trusted.policyVersion ≠ 0 ∨ trusted.policySHA256 ≠ [] ∨ trusted.signingKeyID ≠ [] ∨
        trusted.signingKeyEpoch ≠ 0 then
      .error (.new "manifest: trusted state is internally inconsistent")
    else .ok ()
  else if trusted.payloadSHA256 = [] ∨ Time.isZero trusted.issuedAt = true ∨
      trusted.policyVersion = 0 ∨ trusted.policySHA256 = [] ∨ trusted.signingKeyID = [] ∨
      trusted.signingKeyEpoch = 0 then
    .error (.new "manifest: trusted state is incomplete")
  else if validSHA256Digest trusted.payloadSHA256 = false ∨
      validSHA256Digest trusted.policySHA256 = false ∨
      trusted.signingKeyID.length ≠ encodedLen 32 then
    .error (.new "manifest: trusted state contains invalid digests or key ID")
  else if candidate.policyVersion < trusted.policyVersion then
    .error (.errorf "manifest: key policy version %d is older than trusted policy %d"
      [.num candidate.policyVersion.toNat, .num trusted.policyVersion.toNat])
  else if candidate.policyVersion = trusted.policyVersion ∧
      candidate.policySHA256 ≠ trusted.policySHA256 then
    .error (.new "manifest: same-version key policy equivocation detected")
  else if candidate.version < trusted.version then
    .error (.errorf "manifest: version %d is older than trusted version %d"
      [.num candidate.version.toNat, .num trusted.version.toNat])
  else if candidate.version = trusted.version then
    if candidate.payloadSHA256 ≠ trusted.payloadSHA256 ∨ candidate.issuedAt ≠ trusted.issuedAt then
      .error (.new "manifest: same-version payload equivocation detected")
    else .ok ()
  else if candidate.issuedAt < trusted.issuedAt then
    .error (.new "manifest: issuance time moved backwards")
  else if candidate.signingKeyEpoch < trusted.signingKeyEpoch then
    .error (.new "manifest: signing key epoch moved backwards")
  else if candidate.signingKeyID = trusted.signingKeyID ∧
      candidate.signingKeyEpoch ≠ trusted.signingKeyEpoch then
    .error (.new "manifest: signing key epoch changed without changing the key")
  else if candidate.signingKeyID ≠ trusted.signingKeyID ∧
      candidate.signingKeyEpoch ≤ trusted.signingKeyEpoch then
    .error (.new "manifest: signing key changed without advancing its epoch")
  else .ok ()

def verify (envelope : Envelope) (rootPublicKey : Bytes) (now : ℤ) (trusted : TrustedState) :
    Except Error Document × TrustedState :=
  match authenticate rt envelope rootPublicKey now with
  | .error e => (.error e, trusted)
  | .ok (document, candidate) =>
      match validateStateTransition trusted candidate with
      | .error e => (.error e, trusted)
      | .ok () =>
          if trusted.version = candidate.version then (.ok document, trusted)
          else (.ok document, candidate)

end CloudHelp.Manifest
