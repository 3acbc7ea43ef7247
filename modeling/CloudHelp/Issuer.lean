import CloudHelp.Issuance

/-!
# The issuer

`NewIssuer` and `Issue` of `internal/service/issuer.go`. The lock, the loaded state, the loaded
catalog and the outcome of a save are arguments; `save` is asked with the state the code saves.
Both functions are cut at their save, because other processes and crashes come in between:
`migrate` and `startIssuer` are the parts of `NewIssuer` before and after it, `plan` and
`published` or `failed` those of `Issue`.

Each error of `newIssuer` after the lock is taken closes the lock, so that the lock is held
exactly if the result is an issuer.
-/

namespace CloudHelp.Service

open Manifest Issuance

variable (rt : Runtime)

structure IssuerOptions where
  statePath : Bytes
  ttl : ℤ
  cacheFor : ℤ
  privateKey : Bytes
  rootKey : Bytes
  keyPolicy : KeyPolicy

structure Issuer where
  ttl : ℤ
  cacheFor : ℤ
  privateKey : Bytes
  keyID : Bytes
  keyEpoch : UInt64
  rootKey : Bytes
  keyPolicy : KeyPolicy
  policySHA : Bytes
  statePath : Bytes
  state : State
  cached : Envelope
  cacheUntil : ℤ
  validUntil : ℤ
  retryAt : ℤ
  lastError : Option Error
  closed : Bool

/-! ## NewIssuer -/

/-- The checks before the lock; the result is the digest of the policy. -/
def checkOptions (options : IssuerOptions) : Except Error Bytes :=
  if options.privateKey.length ≠ privateKeySize then
    .error (.new "issuer: invalid Ed25519 private key")
  else match validateKeyPolicy rt options.keyPolicy options.rootKey with
    | .error e => .error (.wrap "issuer: validate key policy: %w" [] e)
    | .ok policyDigest =>
        if options.ttl < Duration.minute ∨ Duration.hour < options.ttl then
          .error (.new "issuer: TTL must be between 1m and 1h")
        else if options.cacheFor < Duration.second ∨ options.ttl / 2 < options.cacheFor then
          .error (.new "issuer: cache duration must be between 1s and half the manifest TTL")
        else .ok policyDigest

/-- A state without policy fields is completed under the policy and has to be saved; `none` when the
loaded state is used as it is. -/
def migrate (options : IssuerOptions) (policyDigest : Bytes) :
    Option State → Except Error (Option State)
  | none => .ok none
  | some state =>
      if state.policyVersion ≠ 0 then .ok none
      else match keyPolicyGrant options.keyPolicy state.keyID state.lastVersion with
        | .error e =>
            .error (.wrap
              "issuer: legacy state key is not authorized by the offline-root policy: %w" [] e)
        | .ok (previousGrant, _) =>
            .ok (some { state with
              keyEpoch := previousGrant.epoch
              policyVersion := options.keyPolicy.version
              policySHA256 := policyDigest })

def consistent (options : IssuerOptions) (state : State) : Bool :=
  match keyPolicyGrant options.keyPolicy state.keyID state.lastVersion with
  | .error _ => false
  | .ok (previousGrant, _) => previousGrant.epoch == state.keyEpoch

def nextVersion (options : IssuerOptions) (policyDigest : Bytes) :
    Option State → Except Error UInt64
  | none => .ok 1
  | some state =>
      if state.lastVersion = maxUint64 then
        .error (.new "issuer: manifest version space exhausted")
      else if options.keyPolicy.version < state.policyVersion then
        .error (.errorf "issuer: key policy version %d is older than durable policy %d"
          [.num options.keyPolicy.version.toNat, .num state.policyVersion.toNat])
      else if options.keyPolicy.version = state.policyVersion ∧
          policyDigest ≠ state.policySHA256 then
        .error (.new "issuer: key policy changed without increasing its version")
      else if options.keyPolicy.version = state.policyVersion ∧
          consistent options state = false then
        .error (.new "issuer: durable signing state is inconsistent with the key policy")
      else .ok (state.lastVersion + 1)

def checkKey (keyID : Bytes) (epoch : UInt64) : Option State → Except Error Unit
  | none => .ok ()
  | some state =>
      if keyID = state.keyID ∧ epoch ≠ state.keyEpoch then
        .error (.new "issuer: signing key epoch changed without changing the key")
      else if keyID ≠ state.keyID ∧ epoch ≤ state.keyEpoch then
        .error (.new "issuer: replacement signing key does not advance the durable epoch")
      else .ok ()

def freshIssuer (options : IssuerOptions) (policyDigest : Bytes) (epoch : UInt64) (state : State) :
    Issuer :=
  { ttl := options.ttl
    cacheFor := options.cacheFor
    privateKey := options.privateKey
    keyID := keyID rt (publicKey options.privateKey)
    keyEpoch := epoch
    rootKey := options.rootKey
    keyPolicy := options.keyPolicy
    policySHA := policyDigest
    statePath := options.statePath
    state := state
    cached := ⟨[], [], [], []⟩
    cacheUntil := 0
    validUntil := 0
    retryAt := 0
    lastError := none
    closed := false }

/-- `NewIssuer` from the point where the durable state is known and complete. -/
def startIssuer (options : IssuerOptions) (policyDigest : Bytes) (found : Option State) :
    Except Error Issuer :=
  match nextVersion options policyDigest found with
  | .error e => .error e
  | .ok next =>
      match keyPolicyGrant options.keyPolicy (keyID rt (publicKey options.privateKey)) next with
      | .error e =>
          .error (.wrap
            "issuer: current signing key is not authorized for the next version: %w" [] e)
      | .ok (grant, _) =>
          match checkKey (keyID rt (publicKey options.privateKey)) grant.epoch found with
          | .error e => .error e
          | .ok () =>
              .ok (freshIssuer rt options policyDigest grant.epoch (found.getD .empty))

def newIssuer (options : IssuerOptions) (lock : Except Error Unit)
    (loaded : Except Error (Option State)) (save : State → Except Error Unit) :
    Except Error Issuer :=
  match checkOptions rt options with
  | .error e => .error e
  | .ok policyDigest =>
      match lock with
      | .error e => .error e
      | .ok () =>
          match loaded with
          | .error e => .error e
          | .ok found =>
              match migrate options policyDigest found with
              | .error e => .error e
              | .ok none => startIssuer rt options policyDigest found
              | .ok (some migrated) =>
                  match save migrated with
                  | .error e =>
                      .error (.wrap "issuer: migrate legacy state to offline-root policy: %w" [] e)
                  | .ok () => startIssuer rt options policyDigest (some migrated)

/-! ## Issue -/

namespace Issuer

variable (issuer : Issuer)

/-- What `Issue` answers without a refresh; `none` when it refreshes. -/
def serve (now : ℤ) : Option (Except Error Envelope) :=
  if issuer.closed = true then some (.error (.new "issuer: closed"))
  else if 0 < issuer.state.lastVersion ∧ now < issuer.state.lastIssuedAt then
    some (.error (.new "issuer: system clock moved behind the last issuance time"))
  else if issuer.cached.payload ≠ [] ∧ now < issuer.cacheUntil then some (.ok issuer.cached)
  else match issuer.lastError with
    | none => none
    | some lastError =>
        if now < issuer.retryAt then
          if issuer.cached.payload ≠ [] ∧ now < issuer.validUntil then some (.ok issuer.cached)
          else some (.error lastError)
        else none

def checkCatalog (now : ℤ) (catalog : Catalog) (catalogDigest : Bytes) : Except Error Unit :=
  if 0 < issuer.state.lastVersion then
    if catalog.revision < issuer.state.catalogRevision then
      .error (.errorf "issuer: catalog revision %d is older than durable revision %d"
        [.num catalog.revision.toNat, .num issuer.state.catalogRevision.toNat])
    else if catalog.revision = issuer.state.catalogRevision ∧
        catalogDigest ≠ issuer.state.catalogSHA256 then
      .error (.new "issuer: catalog changed without increasing its revision")
    else if now < issuer.state.lastIssuedAt then
      .error (.new "issuer: system clock moved behind the last issuance time")
    else if issuer.state.lastVersion = maxUint64 then
      .error (.new "issuer: manifest version space exhausted")
    else .ok ()
  else .ok ()

/-- A refresh up to its save: the envelope to publish and the state to save before. -/
def plan (now : ℤ) (loaded : Except Error Catalog) : Except Error (Envelope × State) :=
  match loaded with
  | .error e => .error (.wrap "issuer: load manifest catalog: %w" [] e)
  | .ok catalog =>
      match catalogDigest rt catalog with
      | .error e => .error (.wrap "issuer: validate manifest catalog: %w" [] e)
      | .ok catalogDigest =>
          match issuer.checkCatalog now catalog catalogDigest with
          | .error e => .error e
          | .ok () =>
              match Manifest.issue rt catalog (issuer.state.lastVersion + 1) issuer.keyPolicy
                  issuer.rootKey now issuer.ttl issuer.privateKey with
              | .error e => .error (.wrap "issuer: sign manifest: %w" [] e)
              | .ok envelope =>
                  .ok (envelope,
                    { keyID := issuer.keyID
                      keyEpoch := issuer.keyEpoch
                      policyVersion := issuer.keyPolicy.version
                      policySHA256 := issuer.policySHA
                      lastVersion := issuer.state.lastVersion + 1
                      catalogRevision := catalog.revision
                      catalogSHA256 := catalogDigest
                      lastIssuedAt := now })

/-- The end of `Issue` after a refresh that failed. -/
def failed (now : ℤ) (e : Error) : Issuer × Except Error Envelope :=
  let retryAt := now + min (5 * Duration.second) issuer.cacheFor
  if issuer.cached.payload ≠ [] ∧ now < issuer.validUntil then
    ({ issuer with
        lastError := some e
        retryAt := retryAt
        cacheUntil := min retryAt issuer.validUntil }, .ok issuer.cached)
  else ({ issuer with lastError := some e, retryAt := retryAt }, .error e)

def published (now : ℤ) (envelope : Envelope) (next : State) : Issuer × Except Error Envelope :=
  ({ issuer with
      state := next
      lastError := none
      retryAt := 0
      cached := envelope
      cacheUntil := now + issuer.cacheFor
      validUntil := now + issuer.ttl }, .ok envelope)

/-- How the outcome of its save ends a refresh. -/
def settle (now : ℤ) (envelope : Envelope) (next : State) :
    Except Error Unit → Issuer × Except Error Envelope
  | .error e =>
      issuer.failed now (.wrap "issuer: persist monotonic state before publish: %w" [] e)
  | .ok () => issuer.published now envelope next

def issue (clock : ℤ) (loaded : Except Error Catalog) (save : State → Except Error Unit) :
    Issuer × Except Error Envelope :=
  let now := Time.truncateSecond clock
  match issuer.serve now with
  | some answer => (issuer, answer)
  | none =>
      match issuer.plan rt now loaded with
      | .error e => issuer.failed now e
      | .ok (envelope, next) => issuer.settle now envelope next (save next)

/-- The state an `Issue` saves, if it gets that far. -/
def pending (clock : ℤ) (loaded : Except Error Catalog) : Option State :=
  match issuer.serve (Time.truncateSecond clock) with
  | some _ => none
  | none =>
      match issuer.plan rt (Time.truncateSecond clock) loaded with
      | .error _ => none
      | .ok (_, next) => some next

/-- `Close`: the issuer afterwards, and whether the lock is released. -/
def close : Issuer × Bool :=
  if issuer.closed = true then (issuer, false) else ({ issuer with closed := true }, true)

end Issuer

end CloudHelp.Service
