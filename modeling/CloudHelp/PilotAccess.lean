import CloudHelp.Base64Url
import CloudHelp.Hosts

/-!
# Pilot access records

`internal/pilotaccess/access.go`: what a record holds, what `Validate` asks of it, and what
`Register` and `Revoke` do before they call the store. The clock, the generated identifiers and
the store's answers are inputs. `ErrInvalid`, `ErrNotFound` and `ErrConflict` are the errors a
caller looks for with `errors.Is`; they stand at the end of the wrapped chain.
-/

namespace CloudHelp

/-! ## Nodes and transports -/

namespace VpnNode

def isIdentifierStart (c : UInt8) : Bool := isLower c || isDigit c

/-- `^[a-z0-9][a-z0-9-]{0,62}$` -/
def identifierPattern : Bytes → Bool :=
  matchesHeadTail isIdentifierStart (fun c => isIdentifierStart c || c == 45) 62

def transportAmneziaWG : Bytes := str "amneziawg"

def transportXRayReality : Bytes := str "xray_reality"

def validateID (value : Bytes) : Except Error Unit :=
  if identifierPattern value then .ok ()
  else .error (.errorf "vpnnode: invalid identifier %q" [.text value])

def validateTransport (value : Bytes) : Except Error Unit :=
  if value = transportAmneziaWG ∨ value = transportXRayReality then .ok ()
  else .error (.errorf "vpnnode: unsupported transport %q" [.text value])

theorem validateID_eq_ok {value : Bytes} (h : validateID value = .ok ()) :
    identifierPattern value = true := by
  unfold validateID at h
  split_ifs at h with hvalue
  exact hvalue

theorem validateTransport_eq_ok {value : Bytes} (h : validateTransport value = .ok ()) :
    value = transportAmneziaWG ∨ value = transportXRayReality := by
  unfold validateTransport at h
  split_ifs at h with hvalue
  exact hvalue

end VpnNode

namespace PilotAccess

def errInvalid : Error := .new "pilot access: invalid input"

def errNotFound : Error := .new "pilot access: not found"

def errConflict : Error := .new "pilot access: conflict"

def maximumPilotAccessLifetime : ℤ := 90 * 24 * Duration.hour

/-- `Status`; Go's type is a string, so there are others than the two the package names. -/
inductive Status where
  | active
  | revoked
  | other (text : Bytes)
  deriving DecidableEq, Repr

@[ext] structure Access where
  id : Bytes
  deviceID : Bytes
  nodeID : Bytes
  transport : Bytes
  externalReference : Bytes
  createdAt : ℤ
  expiresAt : Option ℤ
  revokedAt : Option ℤ
  status : Status
  deriving DecidableEq, Repr

structure RegisterInput where
  deviceID : Bytes
  nodeID : Bytes
  transport : Bytes
  externalReference : Bytes
  expiresAt : Option ℤ

/-! ## Patterns -/

def matchesEach : List (UInt8 → Bool) → Bytes → Bool
  | [], [] => true
  | p :: ps, c :: cs => p c && matchesEach ps cs
  | _, _ => false

def isLowerHex (c : UInt8) : Bool := isDigit c || (97 ≤ c.toNat && c.toNat ≤ 102)

/-- `^[0-9a-f]{8}-[0-9a-f]{4}-[1-5][0-9a-f]{3}-[89ab][0-9a-f]{3}-[0-9a-f]{12}$` -/
def uuidPattern : Bytes → Bool :=
  let dash : UInt8 → Bool := fun c => c == 45
  matchesEach <| List.replicate 8 isLowerHex ++ [dash] ++ List.replicate 4 isLowerHex ++ [dash] ++
    [fun c => 49 ≤ c.toNat && c.toNat ≤ 53] ++ List.replicate 3 isLowerHex ++ [dash] ++
    [fun c => c == 56 || c == 57 || c == 97 || c == 98] ++ List.replicate 3 isLowerHex ++ [dash] ++
    List.replicate 12 isLowerHex

def isAlphanumeric (c : UInt8) : Bool := isLower c || isUpper c || isDigit c

/-- `^[A-Za-z0-9][A-Za-z0-9._:@/+\-=]{0,255}$` -/
def externalReferencePattern : Bytes → Bool :=
  matchesHeadTail isAlphanumeric
    (fun c => isAlphanumeric c || c == 46 || c == 95 || c == 58 || c == 64 || c == 47 || c == 43 ||
      c == 45 || c == 61) 255

/-! ## References that look like keys -/

def decodeStdChar (c : UInt8) : Option ℕ :=
  if c = 43 then some 62
  else if c = 47 then some 63
  else if c = 45 ∨ c = 95 then none
  else Base64Url.decodeChar c

/-- `DecodeString` of an encoding with the given decode map, with padding or without: line breaks
are skipped, and the padding ends the text. -/
def decodeBase64 (decodeChar : UInt8 → Option ℕ) (padded : Bool) (s : Bytes) : Option Bytes :=
  let text := s.filter fun c => !Base64Url.isNewline c
  let body := if padded then text.takeWhile (fun c => c != 61) else text
  if padded ∧ text.drop body.length ≠ List.replicate ((4 - body.length % 4) % 4) 61 then none
  else (body.mapM decodeChar).bind Base64Url.assemble

/-- `StdEncoding`, `RawStdEncoding`, `URLEncoding`, `RawURLEncoding` -/
def encodings : List ((UInt8 → Option ℕ) × Bool) :=
  [(decodeStdChar, true), (decodeStdChar, false), (Base64Url.decodeChar, true),
    (Base64Url.decodeChar, false)]

/-- `strings.ToLower` of the ASCII text that `externalReferencePattern` admits. -/
def toLower (s : Bytes) : Bytes := s.map fun c => if isUpper c then c + 32 else c

def resemblesSecret (value : Bytes) : Bool :=
  decide (str "private" <:+: toLower value) || (str "vpn://").isPrefixOf (toLower value) ||
    (str "-----BEGIN").isPrefixOf value ||
    encodings.any fun (decodeChar, padded) =>
      (decodeBase64 decodeChar padded value).any fun raw => 32 ≤ raw.length

/-! ## Validation -/

/-- `fmt.Errorf("%w: %v", ErrInvalid, err)` with the text of `err` written out; the errors of
`vpnnode` wrap nothing. -/
def invalidFor : Error → Error
  | .errorf format args => .wrap ("%w: " ++ format) args errInvalid
  | _ => errInvalid

def invalid (reason : String) : Error := .wrap ("%w: " ++ reason) [] errInvalid

def validateStatus (access : Access) : Except Error Unit :=
  match access.status with
  | .active =>
      if access.revokedAt.isSome then
        .error (invalid "active access cannot have a revocation time")
      else .ok ()
  | .revoked =>
      match access.revokedAt with
      | none => .error (invalid "revoked access requires a valid revocation time")
      | some revokedAt =>
          if revokedAt < access.createdAt then
            .error (invalid "revoked access requires a valid revocation time")
          else .ok ()
  | .other text => .error (.wrap "%w: unsupported status %q" [.text text] errInvalid)

def validExpiry (access : Access) : Bool :=
  match access.expiresAt with
  | none => false
  | some expiresAt =>
      access.createdAt < expiresAt && expiresAt ≤ access.createdAt + maximumPilotAccessLifetime

def validate (access : Access) : Except Error Unit :=
  if ¬(uuidPattern access.id = true ∧ uuidPattern access.deviceID = true) then
    .error (invalid "access and device IDs must be canonical UUIDs")
  else match VpnNode.validateID access.nodeID with
    | .error e => .error (invalidFor e)
    | .ok () =>
        match VpnNode.validateTransport access.transport with
        | .error e => .error (invalidFor e)
        | .ok () =>
            if externalReferencePattern access.externalReference = false then
              .error (invalid "external reference is invalid")
            else if resemblesSecret access.externalReference then
              .error (invalid "external reference resembles key material")
            else if Time.isZero access.createdAt then
              .error (invalid "creation time is required")
            else if validExpiry access = false then
              .error (invalid "expiry must be after creation and within 90 days")
            else validateStatus access

/-! ## The calls before the store -/

/-- The record `Register` passes to `Validate`; `cloneTime` cuts the expiry to whole seconds. -/
def newAccess (input : RegisterInput) (identifier : Bytes) (now : ℤ) : Access :=
  { id := identifier
    deviceID := input.deviceID
    nodeID := input.nodeID
    transport := input.transport
    externalReference := input.externalReference
    createdAt := Time.truncateSecond now
    expiresAt := input.expiresAt.map Time.truncateSecond
    revokedAt := none
    status := .active }

/-- `Register` up to `store.Create`. -/
def beforeCreate (input : RegisterInput) (now : ℤ) (newID : Except Error Bytes) :
    Except Error Access :=
  match newID with
  | .error e => .error (.wrap "pilot access: generate ID: %w" [] e)
  | .ok identifier =>
      match validate (newAccess input identifier now) with
      | .error e => .error e
      | .ok () => .ok (newAccess input identifier now)

/-- `Revoke` up to `store.Revoke`: the time of the revocation. -/
def beforeRevoke (id : Bytes) (now : ℤ) : Except Error ℤ :=
  if uuidPattern id then .ok (Time.truncateSecond now)
  else .error (invalid "access ID is invalid")

structure IsValid (access : Access) : Prop where
  id : uuidPattern access.id = true
  deviceID : uuidPattern access.deviceID = true
  nodeID : VpnNode.identifierPattern access.nodeID = true
  transport : access.transport = VpnNode.transportAmneziaWG ∨
    access.transport = VpnNode.transportXRayReality
  externalReference : externalReferencePattern access.externalReference = true
  expiry : validExpiry access = true

theorem isValid_of_validate {access : Access} (h : validate access = .ok ()) : IsValid access := by
  unfold validate at h
  by_cases hids : uuidPattern access.id = true ∧ uuidPattern access.deviceID = true
  · rw [if_neg (not_not_intro hids)] at h
    cases hnode : VpnNode.validateID access.nodeID with
    | error e =>
        rw [hnode] at h
        cases h
    | ok u =>
        cases htransport : VpnNode.validateTransport access.transport with
        | error e =>
            rw [hnode, htransport] at h
            cases h
        | ok u =>
            rw [hnode, htransport] at h
            dsimp only at h
            split_ifs at h with hreference hsecret hzero hexpiry
            exact ⟨hids.1, hids.2, VpnNode.validateID_eq_ok hnode,
              VpnNode.validateTransport_eq_ok htransport, Bool.eq_true_of_not_eq_false hreference,
              Bool.eq_true_of_not_eq_false hexpiry⟩
  · rw [if_pos hids] at h
    cases h

theorem beforeCreate_eq_ok {input : RegisterInput} {now : ℤ} {newID : Except Error Bytes}
    {access : Access} (h : beforeCreate input now newID = .ok access) :
    validate access = .ok () ∧ access.status = .active ∧ access.revokedAt = none := by
  unfold beforeCreate at h
  cases newID with
  | error e => cases h
  | ok identifier =>
      cases hvalid : validate (newAccess input identifier now) with
      | error e =>
          simp only [hvalid] at h
          cases h
      | ok u =>
          simp only [hvalid] at h
          obtain rfl := Except.ok.inj h
          exact ⟨hvalid, rfl, rfl⟩

end PilotAccess

end CloudHelp
