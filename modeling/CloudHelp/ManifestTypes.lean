import CloudHelp.Base64Url
import CloudHelp.SortSlice
import CloudHelp.Hosts
import CloudHelp.Rfc3339

/-!
# The manifest's data and the library functions its code calls

The structures are those of `internal/manifest`, and the state of `internal/issuance`. `Runtime`
collects what the code takes from Go's library and leaves open here: SHA-256 and Ed25519, the sort,
the URL parser and the JSON decoder. A decoder returns the value and the input it has not read.
-/

namespace CloudHelp.Manifest

@[ext]
structure KeyGrant where
  keyID : Bytes
  publicKey : Bytes
  epoch : UInt64
  notBeforeVersion : UInt64
  /-- inclusive; zero means that the final grant is open-ended -/
  notAfterVersion : UInt64
  deriving DecidableEq

@[ext]
structure KeyPolicy where
  version : UInt64
  rootKeyID : Bytes
  keys : List KeyGrant
  signature : Bytes
  deriving DecidableEq

@[ext]
structure DiscoveryEndpoint where
  id : Bytes
  url : Bytes
  priority : UInt16
  deriving DecidableEq

@[ext]
structure Endpoint where
  id : Bytes
  transport : Bytes
  address : Bytes
  serverName : Bytes
  credentialRef : Bytes
  priority : UInt16
  deriving DecidableEq

@[ext]
structure Node where
  id : Bytes
  region : Bytes
  countryCode : Bytes
  provider : Bytes
  asn : UInt32
  endpoints : List Endpoint
  deriving DecidableEq

@[ext]
structure Catalog where
  revision : UInt64
  discovery : List DiscoveryEndpoint
  nodes : List Node
  deriving DecidableEq

@[ext]
structure Document where
  schemaVersion : ℤ
  version : UInt64
  catalogRevision : UInt64
  issuedAt : ℤ
  expiresAt : ℤ
  keyPolicy : KeyPolicy
  discovery : List DiscoveryEndpoint
  nodes : List Node
  deriving DecidableEq

@[ext]
structure Envelope where
  algorithm : Bytes
  keyID : Bytes
  payload : Bytes
  signature : Bytes
  deriving DecidableEq

@[ext]
structure TrustedState where
  version : UInt64
  issuedAt : ℤ
  payloadSHA256 : Bytes
  policyVersion : UInt64
  policySHA256 : Bytes
  signingKeyID : Bytes
  signingKeyEpoch : UInt64
  deriving DecidableEq

def TrustedState.empty : TrustedState := ⟨0, 0, [], 0, [], [], 0⟩

/-- The answer of a `Decode` that looks for more input. -/
inductive Trailing where
  | eof
  | error (e : Error)
  | value
  deriving DecidableEq

end Manifest

namespace Issuance

@[ext]
structure State where
  keyID : Bytes
  keyEpoch : UInt64
  policyVersion : UInt64
  policySHA256 : Bytes
  lastVersion : UInt64
  catalogRevision : UInt64
  catalogSHA256 : Bytes
  lastIssuedAt : ℤ
  /-- the minutes that the zone of `lastIssuedAt` is ahead of UTC -/
  zone : ℤ := 0
  deriving DecidableEq

def State.empty : State := ⟨[], 0, 0, [], 0, 0, [], 0, 0⟩

end Issuance

open Manifest in
structure Runtime where
  /-- `sha256.Sum256` -/
  sha256 : Bytes → Vector UInt8 32
  /-- `ed25519.NewKeyFromSeed` -/
  newKeyFromSeed : Bytes → Vector UInt8 64
  /-- `ed25519.Sign(privateKey, message)` -/
  sign : Bytes → Bytes → Vector UInt8 64
  /-- `ed25519.Verify(publicKey, message, signature)` -/
  verify : Bytes → Bytes → Bytes → Bool
  /-- `sort.Slice` -/
  sort : SortSlice
  /-- `url.ParseRequestURI` -/
  parseRequestURI : Bytes → Option URL
  decodeDocument : Bytes → Except Error (Document × Bytes)
  decodeEnvelope : Bytes → Except Error (Envelope × Bytes)
  decodeState : Bytes → Except Error (Issuance.State × Bytes)
  /-- `Decode` into a variable of type `any` -/
  decodeAny : Bytes → Trailing

namespace Runtime

variable (rt : Runtime)

/-- No two byte strings of the set have the same SHA-256. -/
def CollisionFreeOn (S : Set Bytes) : Prop := Set.InjOn rt.sha256 S

/-- `base64.RawURLEncoding.EncodeToString(digest[:])` of a SHA-256. -/
def digest (s : Bytes) : Bytes := Base64Url.encodeToString (rt.sha256 s).toList

theorem digest_eq_iff {s t : Bytes} : rt.digest s = rt.digest t ↔ rt.sha256 s = rt.sha256 t := by
  rw [digest, digest, Base64Url.encodeToString_inj, Vector.toList_inj]

theorem CollisionFreeOn.digest_inj {rt : Runtime} {S : Set Bytes} (h : rt.CollisionFreeOn S)
    {s t : Bytes} (hs : s ∈ S) (ht : t ∈ S) (he : rt.digest s = rt.digest t) : s = t :=
  h hs ht (rt.digest_eq_iff.mp he)

theorem collisionFreeOn_of_nodup {rt : Runtime} {S : Set Bytes} (l : List Bytes)
    (hS : ∀ s ∈ S, s ∈ l) (h : (l.map rt.sha256).Nodup) : rt.CollisionFreeOn S :=
  fun _ hs _ ht he => List.inj_on_of_nodup_map h (hS _ hs) (hS _ ht) he

theorem length_digest (s : Bytes) : (rt.digest s).length = Base64Url.encodedLen 32 := by
  rw [digest, Base64Url.length_encodeToString, Vector.length_toList]

theorem decodeString_digest (s : Bytes) :
    Base64Url.decodeString (rt.digest s) = some (rt.sha256 s).toList :=
  Base64Url.decodeString_encodeToString _

theorem digest_ne_nil (s : Bytes) : rt.digest s ≠ [] := by
  intro h
  have hl := rt.length_digest s
  rw [h] at hl
  simp [Base64Url.encodedLen] at hl

/-- A one-byte checksum in the place of SHA-256. -/
def checksum (s : Bytes) : ℕ := s.foldl (fun h b => (h * 31 + b.toNat + 1) % 251) 7

def spread (n : ℕ) : ℕ → Vector UInt8 n
  | 0 => Vector.replicate n 0
  -- matching on the number has it computed once, not once for each byte
  | c + 1 => Vector.replicate n (UInt8.ofNat (c + 1))

/-- A runtime that can be computed with: keys are their seeds twice over, a signature is a checksum
of the public half and the message, and the decoders accept nothing. -/
def toy : Runtime where
  sha256 s := spread 32 (checksum s)
  newKeyFromSeed seed := Vector.ofFn fun i : Fin 64 => seed.getD (i.val % 32) 0
  sign key message := spread 64 (checksum (key.drop 32 ++ message))
  verify key message signature := signature = (spread 64 (checksum (key ++ message))).toList
  sort := insertionSort
  parseRequestURI _ := some ⟨str "https", false, str "mirror", [], []⟩
  decodeDocument _ := .error (.library "EOF")
  decodeEnvelope _ := .error (.library "EOF")
  decodeState _ := .error (.library "EOF")
  decodeAny s := if s = [] then .eof else .value

end Runtime

end CloudHelp
