import CloudHelp.Catalog

/-!
# Locked artifacts

An entry of the artifact lock and its check, from `internal/artifactlock/lock.go`.
-/

namespace CloudHelp.ArtifactLock

open Manifest

def maxArtifact : ℤ := 536870912

structure Artifact where
  name : Bytes
  fileName : Bytes
  version : Bytes
  commit : Bytes
  kind : Bytes
  url : Bytes
  sha256 : Bytes
  maxBytes : ℤ
  purpose : Bytes
  deriving DecidableEq

def namePattern : Bytes → Bool := matchesHeadTail isLowerOrDigit isLowerDigitOrDash 62

def isAlnum (c : UInt8) : Bool := isLower c || isUpper c || isDigit c

def isFileChar (c : UInt8) : Bool := isAlnum c || c == 46 || c == 95 || c == 45

def filePattern : Bytes → Bool := matchesHeadTail isAlnum isFileChar 127

def versionPattern : Bytes → Bool := matchesHeadTail isAlnum (fun c => isFileChar c || c == 43) 63

def isLowerHex (c : UInt8) : Bool := isDigit c || (97 ≤ c.toNat && c.toNat ≤ 102)

def hexSHA256 (s : Bytes) : Bool := s.length == 64 && s.all isLowerHex

def hexCommit (s : Bytes) : Bool := s.length == 40 && s.all isLowerHex

def allowedHost (host : Bytes) : Bool :=
  host ∈ [str "github.com", str "codeload.github.com", str "release-assets.githubusercontent.com"]

def approved (rt : Runtime) (url : Bytes) : Bool :=
  match rt.parseRequestURI url with
  | none => false
  | some parsed =>
      parsed.scheme = str "https" && !parsed.user && parsed.rawQuery = [] && parsed.fragment = [] &&
        allowedHost parsed.hostname

def validateArtifact (rt : Runtime) (artifact : Artifact) : Except Error Unit :=
  if namePattern artifact.name = false then .error (.new "name is invalid")
  else if filePattern artifact.fileName = false then .error (.new "file_name is invalid")
  else if versionPattern artifact.version = false then .error (.new "version is invalid")
  else if hexCommit artifact.commit = false then
    .error (.new "commit must be a lowercase 40-character SHA")
  else if artifact.kind ≠ str "source" ∧ artifact.kind ≠ str "binary" then
    .error (.new "kind must be source or binary")
  else if approved rt artifact.url = false then
    .error (.new
      "url must be an approved HTTPS GitHub artifact URL without credentials, query, or fragment")
  else if hexSHA256 artifact.sha256 = false then
    .error (.new "sha256 must be a lowercase 64-character digest")
  else if artifact.maxBytes < 1 ∨ maxArtifact < artifact.maxBytes then
    .error (.errorf "max_bytes must be between 1 and %d" [.num maxArtifact])
  else if artifact.purpose.length < 1 ∨ 256 < artifact.purpose.length then
    .error (.new "purpose must contain between 1 and 256 characters")
  else .ok ()

/-- What the check establishes for a download. -/
theorem validateArtifact_eq_ok {rt : Runtime} {artifact : Artifact}
    (h : validateArtifact rt artifact = .ok ()) :
    filePattern artifact.fileName = true ∧ approved rt artifact.url = true ∧
      1 ≤ artifact.maxBytes ∧ artifact.maxBytes ≤ maxArtifact := by
  unfold validateArtifact at h
  split_ifs at h with _ hfile _ _ _ hurl _ hmax _
  rw [Bool.not_eq_false] at hfile hurl
  exact ⟨hfile, hurl, by omega, by omega⟩

theorem approved_eq_true {rt : Runtime} {url : Bytes} (h : approved rt url = true) :
    ∃ parsed, rt.parseRequestURI url = some parsed ∧ parsed.user = false ∧ parsed.rawQuery = [] ∧
      parsed.host ≠ [] := by
  unfold approved at h
  cases hparsed : rt.parseRequestURI url with
  | none =>
      rw [hparsed] at h
      cases h
  | some parsed =>
      simp only [hparsed, Bool.and_eq_true, Bool.not_eq_true', decide_eq_true_eq] at h
      obtain ⟨⟨⟨⟨_, huser⟩, hquery⟩, _⟩, hhost⟩ := h
      refine ⟨parsed, rfl, huser, hquery, ?_⟩
      intro hempty
      rw [URL.hostname, hempty] at hhost
      revert hhost
      decide

end CloudHelp.ArtifactLock
