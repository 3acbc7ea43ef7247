import CloudHelp.ArtifactLock
import CloudHelp.Directory
import CloudHelp.Runs

/-!
# Fetching artifacts

`Fetch` of `internal/artifactlock/fetch.go`, for any number of calls that share an output
directory. Each operation on the directory is a step of its own, and the steps of different calls
interleave in any order. An operation may fail without effect, except for the removals of the
error path. A file is named after the call that created it, since a call creates only one, or it
was there before. Others may remove published files at any time.
-/

namespace CloudHelp.ArtifactLock

open Manifest

/-! ## One call -/

inductive File (C : Type) where
  | existing (n : ℕ)
  | created (c : C)
  deriving DecidableEq

abbrev Output (C : Type) := Directory Bytes (File C) Bytes

structure Response where
  statusCode : ℤ
  contentLength : ℤ
  /-- `response.Request.URL` -/
  finalURL : URL

/-- Where a call stands: the operation it is about to do, and the file it does it to. -/
inductive Phase where
  | inspect
  | request
  | createTemp
  | chmod (temporary : Bytes)
  /-- with the bytes that have gone to the file and to the hash -/
  | copy (temporary hashed : Bytes)
  | sync (temporary : Bytes)
  | close (temporary : Bytes)
  | link (temporary : Bytes)
  | removeTemporary (temporary : Bytes)
  | removeDestination (temporary : Bytes) (e : Error)
  /-- the deferred function after an error -/
  | cleanUp (temporary : Bytes) (e : Error)
  | done (result : Except Error Bytes)
  deriving DecidableEq

inductive Event where
  | ok
  | fails (e : Error)
  | malformed (e : Error)
  | responds (response : Response)
  /-- `os.CreateTemp` with the random part of the name -/
  | creates (random : Bytes)
  /-- some bytes of the body have been copied -/
  | copies (chunk : Bytes)
  /-- reading or writing fails after some bytes have been written -/
  | breaks (chunk : Bytes) (e : Error)
  | ends

def hexEncode (s : Bytes) : Bytes :=
  let digit (n : ℕ) : UInt8 := UInt8.ofNat (if n < 10 then 48 + n else 87 + n)
  s.flatMap fun c => [digit (c.toNat / 16), digit (c.toNat % 16)]

def temporaryName (random : Bytes) : Bytes := str ".artifact-" ++ random ++ str ".tmp"

section Fetch

variable {C : Type} [DecidableEq C] (rt : Runtime) (c : C) (artifact : Artifact)
  (outputDirectory : Bytes)

def destination : Bytes := outputDirectory ++ 47 :: artifact.fileName

def checkResponse (response : Response) : Except Error Unit :=
  if response.statusCode ≠ 200 then
    .error (.errorf "artifact fetch: unexpected HTTP status %d" [.num response.statusCode])
  else if artifact.maxBytes < response.contentLength then
    .error (.new "artifact fetch: declared content length exceeds maximum")
  else if response.finalURL.scheme ≠ str "https" ∨
      allowedHost response.finalURL.hostname = false then
    .error (.new "artifact fetch: final response URL is not approved")
  else .ok ()

def checkDownload (hashed : Bytes) : Except Error Unit :=
  if hashed.length = 0 ∨ artifact.maxBytes < hashed.length then
    .error (.new "artifact fetch: downloaded size is invalid")
  else if hexEncode (rt.sha256 hashed).toList ≠ artifact.sha256 then
    .error (.new "artifact fetch: SHA-256 mismatch")
  else .ok ()

/-- The next operation of a call; `none` where it cannot turn out so. -/
def advance (dir : Output C) : Phase → Event → Option (Output C × Phase)
  | .inspect, .ok =>
      if (dir.entries artifact.fileName).isSome then
        some (dir, .done (.error (.new "artifact fetch: destination already exists")))
      else some (dir, .request)
  | .inspect, .fails e =>
      if e.isNotExist = true then none
      else some (dir, .done (.error (.wrap "artifact fetch: inspect destination: %w" [] e)))
  | .request, .malformed e =>
      some (dir, .done (.error (.wrap "artifact fetch: create request: %w" [] e)))
  | .request, .fails e => some (dir, .done (.error (.wrap "artifact fetch: request: %w" [] e)))
  | .request, .responds response =>
      match checkResponse artifact response with
      | .error e => some (dir, .done (.error e))
      | .ok () => some (dir, .createTemp)
  | .createTemp, .fails e =>
      some (dir, .done (.error (.wrap "artifact fetch: create temporary file: %w" [] e)))
  | .createTemp, .creates random =>
      let temporary := temporaryName random
      -- names that are taken are passed over
      if (dir.entries temporary).isSome then none
      else some ((dir.bind temporary (.created c)).write (.created c) [], .chmod temporary)
  | .chmod temporary, .ok => some (dir, .copy temporary [])
  | .chmod temporary, .fails e =>
      some (dir, .cleanUp temporary (.wrap "artifact fetch: secure temporary file: %w" [] e))
  | .copy temporary hashed, .copies chunk =>
      -- `io.LimitReader` ends the body one byte past the maximum
      if artifact.maxBytes + 1 < (hashed ++ chunk).length then none
      else some (dir.write (.created c) (dir.contents (.created c) ++ chunk),
        .copy temporary (hashed ++ chunk))
  | .copy temporary _, .breaks chunk e =>
      some (dir.write (.created c) (dir.contents (.created c) ++ chunk),
        .cleanUp temporary (.wrap "artifact fetch: download: %w" [] e))
  | .copy temporary hashed, .ends =>
      match checkDownload rt artifact hashed with
      | .error e => some (dir, .cleanUp temporary e)
      | .ok () => some (dir, .sync temporary)
  | .sync temporary, .ok => some (dir, .close temporary)
  | .sync temporary, .fails e =>
      some (dir, .cleanUp temporary (.wrap "artifact fetch: sync temporary file: %w" [] e))
  | .close temporary, .ok => some (dir, .link temporary)
  | .close temporary, .fails e =>
      some (dir, .cleanUp temporary (.wrap "artifact fetch: close temporary file: %w" [] e))
  | .link temporary, .ok =>
      match dir.entries temporary with
      | none => none
      | some file =>
          if (dir.entries artifact.fileName).isSome then
            some (dir, .cleanUp temporary (.new "artifact fetch: destination already exists"))
          else some (dir.bind artifact.fileName file, .removeTemporary temporary)
  | .link temporary, .fails e =>
      some (dir, .cleanUp temporary (.wrap "artifact fetch: publish verified file: %w" [] e))
  | .removeTemporary temporary, .ok =>
      some (dir.unbind temporary, .done (.ok (destination artifact outputDirectory)))
  | .removeTemporary temporary, .fails e =>
      some (dir,
        .removeDestination temporary (.wrap "artifact fetch: remove temporary link: %w" [] e))
  | .removeDestination temporary e, .ok =>
      some (dir.unbind artifact.fileName, .cleanUp temporary e)
  | .cleanUp temporary e, .ok => some (dir.unbind temporary, .done (.error e))
  | _, _ => none

/-! ## The system -/

structure Call where
  artifact : Artifact
  phase : Phase
  deriving DecidableEq

structure System (C : Type) where
  dir : Output C
  calls : C → Option Call

inductive Action (C : Type) where
  /-- a call begins; creating or resolving the output directory may fail -/
  | begin (c : C) (artifact : Artifact) (setup : Except Error Unit)
  | advance (c : C) (event : Event)
  /-- somebody else removes a file that is no temporary one -/
  | remove (name : Bytes)

def beginning (setup : Except Error Unit) : Phase :=
  match validateArtifact rt artifact with
  | .error e => .done (.error e)
  | .ok () =>
      match setup with
      | .error e => .done (.error e)
      | .ok () => .inspect

def System.step (s : System C) : Action C → Option (System C)
  | .begin c artifact setup =>
      if (s.calls c).isSome then none
      else some { s with
        calls := Function.update s.calls c (some ⟨artifact, beginning rt artifact setup⟩) }
  | .advance c event =>
      match s.calls c with
      | none => none
      | some call =>
          match advance rt c call.artifact outputDirectory s.dir call.phase event with
          | none => none
          | some (dir, phase) =>
              some ⟨dir, Function.update s.calls c (some { call with phase := phase })⟩
  | .remove name =>
      if filePattern name = true then some { s with dir := s.dir.unbind name } else none

def System.run (s : System C) (actions : List (Action C)) : Option (System C) :=
  runs (System.step rt outputDirectory) s actions

def System.initial (entries : Bytes → Option ℕ) (contents : ℕ → Bytes) : System C where
  dir :=
    { entries := fun name => (entries name).map .existing
      contents := fun
        | .existing n => contents n
        | .created _ => [] }
  calls := fun _ => none

end Fetch

end CloudHelp.ArtifactLock
