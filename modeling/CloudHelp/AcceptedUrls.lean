import CloudHelp.ArtifactLock
import CloudHelp.DiscoveryFallback
import CloudHelp.RequestURI

/-!
# The URLs that pass

Three validators promise a URL without credentials, query and fragment. They rely on a parser that
takes a `#` for a character of the path and drops a lone `?` at the end. Apart from these two
forms the promise holds.
-/

namespace CloudHelp

open Manifest Discovery ArtifactLock

variable {rt : Runtime} {u : Bytes}

inductive AcceptedURL (rt : Runtime) (u : Bytes) : Prop
  | discovery {discovery : List DiscoveryEndpoint} {source : DiscoveryEndpoint}
      (valid : validateDiscovery rt discovery = .ok ()) (mem : source ∈ discovery)
      (url : source.url = u)
  | source {source : DiscoveryEndpoint} {parsed : URL}
      (valid : validateSource rt source = .ok parsed) (url : source.url = u)
  | artifact {artifact : Artifact} (valid : validateArtifact rt artifact = .ok ())
      (url : artifact.url = u)

/-- The URL as the messages of the validators describe it: no query, no fragment, no credentials. -/
structure Plain (u : Bytes) : Prop where
  noQuery : 63 ∉ u
  noFragment : 35 ∉ u
  noCredentials : 64 ∉ URL.authority u

theorem parsed_of_validateSource {source : DiscoveryEndpoint} {parsed : URL}
    (h : validateSource rt source = .ok parsed) :
    rt.parseRequestURI source.url = some parsed ∧ parsed.user = false ∧ parsed.rawQuery = [] ∧
      parsed.host ≠ [] := by
  unfold validateSource at h
  cases hparsed : rt.parseRequestURI source.url with
  | none =>
      rw [hparsed] at h
      cases h
  | some found =>
      simp only [hparsed] at h
      split_ifs at h with hbad
      obtain rfl := Except.ok.inj h
      simp only [not_or, not_not, Bool.not_eq_true] at hbad
      exact ⟨rfl, hbad.2.2.1, hbad.2.2.2.1, hbad.2.1⟩

theorem parsed_of_accepted (h : AcceptedURL rt u) :
    ∃ parsed, rt.parseRequestURI u = some parsed ∧ parsed.user = false ∧ parsed.rawQuery = [] ∧
      parsed.host ≠ [] := by
  cases h with
  | discovery hvalid hmem hurl =>
      unfold validateDiscovery at hvalid
      split_ifs at hvalid
      obtain ⟨parsed, hparsed⟩ := (acceptable_of_validateSources hvalid _ hmem).url
      exact ⟨parsed, hurl ▸ parsed_of_validateSource hparsed⟩
  | source hvalid hurl => exact ⟨_, hurl ▸ parsed_of_validateSource hvalid⟩
  | artifact hvalid hurl =>
      exact hurl ▸ approved_eq_true (validateArtifact_eq_ok hvalid).2.1

/-- What passes is as promised unless it has a `#` or ends in `?`. -/
theorem accepted_plain_iff (rt : Runtime) (parseHost : Bytes → Option Bytes) (u : Bytes)
    (h : AcceptedURL (rt.withURLs parseHost) u) :
    Plain u ↔ 35 ∉ u ∧ u.getLast? ≠ some 63 := by
  obtain ⟨parsed, hparsed, huser, hquery, hhost⟩ := parsed_of_accepted h
  constructor
  · rintro ⟨hnoQuery, hnoFragment, _⟩
    refine ⟨hnoFragment, fun hlast => hnoQuery ?_⟩
    exact List.mem_of_getLast? hlast
  · rintro ⟨hnoFragment, hlast⟩
    refine ⟨fun hmem => hlast ?_, hnoFragment, URL.no_userinfo hparsed hhost huser⟩
    exact URL.getLast_of_question hparsed hhost hquery hmem

namespace Sample

def plainHost (host : Bytes) : Option Bytes :=
  if host.all (fun c => isAlnum c || c == 46 || c == 45) then some host else none

def archive (url : String) : Artifact :=
  ⟨str "tool", str "tool.tar.gz", str "1.0", List.replicate 40 48, str "source", str url,
    List.replicate 64 48, 1, str "p"⟩

def fragment : String := "https://github.com/a#b"

def question : String := "https://github.com/a?"

end Sample

/-- A fragment and a lone question mark pass all three validators. -/
theorem accepted_not_plain :
    validateDiscovery (Runtime.toy.withURLs Sample.plainHost)
        [⟨str "a", str Sample.fragment, 1⟩, ⟨str "b", str Sample.question, 2⟩] = .ok () ∧
      (validateSource (Runtime.toy.withURLs Sample.plainHost)
        ⟨str "a", str Sample.fragment, 1⟩).isOk = true ∧
      (validateSource (Runtime.toy.withURLs Sample.plainHost)
        ⟨str "b", str Sample.question, 2⟩).isOk = true ∧
      validateArtifact (Runtime.toy.withURLs Sample.plainHost) (Sample.archive Sample.fragment) =
        .ok () ∧
      validateArtifact (Runtime.toy.withURLs Sample.plainHost) (Sample.archive Sample.question) =
        .ok () ∧
      35 ∈ str Sample.fragment ∧ 63 ∈ str Sample.question := by
  refine ⟨?_, ?_, ?_, ?_, ?_, ?_, ?_⟩ <;> decide

theorem accepted_plain_archive : Plain (str "https://github.com/a") := by
  have hvalid : validateArtifact (Runtime.toy.withURLs Sample.plainHost)
      (Sample.archive "https://github.com/a") = .ok () := by decide
  exact (accepted_plain_iff .toy Sample.plainHost _ (.artifact hvalid rfl)).mpr
    ⟨by decide, by decide⟩

end CloudHelp
