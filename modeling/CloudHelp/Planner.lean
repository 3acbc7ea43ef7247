import CloudHelp.Manifest
import CloudHelp.Selection

/-!
# Ranking connection attempts

`Rank` of `internal/selector/planner.go`. A first pass over the catalog collects the endpoints
that may be tried now, with their scores, and the earliest end of a cooldown. They are sorted by
score and identifier, and the loop of `Selection` takes them one after the other. `Seen` is what
that loop remembers. A score stays far below the limit of the `uint64` it is kept in (`score_lt`).
-/

namespace CloudHelp.Selector

open Manifest

def defaultMaxCandidates : ℤ := 8

structure Options where
  udpAvailable : Bool
  maxCandidates : ℤ

structure Observation where
  consecutiveFailures : UInt16
  cooldownUntil : ℤ
  lastSuccess : ℤ
  transferVerified : Bool
  deriving DecidableEq

/-- A map from endpoint identifiers. A lookup of another key yields `Observation{}`. -/
def Observations := Bytes → Option Observation

def Observations.get (observations : Observations) (id : Bytes) : Observation :=
  (observations id).getD ⟨0, 0, 0, false⟩

structure Candidate where
  nodeID : Bytes
  provider : Bytes
  asn : UInt32
  endpoint : Endpoint
  deriving DecidableEq

structure Plan where
  candidates : List Candidate
  retryAt : ℤ
  deriving DecidableEq

structure ScoredCandidate where
  candidate : Candidate
  score : ℕ
  deriving DecidableEq

/-! ## The pass over the catalog -/

def score (endpoint : Endpoint) (observation : Observation) : ℕ :=
  let score := endpoint.priority.toNat * 1000 + observation.consecutiveFailures.toNat * 100000
  if observation.transferVerified = true ∧ Time.isZero observation.lastSuccess = false ∧
      100 ≤ score then score - 100
  else score

theorem score_lt (endpoint : Endpoint) (observation : Observation) :
    score endpoint observation + 10000 < 2 ^ 64 := by
  have hpriority := endpoint.priority.toNat_lt
  have hfailures := observation.consecutiveFailures.toNat_lt
  unfold score
  dsimp only
  split_ifs <;> omega

structure Survey where
  active : List ScoredCandidate
  retryAt : ℤ

section Survey

variable (observations : Observations) (now : ℤ) (options : Options)

/-- The body of the inner loop. -/
def consider (node : Node) (survey : Survey) (endpoint : Endpoint) : Survey :=
  if endpoint.transport = transportAmneziaWG ∧ options.udpAvailable = false then survey
  else
    let observation := observations.get endpoint.id
    if now < observation.cooldownUntil then
      if Time.isZero survey.retryAt = true ∨ observation.cooldownUntil < survey.retryAt then
        { survey with retryAt := observation.cooldownUntil }
      else survey
    else
      { survey with
        active := survey.active ++
          [⟨⟨node.id, node.provider, node.asn, endpoint⟩, score endpoint observation⟩] }

def surveyNodes (nodes : List Node) : Survey :=
  nodes.foldl (fun survey node =>
    node.endpoints.foldl (consider observations now options node) survey) ⟨[], 0⟩

end Survey

/-! ## The selection -/

structure Seen where
  providers : List Bytes
  asns : List UInt32

def Seen.add (seen : Seen) (selected : ScoredCandidate) : Seen :=
  ⟨selected.candidate.provider :: seen.providers, selected.candidate.asn :: seen.asns⟩

def Seen.providerSeen (seen : Seen) (item : ScoredCandidate) : Bool :=
  item.candidate.provider ∈ seen.providers

def Seen.asnSeen (seen : Seen) (item : ScoredCandidate) : Bool :=
  item.candidate.asn ∈ seen.asns

/-- A loop of `mostDiverse`: the index of the first item to accept, before the first whose score
is too high. -/
def firstWithin (maximumScore : ℕ) (accept : ScoredCandidate → Bool) :
    ℕ → List ScoredCandidate → Option ℕ
  | _, [] => none
  | index, item :: rest =>
      if maximumScore < item.score then none
      else if accept item = true then some index
      else firstWithin maximumScore accept (index + 1) rest

/-- `mostDiverse`; the source asks only when there is a candidate. -/
def mostDiverse (seen : Seen) : List ScoredCandidate → ℕ
  | [] => 0
  | best :: rest =>
      let maximumScore := best.score + 10000
      match firstWithin maximumScore (fun item => !seen.providerSeen item && !seen.asnSeen item) 0
          (best :: rest) with
      | some index => index
      | none =>
          match firstWithin maximumScore
              (fun item => !seen.providerSeen item || !seen.asnSeen item) 0 (best :: rest) with
          | some index => index
          | none => 0

def less : ScoredCandidate → ScoredCandidate → Bool :=
  lessBy ScoredCandidate.score fun item => item.candidate.endpoint.id

def limit (options : Options) : ℤ :=
  if options.maxCandidates = 0 then defaultMaxCandidates else options.maxCandidates

section Rank

variable (rt : Runtime) (document : Document) (observations : Observations) (now : ℤ)
  (options : Options)

def activeCandidates : List ScoredCandidate :=
  rt.sort.run less (surveyNodes observations now options document.nodes).active

def selection : List (Selection.Turn Seen ScoredCandidate) :=
  Selection.turns mostDiverse Seen.add (limit options).toNat ⟨[], []⟩
    (activeCandidates rt document observations now options)

def rank : Except Error Plan :=
  match validate rt document with
  | .error e => .error e
  | .ok () =>
      if limit options < 1 ∨ 16 < limit options then
        .error (.new "selector: max candidates must be between 1 and 16")
      else .ok
        { candidates := (selection rt document observations now options).map (·.picked.candidate)
          retryAt := (surveyNodes observations now options document.nodes).retryAt }

end Rank

end CloudHelp.Selector
