import CloudHelp.Manifest

/-!
# The discovery client

`Client.Fetch` of `internal/discovery/client.go`. It checks its settings and its sources, sorts
them, and asks one mirror after the other until one answers with a manifest that verifies. Every
attempt gets a share of the time that is left.

A `World` says what happens outside: how each mirror answers, how long that takes, and what the
clock says when an attempt begins. Instants of a call are counted in nanoseconds from the start of
its loop, and work that is not an attempt takes no time.
-/

namespace CloudHelp.Discovery

open Manifest

def defaultAttemptTimeout : ℤ := 12 * Duration.second

def defaultOverallTimeout : ℤ := 60 * Duration.second

def sourceIDPattern : Bytes → Bool := matchesHeadTail isLowerOrDigit isLowerDigitOrDash 62

/-- The settings of a client. Its HTTP client and its clock are part of the world. -/
structure Client where
  rootKey : Bytes
  maxAttempts : ℤ
  attemptTimeout : ℤ
  overallTimeout : ℤ

structure Result where
  document : Document
  trusted : TrustedState
  sourceID : Bytes
  deriving DecidableEq

/-! ## The world -/

structure Response where
  /-- `response.Request.URL`; none where `response.Request` is nil -/
  requestURL : Option URL
  statusCode : ℤ
  /-- `response.Header.Get("Content-Type")` -/
  contentType : Bytes
  body : Reader

structure Exchange where
  /-- the error of `http.NewRequestWithContext`, if there is one -/
  invalid : Option Error
  /-- what `requestClient.Do` returns -/
  answer : Except Error Response

structure World where
  /-- `strings.EqualFold` -/
  equalFold : Bytes → Bytes → Bool
  /-- the media type that `mime.ParseMediaType` finds, unless it fails -/
  parseMediaType : Bytes → Option Bytes
  exchange : DiscoveryEndpoint → Exchange
  duration : DiscoveryEndpoint → ℕ
  /-- what `now` returns for the attempt with this index -/
  clock : ℕ → ℤ

/-- The caller's context: its deadline, and the instant at which it is cancelled. -/
structure Context where
  deadline : Option ℤ
  cancelled : Option ℤ

def Context.background : Context := ⟨none, none⟩

section Fetch

variable (rt : Runtime) (world : World) (client : Client) (trusted : TrustedState)

/-! ## One attempt -/

def validateSource (source : DiscoveryEndpoint) : Except Error URL :=
  match rt.parseRequestURI source.url with
  | none =>
      .error (.new "source must be an HTTPS URL without credentials, query, or fragment")
  | some parsed =>
      if parsed.scheme ≠ str "https" ∨ parsed.host = [] ∨ parsed.user = true ∨
          parsed.rawQuery ≠ [] ∨ parsed.fragment ≠ [] then
        .error (.new "source must be an HTTPS URL without credentials, query, or fragment")
      else .ok parsed

def sameOrigin (parsed : URL) (response : Response) : Bool :=
  match response.requestURL with
  | none => false
  | some final => decide (final.scheme = str "https") && world.equalFold final.host parsed.host

/-- `mediaType` is there and is `application/json`. -/
def isJSON (response : Response) : Bool :=
  match world.parseMediaType response.contentType with
  | none => false
  | some mediaType => world.equalFold mediaType (str "application/json")

/-- The part of `fetchOne` after the request: the response is checked, read and verified. -/
def readResponse (parsed : URL) (now : ℤ) (response : Response) :
    Except Error (Document × TrustedState) :=
  if sameOrigin world parsed response = false then
    .error (.new "redirected discovery response changed origin")
  else if response.statusCode ≠ 200 then
    .error (.errorf "unexpected HTTP status %d" [.num response.statusCode])
  else if isJSON world response = false then
    .error (.errorf "unexpected Content-Type %q" [.text response.contentType])
  else match decodeEnvelope rt response.body with
    | .error e => .error e
    | .ok envelope =>
        match verify rt envelope client.rootKey now trusted with
        | (.error e, _) => .error e
        | (.ok document, nextState) => .ok (document, nextState)

def fetchOne (source : DiscoveryEndpoint) (now : ℤ) : Except Error (Document × TrustedState) :=
  match validateSource rt source with
  | .error e => .error e
  | .ok parsed =>
      match (world.exchange source).invalid with
      | some e => .error (.wrap "create request: %w" [] e)
      | none =>
          match (world.exchange source).answer with
          | .error e => .error (.wrap "request manifest: %w" [] e)
          | .ok response => readResponse rt world client trusted parsed now response

/-! ## What is settled before the first attempt -/

def checkSources : List Bytes → List DiscoveryEndpoint → Except Error Unit
  | _, [] => .ok ()
  | seenIDs, source :: rest =>
      if sourceIDPattern source.id = false then
        .error (.errorf "discovery: invalid source ID %q" [.text source.id])
      else if source.priority = 0 ∨ 1000 < source.priority then
        .error (.errorf "discovery: source %q priority must be between 1 and 1000"
          [.text source.id])
      else if source.id ∈ seenIDs then
        .error (.errorf "discovery: duplicate source ID %q" [.text source.id])
      else match validateSource rt source with
        | .error e => .error (.wrap "discovery: source %q: %w" [.text source.id] e)
        | .ok _ => checkSources (source.id :: seenIDs) rest

def less : DiscoveryEndpoint → DiscoveryEndpoint → Bool :=
  lessBy (fun source => source.priority.toNat) DiscoveryEndpoint.id

/-- The number of attempts, with the default for the setting zero. -/
def attemptLimit (sources : List DiscoveryEndpoint) : ℤ :=
  if client.maxAttempts = 0 then sources.length else client.maxAttempts

def attemptTimeoutOf : ℤ :=
  if client.attemptTimeout = 0 then defaultAttemptTimeout else client.attemptTimeout

def overallTimeoutOf : ℤ :=
  if client.overallTimeout = 0 then defaultOverallTimeout else client.overallTimeout

def select (sources : List DiscoveryEndpoint) : List DiscoveryEndpoint :=
  let ordered := rt.sort.run less sources
  if attemptLimit client sources < ordered.length then
    ordered.take (attemptLimit client sources).toNat
  else ordered

/-- `Fetch` up to its loop. -/
def prepare (sources : List DiscoveryEndpoint) : Except Error (List DiscoveryEndpoint) :=
  if client.rootKey.length ≠ publicKeySize then
    .error (.new "discovery: a pinned offline root public key is required")
  else if sources.length = 0 ∨ 16 < sources.length then
    .error (.new "discovery: sources must contain between 1 and 16 entries")
  else if attemptLimit client sources < 1 ∨ 16 < attemptLimit client sources then
    .error (.new "discovery: max attempts must be between 1 and 16")
  else if attemptTimeoutOf client < Duration.second ∨
      30 * Duration.second < attemptTimeoutOf client then
    .error (.new "discovery: attempt timeout must be between 1s and 30s")
  else if overallTimeoutOf client < 5 * Duration.second ∨
      5 * Duration.minute < overallTimeoutOf client then
    .error (.new "discovery: overall timeout must be between 5s and 5m")
  else match checkSources rt [] sources with
    | .error e => .error e
    | .ok () => .ok (select rt client sources)

/-! ## The attempts -/

variable (ctx : Context)

/-- `fetchContext.Deadline()` -/
def deadline : ℤ :=
  match ctx.deadline with
  | none => overallTimeoutOf client
  | some callerDeadline => min callerDeadline (overallTimeoutOf client)

/-- `fetchContext.Err() != nil` -/
def ended (instant : ℤ) : Bool :=
  decide (deadline client ctx ≤ instant) ||
    ctx.cancelled.any fun cancelled => decide (cancelled ≤ instant)

/-- `attemptBudget` with so many mirrors left to ask, this one included. -/
def attemptBudget (elapsed : ℤ) (left : ℕ) : ℤ :=
  let fairShare := (deadline client ctx - elapsed).tdiv left
  if fairShare < attemptTimeoutOf client then fairShare else attemptTimeoutOf client

structure Attempt where
  source : DiscoveryEndpoint
  started : ℤ
  budget : ℤ
  duration : ℕ
  outcome : Except Error (Document × TrustedState)

def Attempt.finished (attempt : Attempt) : ℤ := attempt.started + attempt.duration

inductive Failure where
  /-- a setting or a source is refused -/
  | refused (e : Error)
  /-- `discovery: no sources were provided` -/
  | noSources
  /-- `discovery: all attempted sources failed: %w`, with the errors joined -/
  | allFailed (failures : List Error)
  deriving DecidableEq

def exhausted (failures : List Error) : Failure :=
  if failures.length = 0 then .noSources else .allFailed failures

/-- The loop, with the index of the next attempt, the time that has passed and the failures so
far. -/
def attempts : ℕ → ℤ → List Error → List DiscoveryEndpoint → List Attempt × Except Failure Result
  | _, _, failures, [] => ([], .error (exhausted failures))
  | index, elapsed, failures, source :: rest =>
      let budget := attemptBudget client ctx elapsed (rest.length + 1)
      if budget ≤ 0 then ([], .error (exhausted failures))
      else
        let outcome := fetchOne rt world client trusted source (world.clock index)
        let attempt := ⟨source, elapsed, budget, world.duration source, outcome⟩
        match outcome with
        | .ok (document, nextState) => ([attempt], .ok ⟨document, nextState, source.id⟩)
        | .error e =>
            let failures := failures ++ [.wrap "%s: %w" [.text source.id] e]
            if ended client ctx attempt.finished = true then
              ([attempt], .error (exhausted failures))
            else
              let later := attempts (index + 1) attempt.finished failures rest
              (attempt :: later.1, later.2)

/-- `Fetch`: the attempts it makes and what it returns. -/
def fetch (sources : List DiscoveryEndpoint) : List Attempt × Except Failure Result :=
  match prepare rt client sources with
  | .error e => ([], .error (.refused e))
  | .ok selected => attempts rt world client trusted ctx 0 0 [] selected

end Fetch

end CloudHelp.Discovery
