import CloudHelp.Affixes
import CloudHelp.Lists
import CloudHelp.ManifestTypes
import CloudHelp.PilotReport

/-!
# The administration API of the pilot

`internal/pilotapi/handler.go`: the handler that checks the administrator's token, chooses a route
by the path, and calls the access service or the telemetry service. The services are what the
handler is given; what one request makes of them is an `Outcome`, which holds the calls in their
order beside the answer. The decoders of the request bodies, `mime.ParseMediaType` and
`strings.ToLower` are parameters. Answers are values here: their JSON is the encoder's work.
-/

namespace CloudHelp.PilotAPI

open PilotAccess (Access RegisterInput)
open PilotTelemetry (RecordInput TestResult Report)

def maxRequestBytes : ℕ := 8 * 2 ^ 10

def methodPost : Bytes := str "POST"

def methodGet : Bytes := str "GET"

/-! ## Requests and answers -/

structure Request where
  method : Bytes
  path : Bytes
  /-- `Header.Get("Authorization")` -/
  authorization : Bytes
  /-- `Header.Get("Content-Type")` -/
  contentType : Bytes
  body : Bytes

structure RegisterRequest where
  deviceID : Bytes
  nodeID : Bytes
  transport : Bytes
  externalReference : Bytes
  expiresAt : Option ℤ

structure AccessResponse where
  id : Bytes
  deviceID : Bytes
  nodeID : Bytes
  transport : Bytes
  externalReference : Bytes
  createdAt : ℤ
  expiresAt : Option ℤ
  revokedAt : Option ℤ
  status : PilotAccess.Status

structure TestResultRequest where
  deviceID : Bytes
  clientPlatform : Bytes
  isp : Option Bytes
  transport : Bytes
  occurredAt : ℤ
  success : Bool
  failureStage : Option Bytes
  connectionTimeBucket : Bytes
  throughputBucket : Option Bytes

structure TestResultResponse where
  id : Bytes
  deviceID : Bytes
  clientPlatform : Bytes
  isp : Option Bytes
  transport : Bytes
  occurredAt : ℤ
  success : Bool
  failureStage : Option Bytes
  connectionTimeBucket : Bytes
  throughputBucket : Option Bytes
  recordedAt : ℤ

def RegisterRequest.input (r : RegisterRequest) : RegisterInput :=
  ⟨r.deviceID, r.nodeID, r.transport, r.externalReference, r.expiresAt⟩

def TestResultRequest.input (r : TestResultRequest) : RecordInput :=
  ⟨r.deviceID, r.clientPlatform, r.isp, r.transport, r.occurredAt, r.success, r.failureStage,
    r.connectionTimeBucket, r.throughputBucket⟩

def responseFromAccess (access : Access) : AccessResponse :=
  ⟨access.id, access.deviceID, access.nodeID, access.transport, access.externalReference,
    access.createdAt, access.expiresAt, access.revokedAt, access.status⟩

def responseFromTestResult (result : TestResult) : TestResultResponse :=
  ⟨result.id, result.deviceID, result.clientPlatform, result.isp, result.transport,
    result.occurredAt, result.success, result.failureStage, result.connectionTimeBucket,
    result.throughputBucket, result.recordedAt⟩

inductive Body (F : Type) where
  /-- the object with the one member `error` -/
  | error (message : String)
  | access (response : AccessResponse)
  | testResult (response : TestResultResponse)
  | report (report : Report F)

inductive Call where
  | register (input : RegisterInput)
  | revoke (id : Bytes)
  | record (input : RecordInput)
  | report

abbrev Header := String × String

/-- What a request leads to: the calls of the services, the answer and the lines of the log. -/
structure Outcome (F : Type) where
  calls : List Call
  headers : List Header
  status : ℕ
  body : Body F
  logged : List String

/-! ## The handler -/

structure AccessService where
  register : RegisterInput → Except Error Access
  revoke : Bytes → Except Error Access

structure TelemetryService (F : Type) where
  record : RecordInput → Except Error TestResult
  report : Except Error (Report F)

structure Handler (F : Type) where
  service : AccessService
  telemetry : Option (TelemetryService F)
  /-- the SHA-256 of the administrator's token -/
  token : Vector UInt8 32
  /-- whether there is a logger -/
  logger : Bool

inductive ReadError where
  | eof
  /-- `*http.MaxBytesError` -/
  | maxBytes
  | other (error : Error)

structure Reader where
  available : Bytes
  ending : ReadError

def maxBytesReader (body : Bytes) (limit : ℕ) : Reader :=
  if body.length ≤ limit then ⟨body, .eof⟩ else ⟨body.take limit, .maxBytes⟩

/-- What the handler takes from Go's library. The decoders refuse unknown fields, and they return
the rest of the body. -/
structure Library where
  /-- `strings.ToLower` -/
  toLower : Bytes → Bytes
  /-- `mime.ParseMediaType`, the parameters apart -/
  parseMediaType : Bytes → Option Bytes
  decodeRegister : Reader → Except ReadError (RegisterRequest × Reader)
  decodeTestResult : Reader → Except ReadError (TestResultRequest × Reader)
  /-- `Decode` into a variable of type `any` -/
  decodeAny : Reader → Except ReadError Reader

/-- A character that ends up in no token: `character <= ' ' || character == 127`. Those characters
are single bytes, and no byte of another character is one of them. -/
def isBlank (c : UInt8) : Bool := c.toNat ≤ 32 || c == 127

section

variable {F : Type} (rt : Runtime) (lib : Library)

def newWithTelemetry (service : Option AccessService) (telemetry : Option (TelemetryService F))
    (token : Bytes) (logger : Bool) : Except Error (Handler F) :=
  match service with
  | none => .error (.new "pilot API: access service is required")
  | some service =>
      if token.length < 32 ∨ 512 < token.length then
        .error (.new "pilot API: admin token must contain between 32 and 512 bytes")
      else if str "replace-with" <:+: lib.toLower token then
        .error (.new "pilot API: admin token must not contain the example placeholder")
      else if token.any isBlank then
        .error (.new "pilot API: admin token must not contain whitespace or control characters")
      else .ok ⟨service, telemetry, rt.sha256 token, logger⟩

/-! ### Writing answers -/

def setHeaders : List Header :=
  [("Cache-Control", "no-store"),
    ("Content-Security-Policy", "default-src 'none'; frame-ancestors 'none'"),
    ("Referrer-Policy", "no-referrer"), ("X-Content-Type-Options", "nosniff")]

def writeJSON (headers : List Header) (status : ℕ) (value : Body F) : Outcome F :=
  ⟨[], headers ++ [("Content-Type", "application/json")], status, value, []⟩

def writeError (headers : List Header) (status : ℕ) (message : String) : Outcome F :=
  writeJSON headers status (.error message)

def notFound : Outcome F := writeError setHeaders 404 "not found"

def methodNotAllowed (allowed : String) : Outcome F :=
  writeError (setHeaders ++ [("Allow", allowed)]) 405 "method not allowed"

def errorsIs (target : Error) : Error → Bool
  | .wrap format args cause => .wrap format args cause = target || errorsIs target cause
  | err => err = target

def deadlineExceeded : Error := .library "context deadline exceeded"

/-- `handler.logger.Printf("%s failed", operation)`, if there is a logger. -/
def logFailure (logger : Bool) (operation : String) : List String :=
  if logger then [operation ++ " failed"] else []

def serviceError (logger : Bool) (operation : String) (err : Error) : Outcome F :=
  if errorsIs PilotAccess.errInvalid err ∨ errorsIs PilotTelemetry.errInvalid err then
    writeError setHeaders 400 "invalid pilot metadata"
  else if errorsIs PilotAccess.errNotFound err then
    writeError setHeaders 404 "access not found"
  else if errorsIs PilotAccess.errConflict err ∨ errorsIs PilotTelemetry.errConflict err then
    writeError setHeaders 409 "record already exists"
  else if errorsIs deadlineExceeded err then
    writeError setHeaders 503 "service temporarily unavailable"
  else
    { writeError setHeaders 500 "internal error" with logged := logFailure logger operation }

/-- A call of a service and the answer to its result, the end of all four routes. -/
def answer {α : Type} (logger : Bool) (call : Call) (operation : String) (status : ℕ)
    (render : α → Body F) (result : Except Error α) : Outcome F :=
  match result with
  | .error err => { serviceError logger operation err with calls := [call] }
  | .ok value => { writeJSON setHeaders status (render value) with calls := [call] }

/-! ### The routes -/

def decodeStrict {α : Type} (decode : Reader → Except ReadError (α × Reader)) (body : Bytes) :
    Except ReadError α :=
  match decode (maxBytesReader body maxRequestBytes) with
  | .error err => .error err
  | .ok (value, rest) =>
      match lib.decodeAny rest with
      | .error .eof => .ok value
      | .error err => .error err
      | .ok _ => .error (.other (.new "multiple JSON values"))

def postJSON {α : Type} (decode : Reader → Except ReadError (α × Reader)) (request : Request)
    (serve : α → Outcome F) : Outcome F :=
  if request.method ≠ methodPost then methodNotAllowed "POST"
  else if lib.parseMediaType request.contentType ≠ some (str "application/json") then
    writeError setHeaders 415 "Content-Type must be application/json"
  else
    match decodeStrict lib decode request.body with
    | .error .maxBytes => writeError setHeaders 413 "request too large"
    | .error _ => writeError setHeaders 400 "invalid request"
    | .ok input => serve input

variable (handler : Handler F) (request : Request)

def register : Outcome F :=
  postJSON lib lib.decodeRegister request fun input =>
    answer handler.logger (.register input.input) "register pilot access" 201
      (fun access => .access (responseFromAccess access)) (handler.service.register input.input)

def recordTestResult (telemetry : TelemetryService F) : Outcome F :=
  postJSON lib lib.decodeTestResult request fun input =>
    answer handler.logger (.record input.input) "record pilot test result" 201
      (fun result => .testResult (responseFromTestResult result)) (telemetry.record input.input)

def report (telemetry : TelemetryService F) : Outcome F :=
  if request.method ≠ methodGet then methodNotAllowed "GET"
  else answer handler.logger .report "generate pilot report" 200 .report telemetry.report

def accessPath : Bytes := str "/admin/pilot/access/"

def revokeEnd : Bytes := str "/revoke"

/-- What `revoke` takes from the path: `strings.TrimSuffix` of `strings.TrimPrefix`. -/
def identifier (path : Bytes) : Bytes :=
  Affixes.trimBack revokeEnd (Affixes.trimFront accessPath path)

def revoke : Outcome F :=
  if request.method ≠ methodPost then methodNotAllowed "POST"
  else if identifier request.path = [] ∨ 47 ∈ identifier request.path then notFound
  else
    answer handler.logger (.revoke (identifier request.path)) "revoke pilot access" 200
      (fun access => .access (responseFromAccess access))
      (handler.service.revoke (identifier request.path))

/-- `strings.Cut` with a separator of one byte -/
def cut (separator : UInt8) (s : Bytes) : Option (Bytes × Bytes) :=
  if separator ∈ s then
    some (s.takeWhile (· != separator), (s.dropWhile (· != separator)).tail)
  else none

/-- `strings.EqualFold(scheme, "Bearer")`: no letter of the word folds to one outside ASCII. -/
def isBearer (scheme : Bytes) : Bool := PilotAccess.toLower scheme = str "bearer"

def authorized : Bool :=
  match cut 32 request.authorization with
  | none => false
  | some (scheme, presented) =>
      if ¬isBearer scheme ∨ presented = [] ∨ presented.any isBlank then false
      else rt.sha256 presented = handler.token

/-- The cases of the `switch` that ask for `handler.telemetry != nil`, and its default. -/
def serveTelemetry (telemetry : TelemetryService F) : Outcome F :=
  if request.path = str "/admin/pilot/test-results" then
    recordTestResult lib handler request telemetry
  else if request.path = str "/admin/pilot/report" then report handler request telemetry
  else notFound

def serveHTTP : Outcome F :=
  if ¬authorized rt handler request then
    writeError (setHeaders ++ [("WWW-Authenticate", "Bearer realm=\"pilot-admin\"")]) 401
      "unauthorized"
  else if request.path = str "/admin/pilot/access" then register lib handler request
  else if accessPath <+: request.path ∧ revokeEnd <:+ request.path then
    revoke handler request
  else
    match handler.telemetry with
    | none => notFound
    | some telemetry => serveTelemetry lib handler request telemetry

/-! ## What every request leads to -/

/-- The answer has the headers of `setHeaders` and is JSON, at most one service call is made, a
request that is not refused made one, and a refusal says why. -/
structure Sound (outcome : Outcome F) : Prop where
  headers : setHeaders <+: outcome.headers
  contentType : ("Content-Type", "application/json") ∈ outcome.headers
  calls : outcome.calls.length ≤ 1
  called : outcome.status < 400 → outcome.calls ≠ []
  refusal : 400 ≤ outcome.status → ∃ message, outcome.body = .error message

theorem writeError_sound (extra : List Header) {status : ℕ} (hstatus : 400 ≤ status)
    (message : String) : Sound (writeError (setHeaders ++ extra) status message : Outcome F) where
  headers := by
    change setHeaders <+: setHeaders ++ extra ++ _
    rw [List.append_assoc]
    exact List.prefix_append _ _
  contentType := List.mem_append_right _ List.mem_cons_self
  calls := Nat.zero_le 1
  called h := absurd h (Nat.not_lt.mpr hstatus)
  refusal _ := ⟨message, rfl⟩

theorem notFound_sound : Sound (notFound : Outcome F) := writeError_sound [] (by decide) _

theorem methodNotAllowed_sound (allowed : String) : Sound (methodNotAllowed allowed : Outcome F) :=
  writeError_sound _ (by decide) _

/-- The calls and the lines of the log do not matter to a refusal. -/
theorem Sound.refused {outcome : Outcome F} (h : Sound outcome) (hstatus : 400 ≤ outcome.status)
    (call : Call) : Sound { outcome with calls := [call] } where
  headers := h.headers
  contentType := h.contentType
  calls := Nat.le_refl 1
  called hlt := absurd hlt (Nat.not_lt.mpr hstatus)
  refusal := h.refusal

theorem serviceError_sound (logger : Bool) (operation : String) (err : Error) :
    Sound (serviceError logger operation err : Outcome F) ∧
      400 ≤ (serviceError logger operation err : Outcome F).status := by
  have hrefusal (status : ℕ) (hstatus : 400 ≤ status) (message : String) :
      Sound (writeError setHeaders status message : Outcome F) ∧
        400 ≤ (writeError setHeaders status message : Outcome F).status :=
    ⟨by simpa using writeError_sound [] hstatus message, hstatus⟩
  unfold serviceError
  split_ifs
  · exact hrefusal 400 (by decide) _
  · exact hrefusal 404 (by decide) _
  · exact hrefusal 409 (by decide) _
  · exact hrefusal 503 (by decide) _
  · obtain ⟨⟨hheaders, hcontent, hcalls, hcalled, hbody⟩, hstatus⟩ :=
      hrefusal 500 (by decide) "internal error"
    exact ⟨⟨hheaders, hcontent, hcalls, hcalled, hbody⟩, hstatus⟩

theorem answer_sound {α : Type} (logger : Bool) (call : Call) (operation : String) {status : ℕ}
    (hstatus : status < 400) (render : α → Body F) (result : Except Error α) :
    Sound (answer logger call operation status render result) := by
  cases result with
  | error err =>
      obtain ⟨hsound, hrefused⟩ := serviceError_sound (F := F) logger operation err
      exact hsound.refused hrefused call
  | ok value =>
      exact ⟨List.prefix_append _ _, List.mem_append_right _ List.mem_cons_self, Nat.le_refl 1,
        fun _ => List.cons_ne_nil _ _, fun h => absurd hstatus (Nat.not_lt.mpr h)⟩

theorem postJSON_sound {α : Type} (decode : Reader → Except ReadError (α × Reader))
    (serve : α → Outcome F) (hserve : ∀ input, Sound (serve input)) :
    Sound (postJSON lib decode request serve) := by
  unfold postJSON
  split_ifs
  · exact methodNotAllowed_sound _
  · exact writeError_sound [] (by decide) _
  · cases decodeStrict lib decode request.body with
    | ok input => exact hserve input
    | error err =>
        cases err with
        | maxBytes => exact writeError_sound [] (by decide) _
        | eof => exact writeError_sound [] (by decide) _
        | other e => exact writeError_sound [] (by decide) _

theorem revoke_sound : Sound (revoke handler request) := by
  unfold revoke
  split_ifs
  · exact methodNotAllowed_sound _
  · exact notFound_sound
  · exact answer_sound _ _ _ (by decide) _ _

theorem report_sound (telemetry : TelemetryService F) :
    Sound (report handler request telemetry) := by
  unfold report
  split_ifs
  · exact methodNotAllowed_sound _
  · exact answer_sound _ _ _ (by decide) _ _

theorem serveTelemetry_sound (telemetry : TelemetryService F) :
    Sound (serveTelemetry lib handler request telemetry) := by
  unfold serveTelemetry
  split_ifs
  · apply postJSON_sound
    intro input
    exact answer_sound _ _ _ (by decide) _ _
  · exact report_sound handler request telemetry
  · exact notFound_sound

/-- Every request is answered, with at most one call of a service; an answer below 400 comes from a
service that was called. -/
theorem serveHTTP_sound : Sound (serveHTTP rt lib handler request) := by
  unfold serveHTTP
  split_ifs
  · apply postJSON_sound
    intro input
    exact answer_sound _ _ _ (by decide) _ _
  · exact revoke_sound handler request
  · cases handler.telemetry with
    | none => exact notFound_sound
    | some telemetry => exact serveTelemetry_sound lib handler request telemetry
  · exact writeError_sound _ (by decide) _

/-! ## Who is let in -/

variable {rt lib handler request}

theorem cut_eq_some {separator : UInt8} {s before after : Bytes}
    (h : cut separator s = some (before, after)) : s = before ++ separator :: after := by
  unfold cut at h
  split_ifs at h with hmem
  simp only [Option.some.injEq, Prod.mk.injEq] at h
  obtain ⟨rfl, rfl⟩ := h
  have hrest : s.dropWhile (· != separator) ≠ [] := by
    intro hnil
    have := List.dropWhile_eq_nil_iff.mp hnil separator hmem
    simp at this
  have hhead : (s.dropWhile (· != separator)).head hrest = separator := by
    simpa using List.head_dropWhile_not (· != separator) hrest
  conv_lhs => rw [← List.takeWhile_append_dropWhile (p := (· != separator)) (l := s)]
  rw [← List.cons_head_tail hrest, hhead, List.tail_cons]

theorem cut_append {separator : UInt8} (before after : Bytes) (h : separator ∉ before) :
    cut separator (before ++ separator :: after) = some (before, after) := by
  have hmem : separator ∈ before ++ separator :: after := by simp
  rw [cut, if_pos hmem, takeWhile_ne_append h, dropWhile_ne_append h, List.tail_cons]

/-- The request presents a token after the word `Bearer`, and its hash is the handler's. -/
theorem authorized_eq_true (h : authorized rt handler request = true) :
    ∃ scheme presented, request.authorization = scheme ++ 32 :: presented ∧
      isBearer scheme = true ∧ rt.sha256 presented = handler.token := by
  unfold authorized at h
  cases hcut : cut 32 request.authorization with
  | none => simp [hcut] at h
  | some parts =>
      obtain ⟨scheme, presented⟩ := parts
      simp only [hcut] at h
      split_ifs at h with hbad
      have hbearer : isBearer scheme = true := by
        by_contra hnot
        exact hbad (Or.inl hnot)
      exact ⟨scheme, presented, cut_eq_some hcut, hbearer, of_decide_eq_true h⟩

/-- A handler that `NewWithTelemetry` made admits its own token. -/
theorem newWithTelemetry_authorizes {service : Option AccessService}
    {telemetry : Option (TelemetryService F)} {token : Bytes} {logger : Bool}
    (h : newWithTelemetry rt lib service telemetry token logger = .ok handler)
    (hrequest : request.authorization = str "Bearer " ++ token) :
    authorized rt handler request = true := by
  cases service with
  | none => cases h
  | some service =>
      unfold newWithTelemetry at h
      dsimp only at h
      split_ifs at h with hlength hplaceholder hblank
      obtain rfl := Except.ok.inj h
      have hne : token ≠ [] := by
        rintro rfl
        exact hlength (Or.inl (by decide))
      have hcut : cut 32 request.authorization = some (str "Bearer", token) := by
        rw [hrequest]
        exact cut_append (str "Bearer") token (by decide)
      have hbearer : isBearer (str "Bearer") = true := by decide
      have hadmitted : ¬(¬isBearer (str "Bearer") ∨ token = [] ∨ token.any isBlank) := by
        simp [hbearer, hne, hblank]
      unfold authorized
      rw [hcut]
      dsimp only
      rw [if_neg hadmitted]
      exact decide_eq_true rfl

/-- Nobody else is let in, as far as SHA-256 tells the presented token from the handler's. -/
theorem token_of_authorized {service : Option AccessService}
    {telemetry : Option (TelemetryService F)} {token : Bytes} {logger : Bool}
    (h : newWithTelemetry rt lib service telemetry token logger = .ok handler)
    (hauth : authorized rt handler request = true) {S : Set Bytes}
    (hcollision : rt.CollisionFreeOn S) (htoken : token ∈ S)
    (hpresented : ∀ presented, 32 :: presented <:+ request.authorization → presented ∈ S) :
    ∃ scheme, isBearer scheme = true ∧ request.authorization = scheme ++ 32 :: token := by
  obtain ⟨scheme, presented, heq, hbearer, hhash⟩ := authorized_eq_true hauth
  have hstored : handler.token = rt.sha256 token := by
    cases service with
    | none => cases h
    | some service =>
        unfold newWithTelemetry at h
        dsimp only at h
        split_ifs at h
        obtain rfl := Except.ok.inj h
        rfl
  rw [hstored] at hhash
  have hmem : presented ∈ S := by
    apply hpresented
    rw [heq]
    exact List.suffix_append _ _
  have hsame : presented = token := hcollision hmem htoken hhash
  exact ⟨scheme, hbearer, hsame ▸ heq⟩

end

end CloudHelp.PilotAPI
