import CloudHelp.PilotAccess
import CloudHelp.Unicode

/-!
# Pilot test results

`internal/pilottelemetry/telemetry.go`: what a test result holds, what `Validate` asks of it, and
what `Record` does before it calls the store. The clock and the generated identifier are inputs. The
platforms, stages and buckets are Go strings, so a caller may pass any text.
-/

namespace CloudHelp.PilotTelemetry

def errInvalid : Error := .new "pilot telemetry: invalid input"

def maximumResultAge : ℤ := 30 * 24 * Duration.hour

def maximumClockSkew : ℤ := 5 * Duration.minute

def maximumISPCodepoints : ℕ := 100

structure TestResult where
  id : Bytes
  deviceID : Bytes
  clientPlatform : Bytes
  isp : Option Bytes
  transport : Bytes
  occurredAt : ℤ
  success : Bool
  failureStage : Option Bytes
  connectionTimeBucket : Bytes
  throughputBucket : Option Bytes
  recordedAt : ℤ
  deriving DecidableEq, Repr

structure RecordInput where
  deviceID : Bytes
  clientPlatform : Bytes
  isp : Option Bytes
  transport : Bytes
  occurredAt : ℤ
  success : Bool
  failureStage : Option Bytes
  connectionTimeBucket : Bytes
  throughputBucket : Option Bytes

/-! ## Validation -/

def invalid (reason : String) : Error := .wrap ("%w: " ++ reason) [] errInvalid

/-- `fmt.Errorf("%w: %v", ErrInvalid, err)` with the text of `err` written out. -/
def invalidFor : Error → Error
  | .errorf format args => .wrap ("%w: " ++ format) args errInvalid
  | _ => errInvalid

def validatePlatform (value : Bytes) : Except Error Unit :=
  if value ∈ [str "android", str "ios", str "linux", str "macos", str "windows"] then .ok ()
  else .error (invalid "client platform is invalid")

def validFailureStage (value : Bytes) : Bool :=
  value ∈ [str "server_health", str "public_ip", str "transport", str "port", str "server_outbound",
    str "tunnel", str "dns", str "https", str "ipv4_leak", str "ipv6_leak", str "upload",
    str "download", str "reconnect"]

def validConnectionBucket (value : Bytes) : Bool :=
  value ∈ [str "lt_3s", str "3_10s", str "10_30s", str "gt_30s", str "unknown"]

def validThroughputBucket (value : Bytes) : Bool :=
  value ∈ [str "lt_1_mbps", str "1_10_mbps", str "10_50_mbps", str "gte_50_mbps"]

def validISP (value : Bytes) : Bool :=
  if ¬Utf8.validString value ∨ value ≠ Utf8.trimSpace value then false
  else if IP.parseIP value then false
  else if Utf8.runeCount value < 1 ∨ Utf8.runeCount value > maximumISPCodepoints then false
  else !(Utf8.pieces value).any Utf8.Piece.isControl

def validate (result : TestResult) : Except Error Unit :=
  if ¬(PilotAccess.uuidPattern result.id = true ∧
      PilotAccess.uuidPattern result.deviceID = true) then
    .error (invalid "result and device IDs must be canonical UUIDs")
  else match validatePlatform result.clientPlatform with
    | .error e => .error e
    | .ok () =>
        match VpnNode.validateTransport result.transport with
        | .error e => .error (invalidFor e)
        | .ok () =>
            if Time.isZero result.occurredAt ∨ Time.isZero result.recordedAt then
              .error (invalid "occurrence and recording times are required")
            else if ¬result.isp.all validISP then
              .error (invalid "ISP label is invalid")
            else if result.success ≠ result.failureStage.isNone then
              .error (invalid "success and failure stage are inconsistent")
            else if ¬result.failureStage.all validFailureStage then
              .error (invalid "failure stage is invalid")
            else if ¬validConnectionBucket result.connectionTimeBucket then
              .error (invalid "connection time bucket is invalid")
            else if ¬result.throughputBucket.all validThroughputBucket then
              .error (invalid "throughput bucket is invalid")
            else .ok ()

/-! ## The call before the store -/

/-- The result `Record` builds from its input: times in whole seconds, the label trimmed. -/
def newResult (input : RecordInput) (identifier : Bytes) (now : ℤ) : TestResult :=
  { id := identifier
    deviceID := input.deviceID
    clientPlatform := input.clientPlatform
    isp := input.isp.map Utf8.trimSpace
    transport := input.transport
    occurredAt := Time.truncateSecond input.occurredAt
    success := input.success
    failureStage := input.failureStage
    connectionTimeBucket := input.connectionTimeBucket
    throughputBucket := input.throughputBucket
    recordedAt := Time.truncateSecond now }

/-- `Record` up to `store.Create`. -/
def beforeCreate (input : RecordInput) (now : ℤ) (newID : Except Error Bytes) :
    Except Error TestResult :=
  match newID with
  | .error e => .error (.wrap "pilot telemetry: generate ID: %w" [] e)
  | .ok identifier =>
      let result := newResult input identifier now
      if result.occurredAt < result.recordedAt - maximumResultAge ∨
          result.recordedAt + maximumClockSkew < result.occurredAt then
        .error (invalid "occurrence time is outside the 30-day pilot window")
      else match validate result with
        | .error e => .error e
        | .ok () => .ok result

/-! ## What is accepted -/

structure IsLabel (label : Bytes) : Prop where
  valid : Utf8.validString label = true
  trimmed : Utf8.trimSpace label = label
  notIP : IP.parseIP label = false
  count_pos : 1 ≤ Utf8.runeCount label
  count_le : Utf8.runeCount label ≤ maximumISPCodepoints
  printable : ∀ p ∈ Utf8.pieces label, p.isControl = false

theorem validISP_eq_true {label : Bytes} : validISP label = true ↔ IsLabel label := by
  unfold validISP
  constructor
  · intro h
    split_ifs at h with htext hip hcount
    push Not at htext hcount
    refine ⟨htext.1, htext.2.symm, by simpa using hip, hcount.1, hcount.2, ?_⟩
    simpa using h
  · rintro ⟨hvalid, htrim, hip, hpos, hle, hprint⟩
    rw [if_neg, if_neg, if_neg]
    · simpa using hprint
    · omega
    · simp [hip]
    · simp [hvalid, htrim]

structure IsValid (result : TestResult) : Prop where
  id : PilotAccess.uuidPattern result.id = true
  deviceID : PilotAccess.uuidPattern result.deviceID = true
  platform : result.clientPlatform ∈
    [str "android", str "ios", str "linux", str "macos", str "windows"]
  transport : result.transport = VpnNode.transportAmneziaWG ∨
    result.transport = VpnNode.transportXRayReality
  label : ∀ label ∈ result.isp, IsLabel label
  consistent : result.success = result.failureStage.isNone
  stage : ∀ stage ∈ result.failureStage, validFailureStage stage = true
  connection : validConnectionBucket result.connectionTimeBucket = true
  throughput : ∀ bucket ∈ result.throughputBucket, validThroughputBucket bucket = true

theorem validatePlatform_eq_ok {value : Bytes} (h : validatePlatform value = .ok ()) :
    value ∈ [str "android", str "ios", str "linux", str "macos", str "windows"] := by
  unfold validatePlatform at h
  split_ifs at h with hmem
  exact hmem

theorem isValid_of_validate {result : TestResult} (h : validate result = .ok ()) :
    IsValid result := by
  unfold validate at h
  by_cases hids : PilotAccess.uuidPattern result.id = true ∧
      PilotAccess.uuidPattern result.deviceID = true
  · rw [if_neg (not_not_intro hids)] at h
    cases hplatform : validatePlatform result.clientPlatform with
    | error e =>
        rw [hplatform] at h
        cases h
    | ok u =>
        cases htransport : VpnNode.validateTransport result.transport with
        | error e =>
            rw [hplatform, htransport] at h
            cases h
        | ok u =>
            rw [hplatform, htransport] at h
            dsimp only at h
            split_ifs at h with hzero hisp hsuccess hstage hconnection hthroughput
            refine ⟨hids.1, hids.2, validatePlatform_eq_ok hplatform,
              VpnNode.validateTransport_eq_ok htransport, ?_, not_not.mp hsuccess, ?_, hconnection,
                ?_⟩
            · intro label hlabel
              exact validISP_eq_true.mp ((Option.all_eq_true _ _).mp hisp label hlabel)
            · exact (Option.all_eq_true _ _).mp hstage
            · exact (Option.all_eq_true _ _).mp hthroughput
  · rw [if_pos hids] at h
    cases h

/-- What `Record` passes to its store. -/
theorem beforeCreate_eq_ok {input : RecordInput} {now : ℤ} {newID : Except Error Bytes}
    {result : TestResult} (h : beforeCreate input now newID = .ok result) :
    IsValid result ∧ result.recordedAt - maximumResultAge ≤ result.occurredAt ∧
      result.occurredAt ≤ result.recordedAt + maximumClockSkew := by
  unfold beforeCreate at h
  cases newID with
  | error e => cases h
  | ok identifier =>
      dsimp only at h
      split_ifs at h with hwindow
      cases hvalid : validate (newResult input identifier now) with
      | error e =>
          rw [hvalid] at h
          cases h
      | ok u =>
          rw [hvalid] at h
          obtain rfl := Except.ok.inj h
          push Not at hwindow
          exact ⟨isValid_of_validate hvalid, hwindow.1, hwindow.2⟩

end CloudHelp.PilotTelemetry
