import CloudHelp.PilotStore
import CloudHelp.PilotTelemetry
import CloudHelp.SortSlice

/-!
# The store of pilot test results

The tables of the migrations that the reports read, with the constraints a server keeps on them,
and `Create` of `internal/pilottelemetry/postgres/store.go`. A `Tables` that breaks a constraint
cannot be built. Times are instants in a session whose zone is UTC, so that a day has 24 hours;
`[[:cntrl:]]` stands for the Unicode control characters.
-/

namespace CloudHelp.PilotTelemetry

/-! ## Constraints of one row -/

/-- What a `text` column can hold: valid UTF-8 without a zero byte. -/
def storable (s : Bytes) : Bool := Utf8.validString s && !s.contains 0

@[mk_iff] structure ISPCheck (isp : Bytes) : Prop where
  charLength : 1 ≤ Utf8.runeCount isp ∧ Utf8.runeCount isp ≤ 100
  octetLength : isp.length ≤ 400
  btrim : isp = trim (fun c => c == 32) isp
  noControl : ∀ p ∈ Utf8.pieces isp, p.isControl = false

instance (isp : Bytes) : Decidable (ISPCheck isp) := decidable_of_iff' _ (iSPCheck_iff isp)

@[mk_iff] structure SatisfiesChecks (result : TestResult) : Prop where
  clientPlatform : result.clientPlatform ∈
    [str "android", str "ios", str "linux", str "macos", str "windows"]
  isp : ∀ isp ∈ result.isp, ISPCheck isp
  transport : result.transport ∈ [str "amneziawg", str "xray_reality"]
  failureStage : ∀ stage ∈ result.failureStage, stage ∈
    [str "server_health", str "public_ip", str "transport", str "port", str "server_outbound",
      str "tunnel", str "dns", str "https", str "ipv4_leak", str "ipv6_leak", str "upload",
      str "download", str "reconnect"]
  connectionTimeBucket : result.connectionTimeBucket ∈
    [str "lt_3s", str "3_10s", str "10_30s", str "gt_30s", str "unknown"]
  throughputBucket : ∀ bucket ∈ result.throughputBucket, bucket ∈
    [str "lt_1_mbps", str "1_10_mbps", str "10_50_mbps", str "gte_50_mbps"]
  success : result.success = result.failureStage.isNone
  window : result.recordedAt - 30 * 24 * Duration.hour ≤ result.occurredAt ∧
    result.occurredAt ≤ result.recordedAt + 5 * Duration.minute

instance (result : TestResult) : Decidable (SatisfiesChecks result) :=
  decidable_of_iff' _ (satisfiesChecks_iff result)

def textColumns (result : TestResult) : List Bytes :=
  [result.clientPlatform, result.transport, result.connectionTimeBucket] ++ result.isp.toList ++
    result.failureStage.toList ++ result.throughputBucket.toList

/-! ## The tables -/

structure Device where
  id : Bytes
  accountID : Bytes
  deriving DecidableEq, Repr

structure Tables where
  results : List TestResult
  accesses : List PilotAccess.Access
  devices : List Device
  resultKey : (results.map TestResult.id).Nodup
  accessKey : (accesses.map PilotAccess.Access.id).Nodup
  deviceKey : (devices.map Device.id).Nodup
  resultChecks : ∀ result ∈ results, SatisfiesChecks result
  accessChecks : ∀ access ∈ accesses, PilotAccess.rowViolation access = none
  resultDevice : ∀ result ∈ results, result.deviceID ∈ devices.map Device.id
  accessDevice : ∀ access ∈ accesses, access.deviceID ∈ devices.map Device.id

/-! ## `Create` -/

def telemetryRetention : ℤ := 30 * 24 * Duration.hour

/-- The rows the `DELETE` of `Create` takes: the oldest before the cutoff, at most 1000. -/
def expired (S : SortSlice) (tables : Tables) (cutoff : ℤ) : List TestResult :=
  (S.run (fun a b => decide (a.occurredAt < b.occurredAt))
    (tables.results.filter fun result => result.occurredAt < cutoff)).take 1000

def enforceRetention (S : SortSlice) (tables : Tables) (cutoff : ℤ) : Tables :=
  { tables with
    results := tables.results.filter fun result =>
      decide (result.id ∉ (expired S tables cutoff).map TestResult.id)
    resultKey := tables.resultKey.sublist (List.filter_sublist.map _)
    resultChecks := fun result h => tables.resultChecks result (List.mem_of_mem_filter h)
    resultDevice := fun result h => tables.resultDevice result (List.mem_of_mem_filter h) }

def insertResult (tables : Tables) (result : TestResult) : Except String Tables :=
  if ¬(textColumns result).all storable then .error "22021"
  else if hchecks : ¬SatisfiesChecks result then .error "23514"
  else if hkey : result.id ∈ tables.results.map TestResult.id then .error "23505"
  else if hdevice : result.deviceID ∉ tables.devices.map Device.id then .error "23503"
  else .ok
    { tables with
      results := result :: tables.results
      resultKey := List.nodup_cons.mpr ⟨hkey, tables.resultKey⟩
      resultChecks := List.forall_mem_cons.mpr ⟨not_not.mp hchecks, tables.resultChecks⟩
      resultDevice := List.forall_mem_cons.mpr ⟨not_not.mp hdevice, tables.resultDevice⟩ }

def errConflict : Error := .new "pilot telemetry: conflict"

def classifyCreate (code : String) : Error :=
  if code = "23505" then .wrap "%w: duplicate result" [] errConflict
  else if code = "23503" ∨ code = "23514" then
    .wrap "%w: referenced device or value is invalid" [] errInvalid
  else .wrap "pilot telemetry postgres: create: %w" [] (.library code)

/-- `Create`. The `DELETE` is a statement of its own: it stays when the `INSERT` fails. -/
def create (S : SortSlice) (tables : Tables) (result : TestResult) :
    Tables × Except Error TestResult :=
  let kept := enforceRetention S tables (result.recordedAt - telemetryRetention)
  match insertResult kept result with
  | .error code => (kept, .error (classifyCreate code))
  | .ok stored => (stored, .ok result)

def record (S : SortSlice) (tables : Tables) (input : RecordInput) (now : ℤ)
    (newID : Except Error Bytes) : Tables × Except Error TestResult :=
  match beforeCreate input now newID with
  | .error e => (tables, .error e)
  | .ok result =>
      match create S tables result with
      | (after, .error e) => (after, .error e)
      | (after, .ok stored) =>
          match validate stored with
          | .error e =>
              (after, .error (.wrap "pilot telemetry: store returned invalid result: %w" [] e))
          | .ok () => (after, .ok stored)

/-- An `INSERT` of a storable row fails only on its key or on its device. -/
theorem insertResult_code {tables : Tables} {result : TestResult} {code : String}
    (htext : ∀ text ∈ textColumns result, storable text = true) (hchecks : SatisfiesChecks result)
    (h : insertResult tables result = .error code) : code = "23505" ∨ code = "23503" := by
  unfold insertResult at h
  rw [if_neg (not_not_intro (List.all_eq_true.mpr htext)), dif_neg (not_not_intro hchecks)] at h
  split_ifs at h with hkey hdevice
  · left
    cases h
    rfl
  · right
    cases h
    rfl

theorem mem_of_insertResult {tables after : Tables} {result : TestResult}
    (h : insertResult tables result = .ok after) : result ∈ after.results := by
  unfold insertResult at h
  split_ifs at h with htext hchecks hkey hdevice
  obtain rfl := Except.ok.inj h
  exact List.mem_cons_self

/-- `Record` answers with the row it built, and the row is in the table. -/
theorem record_eq_ok {S : SortSlice} {tables after : Tables} {input : RecordInput} {now : ℤ}
    {newID : Except Error Bytes} {result : TestResult}
    (h : record S tables input now newID = (after, .ok result)) :
    beforeCreate input now newID = .ok result ∧ result ∈ after.results := by
  unfold record at h
  cases hbefore : beforeCreate input now newID with
  | error e =>
      rw [hbefore] at h
      cases h
  | ok built =>
      rw [hbefore] at h
      dsimp only [create] at h
      cases hinsert : insertResult
          (enforceRetention S tables (built.recordedAt - telemetryRetention)) built with
      | error code =>
          rw [hinsert] at h
          cases h
      | ok stored =>
          rw [hinsert] at h
          cases hvalid : validate built with
          | error e =>
              simp only [hvalid] at h
              cases h
          | ok u =>
              simp only [hvalid] at h
              cases h
              exact ⟨rfl, mem_of_insertResult hinsert⟩

end CloudHelp.PilotTelemetry
