import CloudHelp.GroupBy
import CloudHelp.NodeObservations
import CloudHelp.TelemetryStore

/-!
# The pilot report

`Aggregate` of `internal/pilottelemetry/postgres/store.go` and `Report` of
`internal/pilottelemetry/telemetry.go`. The five queries read one snapshot and one
`current_timestamp`. The order of text in the database is that of an unknown collation; the sort
of the server and that of Go are any two sorts. Counts are natural numbers, and a success rate is
the exact quotient.
-/

namespace CloudHelp.PilotTelemetry

structure TransportSummary where
  transport : Bytes
  tests : ℕ
  successes : ℕ
  successRate : ℚ
  deriving DecidableEq, Repr

structure ISPFailure where
  isp : Bytes
  failures : ℕ
  deriving DecidableEq, Repr

structure FailureSummary where
  stage : Bytes
  failures : ℕ
  deriving DecidableEq, Repr

structure Aggregate where
  activeUsers : ℕ
  activeDevices : ℕ
  firstTestAt : Option ℤ
  lastTestAt : Option ℤ
  transports : List TransportSummary
  failuresByStage : List FailureSummary
  failuresByISP : List ISPFailure
  deriving DecidableEq, Repr

/-! ## The queries -/

/-- `occurred_at >= current_timestamp - interval '30 days'` -/
def window (tables : Tables) (current : ℤ) : List TestResult :=
  tables.results.filter fun result => current - 30 * 24 * Duration.hour ≤ result.occurredAt

/-- `WHERE success = false` in the window. -/
def failing (tables : Tables) (current : ℤ) : List TestResult :=
  (window tables current).filter fun result => !result.success

section Queries

variable (T : SortSlice) (collate : Bytes → Bytes → Bool) (tables : Tables) (current : ℤ)

/-- One row of the first query; the rate is set later. -/
def transportRow (group : Bytes × List TestResult) : TransportSummary :=
  { transport := group.1
    tests := group.2.length
    successes := group.2.countP TestResult.success
    successRate := 0 }

def transportRows : List TransportSummary :=
  T.run (fun a b => collate a.transport b.transport)
    ((groupBy TestResult.transport (window tables current)).map transportRow)

/-- `ORDER BY` puts a null last. -/
def collateNullable : Option Bytes → Option Bytes → Bool
  | some a, some b => collate a b
  | some _, none => true
  | none, _ => false

/-- The rows of the second query, with the stage as the column gives it. -/
def failureRows : List (Option Bytes × ℕ) :=
  T.run (fun a b => collateNullable collate a.1 b.1)
    ((groupBy TestResult.failureStage (failing tables current)).map fun group =>
      (group.1, group.2.length))

/-- `Scan` into a string refuses a null. -/
def scanStages : List (Option Bytes × ℕ) → Except Error (List FailureSummary)
  | [] => .ok []
  | (none, _) :: _ =>
      .error (.wrap "pilot telemetry postgres: scan failure aggregate: %w" []
        (.library "converting NULL to string is unsupported"))
  | (some stage, failures) :: rest =>
      match scanStages rest with
      | .error e => .error e
      | .ok summaries => .ok (⟨stage, failures⟩ :: summaries)

def failingLabels : List Bytes := (failing tables current).filterMap TestResult.isp

/-- The groups of the third query before `HAVING`. -/
def labelGroups : List ISPFailure :=
  (groupBy id (failingLabels tables current)).map fun group => ⟨group.1, group.2.length⟩

def ispRows : List ISPFailure :=
  (T.run (fun a b => if a.failures = b.failures then collate a.isp b.isp
      else decide (b.failures < a.failures))
    ((labelGroups tables current).filter fun failure => 2 ≤ failure.failures)).take 100

/-- `vpn_accesses JOIN devices` where the access is active and not expired: device and account. -/
def activeRows (time : ℤ) : List (Bytes × Bytes) :=
  (tables.accesses.filter fun access =>
      decide (access.status = .active) &&
        access.expiresAt.any fun expiresAt => time < expiresAt).flatMap
    fun access => (tables.devices.filter fun device => device.id = access.deviceID).map
      fun device => (access.deviceID, device.accountID)

def aggregate (time : ℤ) : Except Error Aggregate :=
  match scanStages (failureRows T collate tables current) with
  | .error e => .error e
  | .ok stages => .ok
      { activeUsers := ((activeRows tables time).map Prod.snd).dedup.length
        activeDevices := ((activeRows tables time).map Prod.fst).dedup.length
        firstTestAt := ((window tables current).map TestResult.occurredAt).min?
        lastTestAt := ((window tables current).map TestResult.occurredAt).max?
        transports := transportRows T collate tables current
        failuresByStage := stages
        failuresByISP := ispRows T collate tables current }

end Queries

/-! ## The report -/

inductive MetricsStatus where
  | notConfigured
  | available
  | unavailable
  deriving DecidableEq, Repr

structure Report (F : Type) where
  generatedAt : ℤ
  totalTests : ℕ
  firstTestAt : Option ℤ
  lastTestAt : Option ℤ
  activeUsers : ℕ
  activeDevices : ℕ
  transports : List TransportSummary
  failuresByStage : List FailureSummary
  failuresByISP : List ISPFailure
  serverMetricsStatus : MetricsStatus
  serverMetrics : Option (VpnNode.Metrics F)

def withRate (summary : TransportSummary) : TransportSummary :=
  if 0 < summary.tests then
    { summary with successRate := (summary.successes : ℚ) / summary.tests }
  else summary

def summarize : List TransportSummary → Except Error (ℕ × List TransportSummary)
  | [] => .ok (0, [])
  | summary :: rest =>
      if (VpnNode.validateTransport summary.transport).isOk = false ∨
          summary.successes > summary.tests then
        .error (.new "pilot telemetry: store returned invalid aggregate")
      else match summarize rest with
        | .error e => .error e
        | .ok (total, summaries) => .ok (summary.tests + total, withRate summary :: summaries)

def validPeriod (first last : Option ℤ) : Bool :=
  match first, last with
  | none, none => true
  | some first, some last => first ≤ last
  | _, _ => false

/-- What `Report` makes of its metrics source; `none` where there is no source. -/
def observe {F : Type} (floats : VpnNode.Floats F) :
    Option (Except Error (VpnNode.Metrics F)) → MetricsStatus × Option (VpnNode.Metrics F)
  | none => (.notConfigured, none)
  | some (.error _) => (.unavailable, none)
  | some (.ok metrics) =>
      if (VpnNode.validateMetrics floats metrics).isOk then (.available, some metrics)
      else (.unavailable, none)

def report {F : Type} (S : SortSlice) (floats : VpnNode.Floats F) (now : ℤ)
    (answer : Except Error Aggregate) (metrics : Option (Except Error (VpnNode.Metrics F))) :
    Except Error (Report F) :=
  match answer with
  | .error e => .error e
  | .ok aggregate =>
      let first := aggregate.firstTestAt.map Time.truncateSecond
      let last := aggregate.lastTestAt.map Time.truncateSecond
      if validPeriod first last = false then
        .error (.new "pilot telemetry: store returned invalid test period")
      else match summarize aggregate.transports with
        | .error e => .error e
        | .ok (total, summaries) =>
            if aggregate.failuresByStage.any fun failure =>
                !validFailureStage failure.stage || failure.failures == 0 then
              .error (.new "pilot telemetry: store returned invalid failure aggregate")
            else .ok
              { generatedAt := Time.truncateSecond now
                totalTests := total
                firstTestAt := first
                lastTestAt := last
                activeUsers := aggregate.activeUsers
                activeDevices := aggregate.activeDevices
                transports := S.run (fun a b => decide (a.transport < b.transport)) summaries
                failuresByStage := aggregate.failuresByStage
                failuresByISP := aggregate.failuresByISP
                serverMetricsStatus := (observe floats metrics).1
                serverMetrics := (observe floats metrics).2 }

/-- `Report` over the tables: the store is asked with the time in whole seconds. -/
def reportTables {F : Type} (S T : SortSlice) (collate : Bytes → Bytes → Bool)
    (floats : VpnNode.Floats F) (tables : Tables) (current now : ℤ)
    (metrics : Option (Except Error (VpnNode.Metrics F))) : Except Error (Report F) :=
  report S floats now (aggregate T collate tables current (Time.truncateSecond now)) metrics

end CloudHelp.PilotTelemetry
