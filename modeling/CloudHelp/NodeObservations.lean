import CloudHelp.PilotAccess

/-!
# Observations of a node

The health and the resource metrics of `internal/vpnnode` with their validators. A `float64` is a
value of an arbitrary type with what the code does to it: `Floats` holds the comparison of
`ValidateMetrics` and the text of `strconv.FormatFloat`.
-/

namespace CloudHelp.VpnNode

/-! ## Health -/

/-- `State`; Go's type is a string. -/
inductive State where
  | ready
  | degraded
  | down
  | other (text : Bytes)
  deriving DecidableEq, Repr

structure TransportHealth where
  transport : Bytes
  up : Bool
  deriving DecidableEq, Repr

structure Health where
  state : State
  transports : List TransportHealth
  observedAt : ℤ
  deriving DecidableEq, Repr

def checkTransports : List Bytes → List TransportHealth → Except Error Unit
  | _, [] => .ok ()
  | seen, health :: rest =>
      match validateTransport health.transport with
      | .error e => .error e
      | .ok () =>
          if health.transport ∈ seen then
            .error (.errorf "vpnnode: duplicate transport health %q" [.text health.transport])
          else checkTransports (health.transport :: seen) rest

def validateHealth (value : Health) : Except Error Unit :=
  let upCount := value.transports.countP TransportHealth.up
  match value.state with
  | .other text => .error (.errorf "vpnnode: invalid node state %q" [.text text])
  | state =>
      if Time.isZero value.observedAt then
        .error (.new "vpnnode: health observation time is required")
      else if value.transports.length = 0 ∨ value.transports.length > 8 then
        .error (.new "vpnnode: transport health must contain between 1 and 8 entries")
      else match checkTransports [] value.transports with
        | .error e => .error e
        | .ok () =>
            if state = .ready ∧ upCount ≠ value.transports.length then
              .error (.new "vpnnode: READY requires every transport to be up")
            else if state = .degraded ∧ (upCount = 0 ∨ upCount = value.transports.length) then
              .error (.new "vpnnode: DEGRADED requires both healthy and unhealthy transports")
            else if state = .down ∧ upCount ≠ 0 then
              .error (.new "vpnnode: DOWN requires every transport to be down")
            else .ok ()

/-! ## Metrics -/

/-- What the code does with a `float64`: `percent` is `!IsNaN && !IsInf && 0 <= x && x <= 100`, and
`format` is `strconv.FormatFloat(x, 'f', -1, 64)`. The text of a percentage is not empty and holds
only digits, a point and a sign. -/
structure Floats (F : Type) where
  percent : F → Bool
  format : F → Bytes
  format_ne_nil : ∀ x, percent x = true → format x ≠ []
  format_plain : ∀ x, percent x = true → ∀ c ∈ format x, isDigit c = true ∨ c = 46 ∨ c = 45

/-- Byte counts are `uint64` values. -/
structure Metrics (F : Type) where
  cpuPercent : F
  memoryTotalBytes : ℕ
  memoryUsedBytes : ℕ
  networkRXBytes : ℕ
  networkTXBytes : ℕ
  activeConnectionCount : Option ℕ
  configRevision : Bytes
  observedAt : ℤ
  deriving DecidableEq, Repr

def validateMetrics {F : Type} (floats : Floats F) (value : Metrics F) : Except Error Unit :=
  if Time.isZero value.observedAt then
    .error (.new "vpnnode: metrics observation time is required")
  else if ¬floats.percent value.cpuPercent then
    .error (.new "vpnnode: CPU percent must be between 0 and 100")
  else if value.memoryTotalBytes = 0 ∨ value.memoryUsedBytes > value.memoryTotalBytes then
    .error (.new "vpnnode: memory values are invalid")
  else if value.configRevision.length > 128 then
    .error (.new "vpnnode: config revision is too long")
  else .ok ()

theorem percent_of_validateMetrics {F : Type} {floats : Floats F} {value : Metrics F}
    (h : validateMetrics floats value = .ok ()) : floats.percent value.cpuPercent = true := by
  unfold validateMetrics at h
  split_ifs at h with hzero hpercent
  exact hpercent

end CloudHelp.VpnNode
