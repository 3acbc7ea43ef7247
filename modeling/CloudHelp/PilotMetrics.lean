import CloudHelp.NodeObservations
import CloudHelp.Prometheus
import CloudHelp.Unicode

/-!
# The metrics page of a node

`collect` of `internal/pilotmetrics/handler.go`: what it writes for the health and the metrics a
node reports, with `escapeLabel` and `writeHelpType`. The page is read back by the grammar of the
format into one sample for each line that was meant as a sample (`parse_collect`): neither the
provider nor the revision can end a label, add one, or start a line.
-/

namespace CloudHelp.PilotMetrics

open VpnNode (Health Metrics Floats)

/-- What the handler asks of `vpnnode.Node`, with the answers of one scrape. -/
structure Node (F : Type) where
  id : Bytes
  provider : Bytes
  health : Except Error Health
  metrics : Except Error (Metrics F)

/-! ## Labels -/

/-- The function `escapeLabel` gives to `strings.Map`, on one piece of the string; a byte outside
any encoding reaches it as U+FFFD. -/
def sanitizePiece (p : Utf8.Piece) : Bytes :=
  if p.isControl ∧ p ≠ .rune [10] then [32]
  else match p with
    | .rune code => code
    | .bad _ => Utf8.replacement

/-- A label value as a reader of the page is to see it. -/
def sanitize (value : Bytes) : Bytes := (Utf8.pieces value).flatMap sanitizePiece

/-- `strings.ReplaceAll` of a single byte. -/
def replaceAll (old : UInt8) (new s : Bytes) : Bytes :=
  s.flatMap fun c => if c = old then new else [c]

def escapeLabel (value : Bytes) : Bytes :=
  replaceAll 34 [92, 34] (replaceAll 10 [92, 110] (replaceAll 92 [92, 92] (sanitize value)))

/-- The backslashes come first, so the three replacements do not see each other's output. -/
theorem escapeLabel_eq (value : Bytes) :
    escapeLabel value = Prometheus.escape (sanitize value) := by
  unfold escapeLabel
  induction sanitize value with
  | nil => rfl
  | cons c s ih =>
      simp only [replaceAll, Prometheus.escape, List.flatMap_cons, List.flatMap_append] at ih ⊢
      rw [ih]
      congr 1
      by_cases h92 : c = 92
      · subst h92
        decide
      · by_cases h34 : c = 34
        · subst h34
          decide
        · by_cases h10 : c = 10
          · subst h10
            decide
          · simp [Prometheus.escapeByte, h92, h34, h10]

/-! ## The page -/

inductive Write where
  /-- `writeHelpType` -/
  | helpType (name help metricType : Bytes)
  /-- a sample, its labels as the node reports them -/
  | metric (name : Bytes) (labels : List (Bytes × Bytes)) (value : Bytes)

def labelsText : List (Bytes × Bytes) → Bytes
  | [] => []
  | [label] => label.1 ++ 61 :: 34 :: (escapeLabel label.2 ++ [34])
  | label :: rest => label.1 ++ 61 :: 34 :: (escapeLabel label.2 ++ [34]) ++ 44 :: labelsText rest

def Write.text : Write → Bytes
  | .helpType name help metricType =>
      (str "# HELP " ++ name ++ 32 :: help) ++ 10 ::
        ((str "# TYPE " ++ name ++ 32 :: metricType) ++ [10])
  | .metric name labels value => name ++ 123 :: (labelsText labels ++ 125 :: 32 :: value) ++ [10]

def formatBool (b : Bool) : Bytes := if b then str "1" else str "0"

section Collect

variable {F : Type} (floats : Floats F) (node : Node F)

def validHealth : Option Health :=
  match node.health with
  | .error _ => none
  | .ok health => if (VpnNode.validateHealth health).isOk then some health else none

def validMetrics : Option (Metrics F) :=
  match node.metrics with
  | .error _ => none
  | .ok metrics => if (VpnNode.validateMetrics floats metrics).isOk then some metrics else none

def labels : List (Bytes × Bytes) := [(str "node_id", node.id), (str "provider", node.provider)]

def transportWrites (health : Health) : List Write :=
  health.transports.map fun transport =>
    .metric (str "vchs_transport_up") (labels node ++ [(str "transport", transport.transport)])
      (formatBool transport.up)

def nodeUpWrites : List Write :=
  [.helpType (str "vchs_node_up") (str "Whether the node process and transports are observable.")
      (str "gauge"),
    .helpType (str "vchs_transport_up") (str "Whether an individual VPN transport is healthy.")
      (str "gauge"),
    .metric (str "vchs_node_up") (labels node)
      (formatBool ((validHealth node).any fun health => health.state != .down))]

def scrapeWrites : List Write :=
  [.helpType (str "vchs_node_metrics_scrape_success")
      (str "Whether health and resource observations were valid.") (str "gauge"),
    .metric (str "vchs_node_metrics_scrape_success") (labels node)
      (formatBool ((validHealth node).isSome && (validMetrics floats node).isSome))]

def resourceWrites (metrics : Metrics F) : List Write :=
  [.helpType (str "vchs_node_cpu_percent") (str "Current node CPU utilization percentage.")
      (str "gauge"),
    .metric (str "vchs_node_cpu_percent") (labels node) (floats.format metrics.cpuPercent),
    .helpType (str "vchs_node_memory_total_bytes") (str "Total node memory in bytes.")
      (str "gauge"),
    .metric (str "vchs_node_memory_total_bytes") (labels node)
      (formatUint metrics.memoryTotalBytes),
    .helpType (str "vchs_node_memory_used_bytes") (str "Used node memory in bytes.") (str "gauge"),
    .metric (str "vchs_node_memory_used_bytes") (labels node) (formatUint metrics.memoryUsedBytes),
    .helpType (str "vchs_node_network_rx_bytes_total") (str "Node received network bytes.")
      (str "counter"),
    .metric (str "vchs_node_network_rx_bytes_total") (labels node)
      (formatUint metrics.networkRXBytes),
    .helpType (str "vchs_node_network_tx_bytes_total") (str "Node transmitted network bytes.")
      (str "counter"),
    .metric (str "vchs_node_network_tx_bytes_total") (labels node)
      (formatUint metrics.networkTXBytes)]

def connectionWrites (metrics : Metrics F) : List Write :=
  match metrics.activeConnectionCount with
  | none => []
  | some count =>
      [.helpType (str "vchs_node_active_connections")
          (str "Safely observable active VPN connection count.") (str "gauge"),
        .metric (str "vchs_node_active_connections") (labels node) (formatUint count)]

def revisionWrites (metrics : Metrics F) : List Write :=
  if metrics.configRevision = [] then []
  else
    [.helpType (str "vchs_node_config_revision_info")
        (str "Current sanitized node configuration revision.") (str "gauge"),
      .metric (str "vchs_node_config_revision_info")
        (labels node ++ [(str "revision", metrics.configRevision)]) (str "1")]

def metricsWrites (metrics : Metrics F) : List Write :=
  resourceWrites floats node metrics ++ connectionWrites node metrics ++ revisionWrites node metrics

def writes : List Write :=
  nodeUpWrites node ++ (validHealth node).elim [] (transportWrites node) ++
    scrapeWrites floats node ++ (validMetrics floats node).elim [] (metricsWrites floats node)

def collect : Bytes := (writes floats node).flatMap Write.text

end Collect

/-! ## Reading the page -/

/-- The sample a reader is to find where the handler writes one. -/
def Write.sample : Write → Option Prometheus.Sample
  | .helpType _ _ _ => none
  | .metric name labels value =>
      some ⟨name, labels.map fun label => (label.1, sanitize label.2), value, none⟩

/-- What the handler chooses itself is plain: names, help texts and numbers. Nothing is asked of the
label values. -/
def Write.Plain : Write → Prop
  | .helpType name help metricType => 10 ∉ name ∧ 10 ∉ help ∧ 10 ∉ metricType
  | .metric name labels value =>
      Prometheus.isName name = true ∧ labels ≠ [] ∧
        (∀ label ∈ labels, Prometheus.isName label.1 = true) ∧ value ≠ [] ∧
        ∀ c ∈ value, Prometheus.isBlank c = false ∧ c ≠ 10

theorem labelsText_eq (labels : List (Bytes × Bytes)) :
    labelsText labels =
      Prometheus.labelsText (labels.map fun label => (label.1, sanitize label.2)) := by
  induction labels with
  | nil => rfl
  | cons label rest ih =>
      cases rest with
      | nil => simp [labelsText, Prometheus.labelsText, Prometheus.labelText, escapeLabel_eq]
      | cons next rest =>
          rw [labelsText, ih]
          · simp [Prometheus.labelsText, Prometheus.labelText, escapeLabel_eq]
          · simp

/-- The two comment lines of `writeHelpType` are skipped. -/
theorem parse_helpType {name help metricType : Bytes}
    (h : (Write.helpType name help metricType).Plain) (text : Bytes) :
    Prometheus.parse ((Write.helpType name help metricType).text ++ text) =
      Prometheus.parse text := by
  obtain ⟨hname, hhelp, htype⟩ := h
  have htext : (Write.helpType name help metricType).text ++ text =
      (str "# HELP " ++ name ++ 32 :: help) ++
        10 :: ((str "# TYPE " ++ name ++ 32 :: metricType) ++ 10 :: text) := by
    simp [Write.text]
  have hfirst : 10 ∉ str "# HELP " := by decide
  have hsecond : 10 ∉ str "# TYPE " := by decide
  rw [htext, Prometheus.parse_cons (by simp [hfirst, hname, hhelp]), if_pos (by rfl),
    Prometheus.parse_cons (by simp [hsecond, hname, htype]), if_pos (by rfl)]

theorem parse_metric {name value : Bytes} {labels : List (Bytes × Bytes)}
    (h : (Write.metric name labels value).Plain) (text : Bytes) :
    Prometheus.parse ((Write.metric name labels value).text ++ text) =
      (Prometheus.parse text).map fun samples =>
        ⟨name, labels.map fun label => (label.1, sanitize label.2), value, none⟩ :: samples := by
  obtain ⟨hname, hne, hlabels, hvalue, hplain⟩ := h
  have hread : ∀ label ∈ labels.map fun label => (label.1, sanitize label.2),
      Prometheus.isName label.1 = true := by
    intro label hlabel
    obtain ⟨source, hsource, rfl⟩ := List.mem_map.mp hlabel
    exact hlabels source hsource
  have htext : (Write.metric name labels value).text ++ text =
      Prometheus.sampleText name (labels.map fun label => (label.1, sanitize label.2)) value ++
        10 :: text := by
    simp [Write.text, Prometheus.sampleText, labelsText_eq]
  rw [htext, Prometheus.parse_cons, Prometheus.not_isComment_sampleText hname, if_neg (by simp),
    Prometheus.readSample_sampleText hname (by simpa using hne) hread hvalue
      fun c hc => (hplain c hc).1]
  · rfl
  · apply Prometheus.newline_not_mem_sampleText hname hread
    intro hnewline
    exact (hplain 10 hnewline).2 rfl

/-- A page of plain writes holds the samples that were written, in their order. -/
theorem parse_writes {l : List Write} (h : ∀ w ∈ l, w.Plain) :
    Prometheus.parse (l.flatMap Write.text) = some (l.filterMap Write.sample) := by
  induction l with
  | nil => rfl
  | cons w l ih =>
      have hw := h w List.mem_cons_self
      have hrest := ih fun other hother => h other (List.mem_cons_of_mem _ hother)
      rw [List.flatMap_cons]
      cases w with
      | helpType name help metricType =>
          rw [parse_helpType hw, hrest]
          rfl
      | metric name labels value =>
          rw [parse_metric hw, hrest]
          rfl

/-! ## What the handler writes is plain -/

def IsNumber (value : Bytes) : Prop :=
  value ≠ [] ∧ ∀ c ∈ value, isDigit c = true ∨ c = 46 ∨ c = 45

theorem IsNumber.plain {value : Bytes} (h : IsNumber value) :
    value ≠ [] ∧ ∀ c ∈ value, Prometheus.isBlank c = false ∧ c ≠ 10 := by
  refine ⟨h.1, ?_⟩
  intro c hc
  by_contra hbad
  have hcases : c = 32 ∨ c = 9 ∨ c = 10 := by
    by_contra hother
    push Not at hother
    exact hbad ⟨by simp [Prometheus.isBlank, hother.1, hother.2.1], hother.2.2⟩
  have hnumber := h.2 c hc
  rcases hcases with rfl | rfl | rfl <;> revert hnumber <;> decide

theorem isNumber_formatUint (n : ℕ) : IsNumber (formatUint n) := by
  constructor
  · intro hnil
    have hdigits := map_ofNat_formatUint n
    rw [hnil] at hdigits
    exact absurd hdigits.symm Nat.toDigits_ne_nil
  · intro c hc
    exact .inl (isDigit_of_mem_formatUint hc)

theorem isNumber_formatBool (b : Bool) : IsNumber (formatBool b) := by
  cases b
  · exact ⟨by decide +kernel, by decide +kernel⟩
  · exact ⟨by decide +kernel, by decide +kernel⟩

theorem plain_helpType {name help metricType : Bytes} (h : 10 ∉ name ++ help ++ metricType) :
    (Write.helpType name help metricType).Plain := by
  simp only [List.mem_append, not_or] at h
  exact ⟨h.1.1, h.1.2, h.2⟩

theorem plain_metric {name value : Bytes} {labels : List (Bytes × Bytes)}
    (hname : Prometheus.isName name = true) (hne : labels ≠ [])
    (hlabels : ∀ label ∈ labels, Prometheus.isName label.1 = true) (hvalue : IsNumber value) :
    (Write.metric name labels value).Plain :=
  ⟨hname, hne, hlabels, hvalue.plain⟩

section Plain

variable {F : Type} {floats : Floats F} {node : Node F}

theorem isName_labels : ∀ label ∈ labels node, Prometheus.isName label.1 = true := by
  intro label hlabel
  simp only [labels, List.mem_cons, List.not_mem_nil, or_false] at hlabel
  rcases hlabel with rfl | rfl
  · change Prometheus.isName (str "node_id") = true
    decide
  · change Prometheus.isName (str "provider") = true
    decide

theorem isName_labels_append {name value : Bytes} (h : Prometheus.isName name = true) :
    ∀ label ∈ labels node ++ [(name, value)], Prometheus.isName label.1 = true := by
  intro label hlabel
  rcases List.mem_append.mp hlabel with hbase | hextra
  · exact isName_labels label hbase
  · rw [List.mem_singleton.mp hextra]
    exact h

theorem plain_base {name value : Bytes} (hname : Prometheus.isName name = true)
    (hvalue : IsNumber value) : (Write.metric name (labels node) value).Plain :=
  plain_metric hname (by simp [labels]) isName_labels hvalue

theorem plain_nodeUpWrites : ∀ w ∈ nodeUpWrites node, w.Plain := by
  intro w hw
  simp only [nodeUpWrites, List.mem_cons, List.not_mem_nil, or_false] at hw
  rcases hw with rfl | rfl | rfl
  · exact plain_helpType (by decide)
  · exact plain_helpType (by decide)
  · exact plain_base (by decide) (isNumber_formatBool _)

theorem plain_transportWrites {health : Health} : ∀ w ∈ transportWrites node health, w.Plain := by
  intro w hw
  obtain ⟨transport, -, rfl⟩ := List.mem_map.mp hw
  exact plain_metric (by decide) (by simp [labels])
    (isName_labels_append (by decide)) (isNumber_formatBool _)

theorem plain_scrapeWrites : ∀ w ∈ scrapeWrites floats node, w.Plain := by
  intro w hw
  simp only [scrapeWrites, List.mem_cons, List.not_mem_nil, or_false] at hw
  rcases hw with rfl | rfl
  · exact plain_helpType (by decide)
  · exact plain_base (by decide) (isNumber_formatBool _)

theorem isNumber_format {metrics : Metrics F} (h : floats.percent metrics.cpuPercent = true) :
    IsNumber (floats.format metrics.cpuPercent) :=
  ⟨floats.format_ne_nil _ h, floats.format_plain _ h⟩

theorem plain_resourceWrites {metrics : Metrics F} (h : floats.percent metrics.cpuPercent = true) :
    ∀ w ∈ resourceWrites floats node metrics, w.Plain := by
  intro w hw
  simp only [resourceWrites, List.mem_cons, List.not_mem_nil, or_false] at hw
  rcases hw with rfl | rfl | rfl | rfl | rfl | rfl | rfl | rfl | rfl | rfl
  · exact plain_helpType (by decide)
  · exact plain_base (by decide) (isNumber_format h)
  · exact plain_helpType (by decide)
  · exact plain_base (by decide) (isNumber_formatUint _)
  · exact plain_helpType (by decide)
  · exact plain_base (by decide) (isNumber_formatUint _)
  · exact plain_helpType (by decide)
  · exact plain_base (by decide) (isNumber_formatUint _)
  · exact plain_helpType (by decide)
  · exact plain_base (by decide) (isNumber_formatUint _)

theorem plain_connectionWrites {metrics : Metrics F} :
    ∀ w ∈ connectionWrites node metrics, w.Plain := by
  intro w hw
  unfold connectionWrites at hw
  cases hcount : metrics.activeConnectionCount with
  | none =>
      rw [hcount] at hw
      cases hw
  | some count =>
      rw [hcount] at hw
      simp only [List.mem_cons, List.not_mem_nil, or_false] at hw
      rcases hw with rfl | rfl
      · exact plain_helpType (by decide)
      · exact plain_base (by decide) (isNumber_formatUint _)

theorem plain_revisionWrites {metrics : Metrics F} :
    ∀ w ∈ revisionWrites node metrics, w.Plain := by
  intro w hw
  unfold revisionWrites at hw
  split_ifs at hw
  · cases hw
  · simp only [List.mem_cons, List.not_mem_nil, or_false] at hw
    rcases hw with rfl | rfl
    · exact plain_helpType (by decide)
    · exact plain_metric (by decide) (by simp [labels])
        (isName_labels_append (by decide)) (isNumber_formatBool true)

theorem plain_metricsWrites {metrics : Metrics F} (h : floats.percent metrics.cpuPercent = true) :
    ∀ w ∈ metricsWrites floats node metrics, w.Plain := by
  intro w hw
  rcases List.mem_append.mp hw with hw | hrevision
  · rcases List.mem_append.mp hw with hresource | hconnection
    · exact plain_resourceWrites h w hresource
    · exact plain_connectionWrites w hconnection
  · exact plain_revisionWrites w hrevision

theorem percent_of_validMetrics {metrics : Metrics F}
    (h : validMetrics floats node = some metrics) :
    floats.percent metrics.cpuPercent = true := by
  unfold validMetrics at h
  cases hanswer : node.metrics with
  | error e =>
      rw [hanswer] at h
      cases h
  | ok answer =>
      rw [hanswer] at h
      dsimp only at h
      split_ifs at h with hok
      obtain rfl := Option.some.inj h
      obtain ⟨u, hvalid⟩ := exists_of_isOk hok
      exact VpnNode.percent_of_validateMetrics hvalid

theorem plain_writes : ∀ w ∈ writes floats node, w.Plain := by
  intro w hw
  rcases List.mem_append.mp hw with hw | hmetrics
  · rcases List.mem_append.mp hw with hw | hscrape
    · rcases List.mem_append.mp hw with hnode | htransport
      · exact plain_nodeUpWrites w hnode
      · cases hhealth : validHealth node with
        | none =>
            rw [hhealth] at htransport
            cases htransport
        | some health =>
            rw [hhealth] at htransport
            exact plain_transportWrites w htransport
    · exact plain_scrapeWrites w hscrape
  · cases hvalid : validMetrics floats node with
    | none =>
        rw [hvalid] at hmetrics
        cases hmetrics
    | some metrics =>
        rw [hvalid] at hmetrics
        exact plain_metricsWrites (percent_of_validMetrics hvalid) w hmetrics

end Plain

/-- Whatever the node reports, the page is read as one sample for each sample that was written, with
its label names, and with each label value as the node gave it after `sanitize`. -/
theorem parse_collect {F : Type} (floats : Floats F) (node : Node F) :
    Prometheus.parse (collect floats node) = some ((writes floats node).filterMap Write.sample) :=
  parse_writes plain_writes

namespace Sample

def tenths : Floats ℕ where
  percent n := decide (n ≤ 1000)
  format n := formatUint (n / 10) ++ 46 :: formatUint (n % 10)
  format_ne_nil n _ := by simp
  format_plain n _ c hc := by
    rcases List.mem_append.mp hc with hwhole | hrest
    · exact .inl (isDigit_of_mem_formatUint hwhole)
    · rcases List.mem_cons.mp hrest with hpoint | htenth
      · exact .inr (.inl hpoint)
      · exact .inl (isDigit_of_mem_formatUint htenth)

/-- Its provider and its revision try to end their labels and to start lines of their own. -/
def node : Node ℕ where
  id := str "edge-1"
  provider := str "a\"b\\c\nvchs_node_up"
  health := .ok ⟨.degraded,
    [⟨VpnNode.transportAmneziaWG, true⟩, ⟨VpnNode.transportXRayReality, false⟩], 1⟩
  metrics := .ok ⟨425, 8, 3, 0, 0, none, str "r\\\"\n# TYPE", 1⟩

end Sample

/-- Ten samples come back, each with the provider as the node gave it. -/
theorem parse_collect_quoted :
    ∃ samples, Prometheus.parse (collect Sample.tenths Sample.node) = some samples ∧
      samples.length = 10 ∧
      (∀ sample ∈ samples, (str "provider", Sample.node.provider) ∈ sample.labels) ∧
      ∃ sample ∈ samples, (str "revision", str "r\\\"\n# TYPE") ∈ sample.labels :=
  ⟨_, parse_collect Sample.tenths Sample.node, by decide, by decide,
    by decide⟩

end CloudHelp.PilotMetrics
