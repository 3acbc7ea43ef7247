import CloudHelp.PilotReport

/-!
# The report reconciles

For any content of the tables the report is produced, and its parts agree: they are counted by
different queries over the same rows. The window is divided into groups by transport, its failures
are divided again by stage, and the failures with a label are some of them. What the second query
needs is the constraint that a row has a stage exactly if it is a failure.
-/

namespace CloudHelp.PilotTelemetry

variable {T S : SortSlice} {collate : Bytes → Bytes → Bool} {tables : Tables} {current : ℤ}

/-! ## The rows of the window -/

theorem checks_of_mem_window {result : TestResult} (h : result ∈ window tables current) :
    SatisfiesChecks result :=
  tables.resultChecks result (List.mem_of_mem_filter h)

theorem failureStage_of_mem_failing {result : TestResult} (h : result ∈ failing tables current) :
    ∃ stage, result.failureStage = some stage ∧ validFailureStage stage = true := by
  rw [failing, List.mem_filter] at h
  have hchecks := checks_of_mem_window h.1
  cases hstage : result.failureStage with
  | none =>
      have hsuccess := hchecks.success
      rw [hstage] at hsuccess
      simp [hsuccess] at h
  | some stage =>
      exact ⟨stage, rfl, decide_eq_true (hchecks.failureStage stage hstage)⟩

theorem length_failing (tables : Tables) (current : ℤ) :
    (failing tables current).length =
      (window tables current).countP fun result => !result.success := by
  rw [failing, List.countP_eq_length_filter]

/-! ## Transports -/

theorem transportRows_perm :
    (transportRows T collate tables current).Perm
      ((groupBy TestResult.transport (window tables current)).map transportRow) :=
  T.perm _ _

/-- A group is of a transport the code accepts, with no more successes than tests. -/
theorem valid_of_mem_transportRows {summary : TransportSummary}
    (h : summary ∈ transportRows T collate tables current) :
    (VpnNode.validateTransport summary.transport).isOk = true ∧
      summary.successes ≤ summary.tests := by
  rw [transportRows, SortSlice.mem_run] at h
  obtain ⟨group, hgroup, rfl⟩ := List.mem_map.mp h
  obtain ⟨row, -, hrow, hkey⟩ := exists_row_of_mem_groupBy hgroup
  have htransport := (checks_of_mem_window hrow).transport
  rw [hkey] at htransport
  constructor
  · have hvalue : group.1 = VpnNode.transportAmneziaWG ∨
        group.1 = VpnNode.transportXRayReality := by
      simpa [VpnNode.transportAmneziaWG, VpnNode.transportXRayReality] using htransport
    have hok : VpnNode.validateTransport group.1 = .ok () := if_pos hvalue
    rw [transportRow, hok]
    rfl
  · exact List.countP_le_length

theorem summarize_eq_ok {l : List TransportSummary}
    (h : ∀ summary ∈ l, (VpnNode.validateTransport summary.transport).isOk = true ∧
      summary.successes ≤ summary.tests) :
    summarize l = .ok ((l.map TransportSummary.tests).sum, l.map withRate) := by
  induction l with
  | nil => rfl
  | cons summary rest ih =>
      obtain ⟨htransport, hle⟩ := h summary List.mem_cons_self
      have hrest := ih fun other hother => h other (List.mem_cons_of_mem _ hother)
      have hvalid : ¬((VpnNode.validateTransport summary.transport).isOk = false ∨
          summary.successes > summary.tests) := by
        rw [htransport]
        simp [hle]
      simp [summarize, if_neg hvalid, hrest]

@[simp] theorem withRate_transport (summary : TransportSummary) :
    (withRate summary).transport = summary.transport := by
  unfold withRate
  split_ifs <;> rfl

@[simp] theorem withRate_tests (summary : TransportSummary) :
    (withRate summary).tests = summary.tests := by
  unfold withRate
  split_ifs <;> rfl

@[simp] theorem withRate_successes (summary : TransportSummary) :
    (withRate summary).successes = summary.successes := by
  unfold withRate
  split_ifs <;> rfl

theorem sum_tests (T : SortSlice) (collate : Bytes → Bytes → Bool) (tables : Tables) (current : ℤ) :
    ((transportRows T collate tables current).map TransportSummary.tests).sum =
    (window tables current).length := by
  rw [(transportRows_perm.map _).sum_eq, List.map_map]
  exact sum_length_groupBy _ _

/-- The failures by transport are the failing rows. -/
theorem sum_failures (T : SortSlice) (collate : Bytes → Bytes → Bool) (tables : Tables)
    (current : ℤ) :
    ((transportRows T collate tables current).map fun summary =>
      summary.tests - summary.successes).sum = (failing tables current).length := by
  rw [(transportRows_perm.map _).sum_eq, List.map_map, length_failing,
    ← sum_countP_groupBy _ TestResult.transport]
  congr 1
  apply List.map_congr_left
  intro group _
  have hsplit := List.length_eq_countP_add_countP TestResult.success (l := group.2)
  simp only [Function.comp_apply, transportRow]
  have hnot : group.2.countP (fun result => !result.success) =
      group.2.countP fun result => decide ¬result.success = true := by
    congr 1
    funext result
    cases result.success <;> rfl
  omega

theorem nodup_transports (T : SortSlice) (collate : Bytes → Bytes → Bool) (tables : Tables)
    (current : ℤ) :
    ((transportRows T collate tables current).map TransportSummary.transport).Nodup := by
  rw [(transportRows_perm.map _).nodup_iff, List.map_map]
  exact nodup_fst_groupBy _ _

/-- `Report` lists the summaries in strict order of the transports. -/
theorem sorted_summaries {l : List TransportSummary}
    (h : (l.map TransportSummary.transport).Nodup) :
    (S.run (fun a b => decide (a.transport < b.transport)) l).Pairwise
      fun a b => a.transport < b.transport := by
  have hless : (fun a b : TransportSummary => decide (a.transport < b.transport)) =
      lessBy (fun _ => 0) TransportSummary.transport := by
    funext a b
    simp [lessBy]
  have hstrict := S.run_strict (strictWeak_lessBy (fun _ => 0) TransportSummary.transport)
    (separates_lessBy fun a ha b hb hab => List.inj_on_of_nodup_map h ha hb hab) h.of_map
  rw [hless]
  refine hstrict.imp ?_
  intro a b hab
  simpa [lessBy] using hab

/-! ## Stages -/

theorem scanStages_eq_ok {l : List (Option Bytes × ℕ)} (h : ∀ row ∈ l, row.1.isSome = true) :
    ∃ summaries, scanStages l = .ok summaries ∧
      summaries.map (fun summary => (some summary.stage, summary.failures)) = l := by
  induction l with
  | nil => exact ⟨[], rfl, rfl⟩
  | cons row rest ih =>
      obtain ⟨stage, failures⟩ := row
      obtain ⟨summaries, hscan, hmap⟩ := ih fun other hother =>
        h other (List.mem_cons_of_mem _ hother)
      cases stage with
      | none => cases h _ List.mem_cons_self
      | some stage =>
          refine ⟨⟨stage, failures⟩ :: summaries, ?_, ?_⟩
          · simp [scanStages, hscan]
          · simp [hmap]

theorem mem_failureRows {row : Option Bytes × ℕ} (h : row ∈ failureRows T collate tables current) :
    ∃ stage, row.1 = some stage ∧ validFailureStage stage = true ∧ 0 < row.2 := by
  rw [failureRows, SortSlice.mem_run] at h
  obtain ⟨group, hgroup, rfl⟩ := List.mem_map.mp h
  obtain ⟨result, -, hresult, hkey⟩ := exists_row_of_mem_groupBy hgroup
  obtain ⟨stage, hstage, hvalid⟩ := failureStage_of_mem_failing hresult
  exact ⟨stage, by rw [← hkey, hstage], hvalid, length_pos_of_mem_groupBy hgroup⟩

theorem sum_failureRows (T : SortSlice) (collate : Bytes → Bytes → Bool) (tables : Tables)
    (current : ℤ) :
    ((failureRows T collate tables current).map Prod.snd).sum =
    (failing tables current).length := by
  rw [failureRows, ((T.perm _ _).map _).sum_eq, List.map_map]
  exact sum_length_groupBy _ _

/-! ## Labels -/

theorem sum_le_of_sublist {l m : List ℕ} (h : l.Sublist m) : l.sum ≤ m.sum := by
  induction h with
  | slnil => exact le_rfl
  | cons a _ ih =>
      rw [List.sum_cons]
      omega
  | cons_cons a _ ih =>
      rw [List.sum_cons, List.sum_cons]
      omega

theorem mem_ispRows {failure : ISPFailure} (h : failure ∈ ispRows T collate tables current) :
    2 ≤ failure.failures ∧
      failure.failures = (failingLabels tables current).count failure.isp := by
  have hmem := List.mem_of_mem_take h
  rw [SortSlice.mem_run, List.mem_filter, decide_eq_true_eq] at hmem
  refine ⟨hmem.2, ?_⟩
  obtain ⟨group, hgroup, rfl⟩ := List.mem_map.mp hmem.1
  dsimp only
  rw [(mem_groupBy.mp hgroup).2, List.count, List.countP_eq_length_filter]
  congr 1
  apply List.filter_congr
  intro label _
  rw [Bool.eq_iff_iff, beq_iff_eq, decide_eq_true_eq]
  rfl

theorem sum_ispRows_le : ((ispRows T collate tables current).map ISPFailure.failures).sum ≤
    (failing tables current).length := by
  have hperm := (T.perm (fun a b : ISPFailure => if a.failures = b.failures then collate a.isp b.isp
      else decide (b.failures < a.failures))
    ((labelGroups tables current).filter fun failure => 2 ≤ failure.failures)).map
      ISPFailure.failures
  have hall : ((labelGroups tables current).map ISPFailure.failures).sum =
      (failingLabels tables current).length := by
    rw [labelGroups, List.map_map]
    exact sum_length_groupBy _ _
  calc ((ispRows T collate tables current).map ISPFailure.failures).sum
      ≤ ((T.run _ ((labelGroups tables current).filter fun failure => 2 ≤ failure.failures)).map
          ISPFailure.failures).sum := sum_le_of_sublist ((List.take_sublist _ _).map _)
    _ = (((labelGroups tables current).filter fun failure => 2 ≤ failure.failures).map
          ISPFailure.failures).sum := hperm.sum_eq
    _ ≤ ((labelGroups tables current).map ISPFailure.failures).sum :=
        sum_le_of_sublist (List.filter_sublist.map _)
    _ = (failingLabels tables current).length := hall
    _ ≤ (failing tables current).length := List.length_filterMap_le _ _

/-! ## The period and the active devices -/

/-- The least and the greatest of some times: both or neither, and in order. -/
theorem period_cases (l : List ℤ) :
    (l = [] ∧ l.min? = none ∧ l.max? = none) ∨
      ∃ first last, l.min? = some first ∧ l.max? = some last ∧ first ≤ last ∧ l ≠ [] := by
  cases l with
  | nil => exact .inl ⟨rfl, rfl, rfl⟩
  | cons a rest =>
      right
      obtain ⟨first, hfirst⟩ := Option.isSome_iff_exists.mp
        (List.isSome_min?_of_mem (List.mem_cons_self (a := a) (l := rest)))
      obtain ⟨last, hlast⟩ := Option.isSome_iff_exists.mp
        (List.isSome_max?_of_mem (List.mem_cons_self (a := a) (l := rest)))
      have hmin := (List.min?_eq_some_iff.mp hfirst).2 a List.mem_cons_self
      have hmax := (List.max?_eq_some_iff.mp hlast).2 a List.mem_cons_self
      exact ⟨first, last, hfirst, hlast, hmin.trans hmax, List.cons_ne_nil _ _⟩

/-- A device has one account, so there are no more accounts than devices. -/
theorem activeUsers_le (tables : Tables) (time : ℤ) :
    ((activeRows tables time).map Prod.snd).dedup.length ≤
      ((activeRows tables time).map Prod.fst).dedup.length := by
  apply length_dedup_map_le
  have hrow : ∀ row ∈ activeRows tables time,
      ∃ device ∈ tables.devices, device.id = row.1 ∧ device.accountID = row.2 := by
    intro row hrow
    obtain ⟨access, -, hjoin⟩ := List.mem_flatMap.mp hrow
    obtain ⟨device, hdevice, rfl⟩ := List.mem_map.mp hjoin
    rw [List.mem_filter, decide_eq_true_eq] at hdevice
    exact ⟨device, hdevice.1, hdevice.2, rfl⟩
  intro a ha b hb hkeys
  obtain ⟨device, hdevice, hid, haccount⟩ := hrow a ha
  obtain ⟨other, hother, hid', haccount'⟩ := hrow b hb
  have hsame : device = other :=
    List.inj_on_of_nodup_map tables.deviceKey hdevice hother (by rw [hid, hid', hkeys])
  rw [← haccount, ← haccount', hsame]

/-! ## The report -/

structure Reconciles {F : Type} (tables : Tables) (current : ℤ) (report : Report F) : Prop where
  total : report.totalTests = (window tables current).length
  successes : ∀ summary ∈ report.transports, summary.successes ≤ summary.tests
  failures : (report.transports.map fun summary => summary.tests - summary.successes).sum =
    (report.failuresByStage.map FailureSummary.failures).sum
  labels : ∀ failure ∈ report.failuresByISP, 2 ≤ failure.failures ∧
    failure.failures = (failingLabels tables current).count failure.isp
  labelled : (report.failuresByISP.map ISPFailure.failures).sum ≤
    (report.failuresByStage.map FailureSummary.failures).sum
  first : report.firstTestAt.isSome = true ↔ 0 < report.totalTests
  last : report.lastTestAt.isSome = true ↔ 0 < report.totalTests
  period : ∀ first ∈ report.firstTestAt, ∀ last ∈ report.lastTestAt, first ≤ last
  active : report.activeUsers ≤ report.activeDevices
  increasing : report.transports.Pairwise fun a b => a.transport < b.transport

/-- The two ends of the period after truncation, with what `Report` asks of them. -/
theorem period_truncated (tables : Tables) (current : ℤ) :
    ∃ first last : Option ℤ,
      (((window tables current).map TestResult.occurredAt).min?).map Time.truncateSecond = first ∧
      (((window tables current).map TestResult.occurredAt).max?).map Time.truncateSecond = last ∧
      validPeriod first last = true ∧ (first.isSome = true ↔ 0 < (window tables current).length) ∧
      (last.isSome = true ↔ 0 < (window tables current).length) ∧
      ∀ f ∈ first, ∀ l ∈ last, f ≤ l := by
  rcases period_cases ((window tables current).map TestResult.occurredAt) with
    ⟨hnil, hmin, hmax⟩ | ⟨first, last, hmin, hmax, hle, hne⟩
  · have hwindow : window tables current = [] := List.map_eq_nil_iff.mp hnil
    refine ⟨none, none, by rw [hmin]; rfl, by rw [hmax]; rfl, rfl, ?_, ?_, ?_⟩ <;> simp [hwindow]
  · have hpos : 0 < (window tables current).length :=
      List.length_pos_iff.mpr fun hnil => hne (by rw [hnil]; rfl)
    have htruncated := Time.truncateSecond_mono hle
    refine ⟨some (Time.truncateSecond first), some (Time.truncateSecond last), by rw [hmin]; rfl,
      by rw [hmax]; rfl, ?_, ?_, ?_, ?_⟩
    · simpa [validPeriod] using htruncated
    · simp [hpos]
    · simp [hpos]
    · intro f hf l hl
      cases hf
      cases hl
      exact htruncated

/-- The stages come through `Scan` and the checks of `Report`, and count the failing rows. -/
theorem exists_stages (T : SortSlice) (collate : Bytes → Bytes → Bool) (tables : Tables)
    (current : ℤ) :
    ∃ stages, scanStages (failureRows T collate tables current) = .ok stages ∧
      (stages.any fun failure => !validFailureStage failure.stage || failure.failures == 0) =
        false ∧
      (stages.map FailureSummary.failures).sum = (failing tables current).length := by
  have hsome : ∀ row ∈ failureRows T collate tables current, row.1.isSome = true := by
    intro row hrow
    obtain ⟨stage, hstage, -, -⟩ := mem_failureRows hrow
    rw [hstage]
    rfl
  obtain ⟨stages, hscan, hstages⟩ := scanStages_eq_ok hsome
  refine ⟨stages, hscan, ?_, ?_⟩
  · rw [List.any_eq_false]
    intro failure hfailure
    have hrow : (some failure.stage, failure.failures) ∈ failureRows T collate tables current := by
      rw [← hstages]
      exact List.mem_map_of_mem hfailure
    obtain ⟨stage, hstage, hok, hpos⟩ := mem_failureRows hrow
    cases hstage
    simp [hok, Nat.pos_iff_ne_zero.mp hpos]
  · rw [← sum_failureRows T collate, ← hstages, List.map_map]
    rfl

def reportOf {F : Type} (S T : SortSlice) (collate : Bytes → Bytes → Bool)
    (floats : VpnNode.Floats F) (tables : Tables) (current now : ℤ)
    (metrics : Option (Except Error (VpnNode.Metrics F))) (stages : List FailureSummary)
    (first last : Option ℤ) : Report F :=
  { generatedAt := Time.truncateSecond now
    totalTests := (window tables current).length
    firstTestAt := first
    lastTestAt := last
    activeUsers := ((activeRows tables (Time.truncateSecond now)).map Prod.snd).dedup.length
    activeDevices := ((activeRows tables (Time.truncateSecond now)).map Prod.fst).dedup.length
    transports := S.run (fun a b => decide (a.transport < b.transport))
      ((transportRows T collate tables current).map withRate)
    failuresByStage := stages
    failuresByISP := ispRows T collate tables current
    serverMetricsStatus := (observe floats metrics).1
    serverMetrics := (observe floats metrics).2 }

/-- The failures listed by transport in the report are the failing rows. -/
theorem sum_listed_failures (S T : SortSlice) (collate : Bytes → Bytes → Bool) (tables : Tables)
    (current : ℤ) :
    ((S.run (fun a b => decide (a.transport < b.transport))
      ((transportRows T collate tables current).map withRate)).map fun summary =>
        summary.tests - summary.successes).sum = (failing tables current).length := by
  rw [((S.perm _ _).map _).sum_eq, List.map_map, ← sum_failures T collate]
  congr 1
  apply List.map_congr_left
  intro row _
  simp

/-- Whatever the tables hold, the report is made and reconciles with them. -/
theorem report_reconciles {F : Type} (S T : SortSlice) (collate : Bytes → Bytes → Bool)
    (floats : VpnNode.Floats F) (tables : Tables) (current now : ℤ)
    (metrics : Option (Except Error (VpnNode.Metrics F))) :
    ∃ report, reportTables S T collate floats tables current now metrics = .ok report ∧
      Reconciles tables current report := by
  obtain ⟨stages, hscan, hvalid, hsum⟩ := exists_stages T collate tables current
  obtain ⟨first, last, hfirst, hlast, hperiod, hfirstSome, hlastSome, hordered⟩ :=
    period_truncated tables current
  have hsummaries : summarize (transportRows T collate tables current) = .ok
      ((window tables current).length, (transportRows T collate tables current).map withRate) := by
    rw [summarize_eq_ok fun summary h => valid_of_mem_transportRows h, sum_tests]
  refine ⟨reportOf S T collate floats tables current now metrics stages first last, ?_, ?_⟩
  · simp [reportTables, aggregate, report, reportOf, hscan, hfirst, hlast, hperiod, hsummaries,
      hvalid]
  · constructor
    · rfl
    · intro summary hsummary
      rw [reportOf, SortSlice.mem_run] at hsummary
      obtain ⟨row, hrow, rfl⟩ := List.mem_map.mp hsummary
      simpa using (valid_of_mem_transportRows hrow).2
    · exact (sum_listed_failures S T collate tables current).trans hsum.symm
    · intro failure hfailure
      exact mem_ispRows hfailure
    · exact sum_ispRows_le.trans hsum.ge
    · exact hfirstSome
    · exact hlastSome
    · exact hordered
    · exact activeUsers_le tables _
    · apply sorted_summaries
      rw [List.map_map]
      simpa [Function.comp_def] using nodup_transports T collate tables current

end CloudHelp.PilotTelemetry
