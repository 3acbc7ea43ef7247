import CloudHelp.Lists
import CloudHelp.ReportTotals
import CloudHelp.Runs
import CloudHelp.TelemetryChecks

/-!
# Concurrent writers of test results

Any number of calls of `Record` at once, each with the statements of `Create` as steps of their
own: the `DELETE` chooses its rows from the snapshot at its start and removes those of them that
are still there, and the `INSERT` comes after it in a transaction of its own. A statement may fail
before or after the server has committed it. Meanwhile accesses come and go; the runtime role
cannot change devices, and nothing updates a result.

The rows that are purged are never missed: whenever the clock of the database is not behind the
clocks of the service, a report is the one that a store without retention would give. And the
purge keeps up: rows older than the retention go, a thousand for each `DELETE`.
-/

namespace CloudHelp.PilotTelemetry

/-- How a statement ends for the service: with the answer of the server, or with a fault of the
connection, before or after the server has committed it. -/
inductive Ending where
  | answered
  | aborted (e : Error)
  | lost (e : Error)

inductive Phase where
  | idle
  | built (result : TestResult)
  /-- the `DELETE` has chosen its rows -/
  | purging (result : TestResult) (picked : List TestResult)
  | purged (result : TestResult)
  | returned (answer : Except Error TestResult)

/-- The calls of `Record` and the tables. What has been inserted, by which call, and what the calls
have read from the clock is kept for the statements only. -/
structure Writers where
  tables : Tables
  calls : ℕ → Phase
  inserted : List (ℕ × TestResult)
  readings : List ℤ

inductive Event where
  /-- `Record` up to `Create` -/
  | begin (t : ℕ) (input : RecordInput) (now : ℤ) (newID : Except Error Bytes)
  /-- the snapshot of the `DELETE` -/
  | pick (t : ℕ)
  | purge (t : ℕ) (ending : Ending)
  | insert (t : ℕ) (ending : Ending)
  /-- what the administration of accesses does to the tables -/
  | access (after : Tables)

/-- The rows that are still there of those the `DELETE` has chosen go. -/
def deleteRows (tables : Tables) (picked : List TestResult) : Tables :=
  { tables with
    results := tables.results.filter fun result => decide (result ∉ picked)
    resultKey := tables.resultKey.sublist (List.filter_sublist.map _)
    resultChecks := fun result h => tables.resultChecks result (List.mem_of_mem_filter h)
    resultDevice := fun result h => tables.resultDevice result (List.mem_of_mem_filter h) }

def afterCreate (stored : TestResult) : Except Error TestResult :=
  match validate stored with
  | .error e => .error (.wrap "pilot telemetry: store returned invalid result: %w" [] e)
  | .ok () => .ok stored

def retentionFault (e : Error) : Error :=
  .wrap "pilot telemetry postgres: enforce retention: %w" [] e

/-- `classifyCreate` of an error that is not one of PostgreSQL. -/
def insertFault (e : Error) : Error := .wrap "pilot telemetry postgres: create: %w" [] e

namespace Writers

def initial (start : Tables) : Writers := ⟨start, fun _ => .idle, [], []⟩

def put (x : Writers) (t : ℕ) (phase : Phase) : Writers :=
  { x with calls := Function.update x.calls t phase }

@[simp] theorem calls_put_self (x : Writers) (t : ℕ) (phase : Phase) :
    (x.put t phase).calls t = phase :=
  Function.update_self ..

theorem calls_put_of_ne (x : Writers) {t u : ℕ} (phase : Phase) (h : u ≠ t) :
    (x.put t phase).calls u = x.calls u :=
  Function.update_of_ne h ..

def purgeStep (x : Writers) (t : ℕ) (result : TestResult) (picked : List TestResult) :
    Ending → Writers
  | .answered => { x.put t (.purged result) with tables := deleteRows x.tables picked }
  | .aborted e => x.put t (.returned (.error (retentionFault e)))
  | .lost e =>
      { x.put t (.returned (.error (retentionFault e))) with tables := deleteRows x.tables picked }

def insertStep (x : Writers) (t : ℕ) (result : TestResult) (ending : Ending) : Writers :=
  match insertResult x.tables result, ending with
  | .ok after, .answered =>
      { x.put t (.returned (afterCreate result)) with
        tables := after, inserted := (t, result) :: x.inserted }
  | .ok after, .lost e =>
      { x.put t (.returned (.error (insertFault e))) with
        tables := after, inserted := (t, result) :: x.inserted }
  | .error code, .answered => x.put t (.returned (.error (classifyCreate code)))
  | _, .aborted e => x.put t (.returned (.error (insertFault e)))
  | .error _, .lost e => x.put t (.returned (.error (insertFault e)))

def step (S : SortSlice) (x : Writers) : Event → Option Writers
  | .begin t input now newID =>
      match x.calls t with
      | .idle =>
          match beforeCreate input now newID with
          | .error e =>
              some { x.put t (.returned (.error e)) with readings := now :: x.readings }
          | .ok result => some { x.put t (.built result) with readings := now :: x.readings }
      | _ => none
  | .pick t =>
      match x.calls t with
      | .built result =>
          some (x.put t (.purging result
            (expired S x.tables (result.recordedAt - telemetryRetention))))
      | _ => none
  | .purge t ending =>
      match x.calls t with
      | .purging result picked => some (x.purgeStep t result picked ending)
      | _ => none
  | .insert t ending =>
      match x.calls t with
      | .purged result => some (x.insertStep t result ending)
      | _ => none
  | .access after =>
      if after.results = x.tables.results ∧ after.devices = x.tables.devices then
        some { x with tables := after }
      else none

/-- The results that a store without retention would have. -/
def stored (start : Tables) (x : Writers) : List TestResult :=
  x.inserted.map Prod.snd ++ start.results

end Writers

def Reachable (S : SortSlice) (start : Tables) (x : Writers) : Prop :=
  ∃ events, runs (Writers.step S) (.initial start) events = some x

variable {S : SortSlice} {start : Tables} {x x' : Writers} {event : Event}

/-! ## What a step does -/

inductive Effect (S : SortSlice) (x : Writers) : Event → Writers → Prop where
  | refused {t : ℕ} {input : RecordInput} {now : ℤ} {newID : Except Error Bytes} {e : Error}
      (hcall : x.calls t = .idle) : Effect S x (.begin t input now newID)
        { x.put t (.returned (.error e)) with readings := now :: x.readings }
  | began {t : ℕ} {input : RecordInput} {now : ℤ} {newID : Except Error Bytes}
      {result : TestResult} (hcall : x.calls t = .idle)
      (hresult : beforeCreate input now newID = .ok result) :
      Effect S x (.begin t input now newID)
        { x.put t (.built result) with readings := now :: x.readings }
  | picked {t : ℕ} {result : TestResult} (hcall : x.calls t = .built result) :
      Effect S x (.pick t) (x.put t (.purging result
        (expired S x.tables (result.recordedAt - telemetryRetention))))
  | purged {t : ℕ} {result : TestResult} {picked : List TestResult} {ending : Ending}
      {phase : Phase} (hcall : x.calls t = .purging result picked)
      (hphase : phase = .purged result ∨ ∃ e, phase = .returned (.error e)) :
      Effect S x (.purge t ending) { x.put t phase with tables := deleteRows x.tables picked }
  | inserted {t : ℕ} {result : TestResult} {ending : Ending} {after : Tables}
      {answer : Except Error TestResult} (hcall : x.calls t = .purged result)
      (hinsert : insertResult x.tables result = .ok after)
      (hanswer : answer = .ok result ∨ ∃ e, answer = .error e) :
      Effect S x (.insert t ending) { x.put t (.returned answer) with
        tables := after, inserted := (t, result) :: x.inserted }
  | unfinished {t : ℕ} {result : TestResult} {picked : List TestResult} {e e' : Error}
      (hcall : x.calls t = .purging result picked) :
      Effect S x (.purge t (.aborted e)) (x.put t (.returned (.error e')))
  | rejected {t : ℕ} {result : TestResult} {ending : Ending} {e : Error}
      (hcall : x.calls t = .purged result) :
      Effect S x (.insert t ending) (x.put t (.returned (.error e)))
  | accesses {after : Tables} (hresults : after.results = x.tables.results)
      (hdevices : after.devices = x.tables.devices) :
      Effect S x (.access after) { x with tables := after }

theorem afterCreate_cases (result : TestResult) :
    afterCreate result = .ok result ∨ ∃ e, afterCreate result = .error e := by
  unfold afterCreate
  cases validate result with
  | error e => exact Or.inr ⟨_, rfl⟩
  | ok u => exact Or.inl rfl

theorem insertStep_effect {t : ℕ} {result : TestResult} (hcall : x.calls t = .purged result)
    (ending : Ending) : Effect S x (.insert t ending) (x.insertStep t result ending) := by
  unfold Writers.insertStep
  cases hinsert : insertResult x.tables result with
  | error code => cases ending <;> exact .rejected hcall
  | ok after =>
      cases ending with
      | answered => exact .inserted hcall hinsert (afterCreate_cases result)
      | lost e => exact .inserted hcall hinsert (Or.inr ⟨_, rfl⟩)
      | aborted e => exact .rejected hcall

theorem step_effect (h : x.step S event = some x') : Effect S x event x' := by
  cases event with
  | begin t input now newID =>
      cases hcall : x.calls t <;> simp only [Writers.step, hcall, reduceCtorEq] at h
      cases hresult : beforeCreate input now newID <;>
        simp only [hresult, Option.some.injEq] at h <;> subst h
      · exact .refused hcall
      · exact .began hcall hresult
  | pick t =>
      cases hcall : x.calls t <;>
        simp only [Writers.step, hcall, reduceCtorEq, Option.some.injEq] at h
      subst h
      exact .picked hcall
  | purge t ending =>
      cases hcall : x.calls t <;>
        simp only [Writers.step, hcall, reduceCtorEq, Option.some.injEq] at h
      subst h
      cases ending with
      | answered => exact .purged hcall (Or.inl rfl)
      | aborted e => exact .unfinished hcall
      | lost e => exact .purged hcall (Or.inr ⟨_, rfl⟩)
  | insert t ending =>
      cases hcall : x.calls t <;>
        simp only [Writers.step, hcall, reduceCtorEq, Option.some.injEq] at h
      subst h
      exact insertStep_effect hcall ending
  | access after =>
      by_cases hsame : after.results = x.tables.results ∧ after.devices = x.tables.devices
      · simp only [Writers.step, if_pos hsame, Option.some.injEq] at h
        subst h
        exact .accesses hsame.1 hsame.2
      · simp only [Writers.step, if_neg hsame, reduceCtorEq] at h

/-! ## A call alone -/

/-- Rows are told apart by their keys. -/
theorem mem_map_id_iff {tables : Tables} {rows : List TestResult} {result : TestResult}
    (hrows : ∀ row ∈ rows, row ∈ tables.results) (hresult : result ∈ tables.results) :
    result.id ∈ rows.map TestResult.id ↔ result ∈ rows := by
  constructor
  · intro h
    obtain ⟨row, hrow, hid⟩ := List.mem_map.mp h
    rwa [← List.inj_on_of_nodup_map tables.resultKey (hrows row hrow) hresult hid]
  · exact List.mem_map_of_mem

theorem mem_results_of_expired {tables : Tables} {cutoff : ℤ} {row : TestResult}
    (h : row ∈ expired S tables cutoff) : row ∈ tables.results ∧ row.occurredAt < cutoff := by
  have hrow := List.mem_of_mem_take h
  rw [SortSlice.mem_run, List.mem_filter] at hrow
  exact ⟨hrow.1, of_decide_eq_true hrow.2⟩

theorem deleteRows_expired (tables : Tables) (cutoff : ℤ) :
    deleteRows tables (expired S tables cutoff) = enforceRetention S tables cutoff := by
  have hrows : tables.results.filter (fun row => decide (row ∉ expired S tables cutoff)) =
      tables.results.filter fun row =>
        decide (row.id ∉ (expired S tables cutoff).map TestResult.id) := by
    apply List.filter_congr
    intro row hrow
    apply decide_eq_decide.mpr
    exact not_congr (mem_map_id_iff (fun r hr => (mem_results_of_expired hr).1) hrow).symm
  simp only [deleteRows, enforceRetention, hrows]

/-- Without another call in between, the steps are `Record`. -/
theorem runs_record {t : ℕ} (hcall : x.calls t = .idle) {input : RecordInput} {now : ℤ}
    {newID : Except Error Bytes} {result : TestResult}
    (hresult : beforeCreate input now newID = .ok result) :
    ∃ x', runs (Writers.step S) x
        [.begin t input now newID, .pick t, .purge t .answered, .insert t .answered] = some x' ∧
      x'.tables = (record S x.tables input now newID).1 ∧
      x'.calls t = .returned (record S x.tables input now newID).2 := by
  simp only [runs, List.foldlM_cons, List.foldlM_nil, Writers.step, hcall, hresult, Writers.put,
    Option.bind_eq_bind, Option.bind_some, Function.update_self, Writers.purgeStep,
    deleteRows_expired, Option.pure_def, Option.some.injEq, exists_eq_left', record, create,
    Writers.insertStep]
  cases insertResult (enforceRetention S x.tables (result.recordedAt - telemetryRetention))
      result with
  | error code => simp
  | ok after =>
      simp only [Function.update_self, afterCreate]
      cases validate result <;> simp

/-! ## What the calls keep -/

def Dated (readings : List ℤ) (result : TestResult) : Prop :=
  ∃ now ∈ readings, result.recordedAt ≤ now

def Phase.Fits (inserted : List (ℕ × TestResult)) (readings : List ℤ) (t : ℕ) : Phase → Prop
  | .idle => t ∉ inserted.map Prod.fst
  | .built result | .purged result => t ∉ inserted.map Prod.fst ∧ Dated readings result
  | .purging result picked => (t ∉ inserted.map Prod.fst ∧ Dated readings result) ∧
      ∀ row ∈ picked, row.occurredAt < result.recordedAt - telemetryRetention
  | .returned (.ok result) => (t, result) ∈ inserted
  | .returned (.error _) => True

def rowsFrom (cutoff : ℤ) (rows : List TestResult) : List TestResult :=
  rows.filter fun row => cutoff ≤ row.occurredAt

structure Kept (start : Tables) (x : Writers) : Prop where
  calls : ∀ t, (x.calls t).Fits x.inserted x.readings t
  once : (x.inserted.map Prod.fst).Nodup
  rows : ∀ cutoff, (∀ now ∈ x.readings, now - telemetryRetention ≤ cutoff) →
    rowsFrom cutoff x.tables.results = rowsFrom cutoff (x.stored start)

section

variable {inserted : List (ℕ × TestResult)} {readings : List ℤ} {t u : ℕ} {phase : Phase}
  {result : TestResult}

theorem Dated.mono (h : Dated readings result) (now : ℤ) : Dated (now :: readings) result := by
  obtain ⟨reading, hmem, hle⟩ := h
  exact ⟨reading, List.mem_cons_of_mem _ hmem, hle⟩

theorem Phase.Fits.mono (h : phase.Fits inserted readings t) (now : ℤ) :
    phase.Fits inserted (now :: readings) t := by
  cases phase with
  | idle => exact h
  | built result => exact ⟨h.1, h.2.mono now⟩
  | purging result picked => exact ⟨⟨h.1.1, h.1.2.mono now⟩, h.2⟩
  | purged result => exact ⟨h.1, h.2.mono now⟩
  | returned answer => cases answer <;> exact h

/-- The insertion of another call changes nothing for a call. -/
theorem Phase.Fits.insert (h : phase.Fits inserted readings u) (hne : u ≠ t) :
    phase.Fits ((t, result) :: inserted) readings u := by
  have hnot : u ∉ inserted.map Prod.fst → u ∉ ((t, result) :: inserted).map Prod.fst := by
    rw [List.map_cons, List.mem_cons, not_or]
    exact fun hu => ⟨hne, hu⟩
  cases phase with
  | idle => exact hnot h
  | built result => exact ⟨hnot h.1, h.2⟩
  | purging result picked => exact ⟨⟨hnot h.1.1, h.1.2⟩, h.2⟩
  | purged result => exact ⟨hnot h.1, h.2⟩
  | returned answer =>
      cases answer with
      | error e => trivial
      | ok stored => exact List.mem_cons_of_mem _ h

theorem dated_of_beforeCreate {input : RecordInput} {now : ℤ} {newID : Except Error Bytes}
    (h : beforeCreate input now newID = .ok result) :
    result.recordedAt = Time.truncateSecond now := by
  unfold beforeCreate at h
  cases newID with
  | error e => cases h
  | ok identifier =>
      dsimp only at h
      split_ifs at h
      cases hvalid : validate (newResult input identifier now) <;> rw [hvalid] at h <;> cases h
      rfl

theorem rowsFrom_filter {cutoff : ℤ} {rows : List TestResult} {p : TestResult → Bool}
    (h : ∀ row ∈ rows, cutoff ≤ row.occurredAt → p row = true) :
    rowsFrom cutoff (rows.filter p) = rowsFrom cutoff rows := by
  unfold rowsFrom
  rw [List.filter_filter]
  apply List.filter_congr
  intro row hrow
  by_cases hcutoff : cutoff ≤ row.occurredAt
  · rw [h row hrow hcutoff, Bool.and_true]
  · rw [decide_eq_false hcutoff, Bool.false_and]

theorem results_of_insertResult {tables after : Tables}
    (h : insertResult tables result = .ok after) :
    after.results = result :: tables.results := by
  unfold insertResult at h
  split_ifs at h with htext hchecks hkey hdevice
  obtain rfl := Except.ok.inj h
  rfl

end

theorem kept_initial (start : Tables) : Kept start (.initial start) where
  calls := fun _ => List.not_mem_nil
  once := List.nodup_nil
  rows := fun _ _ => rfl

/-- The phase of one call changes, and the rest of what is kept does not. -/
theorem Kept.put (h : Kept start x) {t : ℕ} {phase : Phase}
    (hphase : phase.Fits x.inserted x.readings t) : Kept start (x.put t phase) where
  calls := (Function.forall_update_iff x.calls
    fun u phase => phase.Fits x.inserted x.readings u).mpr ⟨hphase, fun u _ => h.calls u⟩
  once := h.once
  rows := h.rows

theorem Kept.read (h : Kept start x) (now : ℤ) :
    Kept start { x with readings := now :: x.readings } where
  calls := fun t => (h.calls t).mono now
  once := h.once
  rows := fun cutoff hcutoff =>
    h.rows cutoff fun reading hreading => hcutoff reading (List.mem_cons_of_mem _ hreading)

/-- The rows that a `DELETE` has chosen are older than any cutoff that counts. -/
theorem Kept.deleteRows (h : Kept start x) {t : ℕ} {result : TestResult}
    {picked : List TestResult} (hcall : x.calls t = .purging result picked) :
    Kept start { x with tables := deleteRows x.tables picked } where
  calls := h.calls
  once := h.once
  rows := by
    intro cutoff hcutoff
    have hfits := h.calls t
    rw [hcall] at hfits
    obtain ⟨⟨_, now, hnow, hdated⟩, hpicked⟩ := hfits
    have hlate := hcutoff now hnow
    apply Eq.trans _ (h.rows cutoff hcutoff)
    apply rowsFrom_filter
    intro row _ hrow
    apply decide_eq_true
    intro hmem
    have hold := hpicked row hmem
    omega

theorem Kept.step (h : Kept start x) (hstep : x.step S event = some x') : Kept start x' := by
  cases step_effect hstep with
  | refused hcall =>
      apply (h.read _).put
      trivial
  | @began t input now newID result hcall hresult =>
      have hread := h.read now
      apply hread.put
      have hfits := h.calls t
      rw [hcall] at hfits
      refine ⟨hfits, now, List.mem_cons_self, ?_⟩
      rw [dated_of_beforeCreate hresult]
      exact Time.truncateSecond_le now
  | @picked t result hcall =>
      apply h.put
      have hfits := h.calls t
      rw [hcall] at hfits
      exact ⟨hfits, fun row hrow => (mem_results_of_expired hrow).2⟩
  | @purged t result picked ending phase hcall hphase =>
      apply (h.deleteRows hcall).put
      have hfits := h.calls t
      rw [hcall] at hfits
      rcases hphase with rfl | ⟨e, rfl⟩
      · exact hfits.1
      · trivial
  | @inserted t result ending after answer hcall hinsert hanswer =>
      have hfits := h.calls t
      rw [hcall] at hfits
      constructor
      · apply (Function.forall_update_iff x.calls fun u phase =>
          phase.Fits ((t, result) :: x.inserted) x.readings u).mpr
        refine ⟨?_, fun u hu => (h.calls u).insert hu⟩
        rcases hanswer with rfl | ⟨e, rfl⟩
        · exact List.mem_cons_self
        · trivial
      · exact List.nodup_cons.mpr ⟨hfits.1, h.once⟩
      · intro cutoff hcutoff
        have hrows := h.rows cutoff hcutoff
        simp only [results_of_insertResult hinsert, Writers.stored, List.map_cons,
          List.cons_append, rowsFrom, List.filter_cons] at hrows ⊢
        rw [hrows]
  | unfinished hcall | rejected hcall =>
      apply h.put
      trivial
  | accesses hresults hdevices =>
      exact ⟨h.calls, h.once, fun cutoff hcutoff => by rw [hresults]; exact h.rows cutoff hcutoff⟩

theorem Reachable.kept (h : Reachable S start x) : Kept start x := by
  obtain ⟨events, hrun⟩ := h
  exact runs_invariant (fun _ _ _ _ hx hstep => hx.step hstep) (kept_initial start) hrun

/-! ## Reports do not miss what is purged -/

/-- A report reads the results of the window only. -/
theorem reportTables_congr {F : Type} (G T : SortSlice) (collate : Bytes → Bytes → Bool)
    (floats : VpnNode.Floats F) {tables full : Tables} {current : ℤ}
    (hwindow : window tables current = window full current)
    (haccesses : tables.accesses = full.accesses) (hdevices : tables.devices = full.devices)
    (now : ℤ) (metrics : Option (Except Error (VpnNode.Metrics F))) :
    reportTables G T collate floats tables current now metrics =
      reportTables G T collate floats full current now metrics := by
  simp only [reportTables, aggregate, transportRows, failureRows, ispRows, labelGroups,
    failingLabels, failing, activeRows, hwindow, haccesses, hdevices]

theorem Kept.window_eq (h : Kept start x) {current : ℤ}
    (hclock : ∀ now ∈ x.readings, now ≤ current) :
    window x.tables current = rowsFrom (current - telemetryRetention) (x.stored start) :=
  h.rows (current - telemetryRetention) fun now hnow => Int.sub_le_sub_right (hclock now hnow) _

/-- Calls of `Record` run in any order, with any faults. If the clock of the database is not behind
what the calls have read from theirs, then a report is the one of a store that has never purged
anything; a result that was acknowledged is stored once and is in every such report for thirty days;
and what is gone is older than that. -/
theorem reports_ignore_retention (hx : Reachable S start x) {current : ℤ}
    (hclock : ∀ now ∈ x.readings, now ≤ current) :
    (∀ full : Tables, full.results = x.stored start → full.accesses = x.tables.accesses →
      full.devices = x.tables.devices →
      ∀ {F : Type} (G T : SortSlice) (collate : Bytes → Bytes → Bool) (floats : VpnNode.Floats F)
        (now : ℤ) (metrics : Option (Except Error (VpnNode.Metrics F))),
        reportTables G T collate floats x.tables current now metrics =
          reportTables G T collate floats full current now metrics) ∧
    (∀ t result, x.calls t = .returned (.ok result) →
      (t, result) ∈ x.inserted ∧ (x.inserted.map Prod.fst).count t = 1 ∧
        (current - telemetryRetention ≤ result.occurredAt → result ∈ window x.tables current)) ∧
    ∀ row ∈ x.stored start, row ∉ x.tables.results →
      ∃ now ∈ x.readings, row.occurredAt < now - telemetryRetention := by
  have hkept := hx.kept
  have hwindow := hkept.window_eq hclock
  refine ⟨?_, ?_, ?_⟩
  · intro full hresults haccesses hdevices F G T collate floats now metrics
    apply reportTables_congr G T collate floats _ haccesses.symm hdevices.symm
    rw [hwindow, ← hresults]
    rfl
  · intro t result hcall
    have hfits := hkept.calls t
    rw [hcall] at hfits
    have hmem : t ∈ x.inserted.map Prod.fst := List.mem_map_of_mem hfits
    refine ⟨hfits, List.count_eq_one_of_mem hkept.once hmem, fun hrecent => ?_⟩
    rw [hwindow, rowsFrom, List.mem_filter]
    exact ⟨List.mem_append_left _ (List.mem_map_of_mem hfits), decide_eq_true hrecent⟩
  · intro row hrow hgone
    by_contra hnone
    push Not at hnone
    apply hgone
    have hrows := hkept.rows row.occurredAt hnone
    have hmem : row ∈ rowsFrom row.occurredAt (x.stored start) :=
      List.mem_filter.mpr ⟨hrow, decide_eq_true (le_refl row.occurredAt)⟩
    rw [← hrows] at hmem
    exact List.mem_of_mem_filter hmem

namespace Sample

def secondID : Bytes := str "5f0c9a52-3b1e-4c6d-8a77-0123456789ac"

def thirdID : Bytes := str "5f0c9a52-3b1e-4c6d-8a77-0123456789ad"

def tomorrow : ℤ := now + 24 * Duration.hour

def plain (occurredAt : ℤ) : RecordInput := { oldest with isp := none, occurredAt := occurredAt }

/-- The first call records a result that expires; the other two come a day later, and both choose
its row before either deletes it. The answer to the third `INSERT` is lost. -/
def overlapping : List Event :=
  [.begin 0 (plain (now - maximumResultAge)) now (.ok uuid), .pick 0, .purge 0 .answered,
    .insert 0 .answered, .begin 1 (plain tomorrow) tomorrow (.ok secondID),
    .begin 2 (plain tomorrow) tomorrow (.ok thirdID), .pick 1, .pick 2, .purge 1 .answered,
    .purge 2 .answered, .insert 1 .answered, .insert 2 (.lost .notExist)]

def aged : TestResult := newResult (plain (now - maximumResultAge)) uuid now

def fresh (identifier : Bytes) : TestResult := newResult (plain tomorrow) identifier tomorrow

def unpurged : Tables where
  results := [fresh thirdID, fresh secondID, aged]
  accesses := []
  devices := [⟨uuid, uuid⟩]
  resultKey := by decide
  accessKey := tables.accessKey
  deviceKey := tables.deviceKey
  resultChecks := by decide
  accessChecks := tables.accessChecks
  resultDevice := by decide
  accessDevice := tables.accessDevice

def acknowledged : Phase → Option TestResult
  | .returned (.ok result) => some result
  | _ => none

theorem eq_returned_of_acknowledged {phase : Phase} {result : TestResult}
    (h : acknowledged phase = some result) : phase = .returned (.ok result) := by
  unfold acknowledged at h
  split at h
  · rw [Option.some.inj h]
  · cases h

theorem tables_overlapping :
    (runs (Writers.step insertionSort) (.initial tables) overlapping).map
      (fun x => (x.tables.results, x.tables.accesses.length, x.tables.devices)) =
    some ([fresh thirdID, fresh secondID], 0, [⟨uuid, uuid⟩]) := by
  decide

theorem calls_overlapping :
    (runs (Writers.step insertionSort) (.initial tables) overlapping).map
      (fun x => (x.inserted, x.readings, acknowledged (x.calls 1))) =
    some ([(2, fresh thirdID), (1, fresh secondID), (0, aged)], [tomorrow, tomorrow, now],
      some (fresh secondID)) := by
  decide

end Sample

theorem reports_ignore_retention_overlapping :
    ∃ x : Writers, runs (Writers.step insertionSort) (.initial Sample.tables) Sample.overlapping =
        some x ∧
      x.calls 1 = .returned (.ok (Sample.fresh Sample.secondID)) ∧
      Sample.fresh Sample.secondID ∈ window x.tables Sample.tomorrow ∧
      Sample.aged ∈ Sample.unpurged.results ∧ Sample.aged ∉ x.tables.results ∧
      ∀ {F : Type} (floats : VpnNode.Floats F) (collate : Bytes → Bytes → Bool),
        reportTables insertionSort insertionSort collate floats x.tables Sample.tomorrow
            Sample.tomorrow none =
          reportTables insertionSort insertionSort collate floats Sample.unpurged Sample.tomorrow
            Sample.tomorrow none := by
  obtain ⟨x, hrun, htables⟩ := Option.map_eq_some_iff.mp Sample.tables_overlapping
  have hcalls := Sample.calls_overlapping
  rw [hrun, Option.map_some, Option.some.injEq] at hcalls
  simp only [Prod.mk.injEq] at htables hcalls
  obtain ⟨hresults, haccesses, hdevices⟩ := htables
  obtain ⟨hinserted, hreadings, hcall⟩ := hcalls
  have hcall := Sample.eq_returned_of_acknowledged hcall
  have hclock : ∀ now ∈ x.readings, now ≤ Sample.tomorrow := by
    rw [hreadings]
    decide
  obtain ⟨hreport, hacknowledged, -⟩ := reports_ignore_retention ⟨_, hrun⟩ hclock
  refine ⟨x, hrun, hcall, (hacknowledged 1 _ hcall).2.2 (by decide), by decide, ?_, ?_⟩
  · rw [hresults]
    decide
  · intro F floats collate
    apply hreport Sample.unpurged
    · rw [Writers.stored, hinserted]
      rfl
    · rw [List.eq_nil_of_length_eq_zero haccesses]
      rfl
    · rw [hdevices]
      rfl

/-! ## The purge keeps up -/

def oldRows (cutoff : ℤ) (tables : Tables) : List TestResult :=
  tables.results.filter fun row => row.occurredAt < cutoff

def backlog (cutoff : ℤ) (x : Writers) : ℕ := (oldRows cutoff x.tables).length

/-- A call in progress has a clock at which what is before the cutoff has expired. -/
def Phase.Expires (cutoff : ℤ) : Phase → Prop
  | .built result | .purging result _ | .purged result =>
      cutoff ≤ result.recordedAt - telemetryRetention
  | .idle | .returned _ => True

def Writers.Expires (cutoff : ℤ) (x : Writers) : Prop := ∀ t, (x.calls t).Expires cutoff

def Event.Expires (cutoff : ℤ) : Event → Prop
  | .begin _ _ now _ => cutoff ≤ Time.truncateSecond now - telemetryRetention
  | _ => True

variable {cutoff : ℤ}

theorem occurredAt_of_insertResult {tables after : Tables} {result : TestResult}
    (h : insertResult tables result = .ok after) :
    result.recordedAt - telemetryRetention ≤ result.occurredAt :=
  (after.resultChecks result (mem_of_insertResult h)).window.1

/-- Rows that have expired for all calls only go. -/
theorem oldRows_step (hx : x.Expires cutoff) (hevent : event.Expires cutoff)
    (hstep : x.step S event = some x') :
    x'.Expires cutoff ∧ (oldRows cutoff x'.tables).Sublist (oldRows cutoff x.tables) := by
  have hput : ∀ t phase, Phase.Expires cutoff phase → (x.put t phase).Expires cutoff :=
    fun t phase hphase => (Function.forall_update_iff x.calls
      fun _ phase => phase.Expires cutoff).mpr ⟨hphase, fun u _ => hx u⟩
  cases step_effect hstep with
  | refused hcall => exact ⟨hput _ _ trivial, List.Sublist.refl _⟩
  | began hcall hresult =>
      refine ⟨hput _ _ ?_, List.Sublist.refl _⟩
      rw [Phase.Expires, dated_of_beforeCreate hresult]
      exact hevent
  | @picked t result hcall =>
      refine ⟨hput _ _ ?_, List.Sublist.refl _⟩
      have ht := hx t
      rw [hcall] at ht
      exact ht
  | @purged t result picked ending phase hcall hphase =>
      refine ⟨hput _ _ ?_, List.filter_sublist.filter _⟩
      have ht := hx t
      rw [hcall] at ht
      rcases hphase with rfl | ⟨e, rfl⟩
      · exact ht
      · trivial
  | @inserted t result ending after answer hcall hinsert hanswer =>
      refine ⟨hput _ _ trivial, ?_⟩
      have ht := hx t
      rw [hcall] at ht
      have hrecent := occurredAt_of_insertResult hinsert
      have hnot : ¬result.occurredAt < cutoff := not_lt.mpr (le_trans ht hrecent)
      simp only [oldRows, results_of_insertResult hinsert, List.filter_cons,
        decide_eq_false hnot, Bool.false_eq_true, if_false]
      exact List.Sublist.refl _
  | unfinished hcall | rejected hcall => exact ⟨hput _ _ trivial, List.Sublist.refl _⟩
  | accesses hresults hdevices =>
      refine ⟨hx, ?_⟩
      rw [oldRows, oldRows, hresults]

theorem oldRows_runs {events : List Event} (hx : x.Expires cutoff)
    (hevents : ∀ event ∈ events, event.Expires cutoff)
    (hrun : runs (Writers.step S) x events = some x') :
    x'.Expires cutoff ∧ (oldRows cutoff x'.tables).Sublist (oldRows cutoff x.tables) := by
  induction events generalizing x with
  | nil =>
      obtain rfl : x = x' := Option.some.inj hrun
      exact ⟨hx, List.Sublist.refl _⟩
  | cons event events ih =>
      obtain ⟨mid, hmid, hrest⟩ := runs_cons.mp hrun
      obtain ⟨hevent, hevents⟩ := List.forall_mem_cons.mp hevents
      obtain ⟨hexpires, hsub⟩ := oldRows_step hx hevent hmid
      obtain ⟨hexpires', hsub'⟩ := ih hexpires hevents hrest
      exact ⟨hexpires', hsub'.trans hsub⟩

/-- Once a `DELETE` has chosen its rows, the call keeps them until the `DELETE` ends. -/
def Phase.Past (result : TestResult) (picked : List TestResult) : Phase → Prop
  | .purging result' picked' => result' = result ∧ picked' = picked
  | .purged _ | .returned _ => True
  | .idle | .built _ => False

theorem past_step {t : ℕ} {result : TestResult} {picked : List TestResult}
    (ht : (x.calls t).Past result picked) (hstep : x.step S event = some x') :
    (x'.calls t).Past result picked := by
  have hput : ∀ u phase, (u = t → phase.Past result picked) →
      ((x.put u phase).calls t).Past result picked := by
    intro u phase hphase
    by_cases hu : t = u
    · rw [hu, Writers.calls_put_self]
      exact hphase hu.symm
    · rwa [Writers.calls_put_of_ne x phase hu]
  cases step_effect hstep with
  | refused hcall => exact hput _ _ fun _ => trivial
  | began hcall hresult =>
      refine hput _ _ fun hu => ?_
      rw [← hu, hcall] at ht
      exact ht
  | picked hcall =>
      refine hput _ _ fun hu => ?_
      rw [← hu, hcall] at ht
      exact ht.elim
  | purged hcall hphase =>
      refine hput _ _ fun _ => ?_
      rcases hphase with rfl | ⟨e, rfl⟩ <;> trivial
  | inserted | unfinished | rejected => exact hput _ _ fun _ => trivial
  | accesses => exact ht

/-- What a `DELETE` chooses are the oldest rows, up to a thousand of them. -/
theorem length_old_expired {tables : Tables} {limit : ℤ} (hcutoff : cutoff ≤ limit) :
    ((expired S tables limit).filter fun row => row.occurredAt < cutoff).length =
      min 1000 (oldRows cutoff tables).length := by
  have hweak : StrictWeak fun a b : TestResult => decide (a.occurredAt < b.occurredAt) := by
    constructor
    · intro a b hab
      exact decide_eq_false (not_lt.mpr (of_decide_eq_true hab).le)
    · intro a b c hab hbc
      have hab := of_decide_eq_false hab
      have hbc := of_decide_eq_false hbc
      exact decide_eq_false (by omega)
  have hfirst : (S.run (fun a b : TestResult => decide (a.occurredAt < b.occurredAt))
      (oldRows limit tables)).Pairwise fun a b =>
        decide (b.occurredAt < cutoff) = true → decide (a.occurredAt < cutoff) = true := by
    apply (S.sorted hweak _).imp
    intro a b hab hb
    have hab := of_decide_eq_false hab
    have hb := of_decide_eq_true hb
    exact decide_eq_true (by omega)
  have hold : (oldRows limit tables).countP (fun row => decide (row.occurredAt < cutoff)) =
      (oldRows cutoff tables).length := by
    rw [List.countP_eq_length_filter, oldRows, oldRows, List.filter_filter]
    congr 1
    apply List.filter_congr
    intro row _
    by_cases hrow : row.occurredAt < cutoff
    · simp [hrow, lt_of_lt_of_le hrow hcutoff]
    · simp [hrow]
  rw [← List.countP_eq_length_filter, expired, ← oldRows, countP_take_of_first hfirst,
    (S.perm _ _).countP_eq, hold]

/-- A `DELETE` that starts now takes a thousand of the old rows, or all of them, also if other calls
have taken some of them when it ends. -/
theorem length_oldRows_deleteRows {tables later : Tables} {limit : ℤ} (hcutoff : cutoff ≤ limit)
    (hsub : (oldRows cutoff later).Sublist (oldRows cutoff tables)) :
    (oldRows cutoff (deleteRows later (expired S tables limit))).length ≤
      (oldRows cutoff tables).length - 1000 := by
  have hnodup : (oldRows cutoff tables).Nodup := tables.resultKey.of_map.filter _
  have hpicked : (expired S tables limit).Nodup := by
    apply List.Nodup.sublist (List.take_sublist _ _)
    exact (S.perm _ _).nodup_iff.mpr (tables.resultKey.of_map.filter _)
  -- what is taken of the old rows is what was chosen before the cutoff
  have htaken : ((oldRows cutoff tables).filter fun row =>
      decide (row ∈ expired S tables limit)).Perm
      ((expired S tables limit).filter fun row => row.occurredAt < cutoff) := by
    apply (List.perm_ext_iff_of_nodup (hnodup.filter _) (hpicked.filter _)).mpr
    intro row
    simp only [oldRows, List.mem_filter, decide_eq_true_eq]
    constructor
    · exact fun h => ⟨h.2, h.1.2⟩
    · exact fun h => ⟨⟨(mem_results_of_expired h.1).1, h.2⟩, h.1⟩
  have hsplit := List.length_eq_length_filter_add (l := oldRows cutoff tables)
    fun row => decide (row ∈ expired S tables limit)
  have hleft : (oldRows cutoff (deleteRows later (expired S tables limit))).length ≤
      ((oldRows cutoff tables).filter fun row =>
        !decide (row ∈ expired S tables limit)).length := by
    apply List.Sublist.length_le
    have heq : oldRows cutoff (deleteRows later (expired S tables limit)) =
        (oldRows cutoff later).filter fun row => !decide (row ∈ expired S tables limit) := by
      rw [oldRows, oldRows, deleteRows, List.filter_comm]
      simp only [decide_not]
    rw [heq]
    exact hsub.filter _
  rw [htaken.length_eq, length_old_expired hcutoff] at hsplit
  omega

/-- One `DELETE` from its start to its end, whatever else happens before, in between and after. -/
def Round (S : SortSlice) (cutoff : ℤ) (x x' : Writers) : Prop :=
  ∃ before mid after t ending, (∀ e, ending ≠ .aborted e) ∧
    (∀ event ∈ before ++ .pick t :: mid ++ .purge t ending :: after, event.Expires cutoff) ∧
    runs (Writers.step S) x (before ++ .pick t :: mid ++ .purge t ending :: after) = some x'

inductive Rounds (S : SortSlice) (cutoff : ℤ) : ℕ → Writers → Writers → Prop where
  | none {x : Writers} : Rounds S cutoff 0 x x
  | next {n : ℕ} {x x' x'' : Writers} (hround : Round S cutoff x x')
      (hrest : Rounds S cutoff n x' x'') : Rounds S cutoff (n + 1) x x''

theorem Round.backlog_le (h : Round S cutoff x x') (hx : x.Expires cutoff) :
    x'.Expires cutoff ∧ backlog cutoff x' ≤ backlog cutoff x - 1000 := by
  obtain ⟨before, mid, after, t, ending, hending, hevents, hrun⟩ := h
  simp only [List.forall_mem_append, List.forall_mem_cons] at hevents
  obtain ⟨⟨hbefore, hpick, hmid⟩, hpurge, hafter⟩ := hevents
  obtain ⟨x₃, hrun, hlast⟩ := runs_append.mp hrun
  obtain ⟨x₁, hfirst, hrun⟩ := runs_append.mp hrun
  obtain ⟨x₂, hpicked, hbetween⟩ := runs_cons.mp hrun
  obtain ⟨x₄, hpurged, hlast⟩ := runs_cons.mp hlast
  obtain ⟨hx₁, hsub₁⟩ := oldRows_runs hx hbefore hfirst
  obtain ⟨hx₂, -⟩ := oldRows_step hx₁ hpick hpicked
  obtain ⟨hx₃, hsub₃⟩ := oldRows_runs hx₂ hmid hbetween
  obtain ⟨hx₄, -⟩ := oldRows_step hx₃ hpurge hpurged
  obtain ⟨hx', hsub'⟩ := oldRows_runs hx₄ hafter hlast
  refine ⟨hx', ?_⟩
  cases step_effect hpicked with
  | @picked _ result hcall =>
      have hlimit := hx₁ t
      rw [hcall] at hlimit
      have hpast : (x₃.calls t).Past result
          (expired S x₁.tables (result.recordedAt - telemetryRetention)) := by
        apply runs_invariant (fun _ _ _ _ hpast hstep => past_step hpast hstep) _ hbetween
        rw [Writers.calls_put_self]
        exact ⟨rfl, rfl⟩
      cases step_effect hpurged with
      | purged hcall₃ hphase =>
          rw [hcall₃] at hpast
          obtain ⟨-, rfl⟩ := hpast
          calc backlog cutoff x'
              ≤ (oldRows cutoff (deleteRows x₃.tables
                  (expired S x₁.tables (result.recordedAt - telemetryRetention)))).length :=
                hsub'.length_le
            _ ≤ (oldRows cutoff x₁.tables).length - 1000 :=
                length_oldRows_deleteRows hlimit hsub₃
            _ ≤ backlog cutoff x - 1000 := Nat.sub_le_sub_right hsub₁.length_le _
      | unfinished => exact absurd rfl (hending _)

/-- Among the rows that have expired for all calls there is never a new one, nor one that was
gone, however the calls run; and `n` `DELETE`s one after the other take a thousand each of them,
until none is left. -/
theorem backlog_shrinks (hx : x.Expires cutoff) :
    (∀ events x', (∀ event ∈ events, Event.Expires cutoff event) →
        runs (Writers.step S) x events = some x' →
        x'.Expires cutoff ∧ (oldRows cutoff x'.tables).Sublist (oldRows cutoff x.tables)) ∧
      ∀ n x', Rounds S cutoff n x x' → backlog cutoff x' ≤ backlog cutoff x - 1000 * n := by
  refine ⟨fun events x' hevents hrun => oldRows_runs hx hevents hrun, fun n x' h => ?_⟩
  induction h with
  | none => exact le_refl _
  | next hround hrest ih =>
      obtain ⟨hmid, hle⟩ := hround.backlog_le hx
      have hrest := ih hmid
      omega

namespace Sample

def stale : Tables where
  results := [aged]
  accesses := []
  devices := [⟨uuid, uuid⟩]
  resultKey := by simp
  accessKey := tables.accessKey
  deviceKey := tables.deviceKey
  resultChecks := by decide
  accessChecks := tables.accessChecks
  resultDevice := by decide
  accessDevice := tables.accessDevice

theorem run_stale : (runs (Writers.step insertionSort) (.initial stale)
    (overlapping.drop 4)).isSome = true := by
  decide

end Sample

theorem backlog_shrinks_stale :
    ∃ x : Writers, Rounds insertionSort (Sample.tomorrow - telemetryRetention) 1
        (.initial Sample.stale) x ∧
      backlog (Sample.tomorrow - telemetryRetention) (.initial Sample.stale) = 1 ∧
      backlog (Sample.tomorrow - telemetryRetention) x = 0 := by
  obtain ⟨x, hrun⟩ := Option.isSome_iff_exists.mp Sample.run_stale
  have hround : Round insertionSort (Sample.tomorrow - telemetryRetention) (.initial Sample.stale)
      x := by
    refine ⟨[.begin 1 (Sample.plain Sample.tomorrow) Sample.tomorrow (.ok Sample.secondID),
        .begin 2 (Sample.plain Sample.tomorrow) Sample.tomorrow (.ok Sample.thirdID)],
      [.pick 2], [.purge 2 .answered, .insert 1 .answered, .insert 2 (.lost .notExist)], 1,
      .answered, nofun, ?_, hrun⟩
    have htime : Time.truncateSecond Sample.tomorrow = Sample.tomorrow := by decide
    simp [Event.Expires, htime]
  have hrounds := Rounds.next hround .none
  have hbacklog : backlog (Sample.tomorrow - telemetryRetention) (.initial Sample.stale) = 1 := by
    decide
  have hidle : (Writers.initial Sample.stale).Expires (Sample.tomorrow - telemetryRetention) :=
    fun _ => trivial
  have hshrinks := (backlog_shrinks hidle).2 1 x hrounds
  exact ⟨x, hrounds, hbacklog, by omega⟩

end CloudHelp.PilotTelemetry
