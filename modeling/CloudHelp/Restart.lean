import CloudHelp.IssuerStart
import CloudHelp.RotationRun

/-!
# A restart finds what the issuer knows

In a run in which no save of an `Issue` fails after it has replaced the file, the state that an
issuer has in memory when a call returns is the one at its path, so a process that starts there
goes on like the one that runs, and the catalog revision and the issuance time at the path never
go back.

A save that fails after its rename breaks both: the file has the new state and the issuer the old
one (`restart_differs`).
-/

namespace CloudHelp.Service

open Manifest Issuance

variable {rt : Runtime} {path : Bytes} {s s' : System} {p : ℕ}

/-! ## Memory and disk -/

/-- `Load` returns the state, where the empty state stands for no file. -/
def Shows (rt : Runtime) (disk : Disk) (state : State) : Prop :=
  (disk.current = none ∧ state = .empty) ∨
    ∃ data, disk.current = some data ∧ Loadable rt data state ∧ validate state false = .ok ()

namespace Shows

variable {disk : Disk} {state : State}

theorem load (h : Shows rt disk state) (hpath : path ≠ []) {answers : LoadAnswers}
    (hanswers : Healthy disk answers) :
    (Issuance.load rt path answers = .ok none ∧ state = .empty) ∨
      Issuance.load rt path answers = .ok (some state) := by
  rcases h with ⟨hcurrent, hempty⟩ | ⟨data, hcurrent, hdata, _⟩
  · exact Or.inl ⟨load_absent hpath hanswers hcurrent, hempty⟩
  · exact Or.inr (load_present hpath hanswers hcurrent hdata)

/-- A start over the path has the state. -/
theorem restart (h : Shows rt disk state) (hpath : path ≠ []) {answers : LoadAnswers}
    (hanswers : Healthy disk answers) {options : IssuerOptions} {save : State → Except Error Unit}
    {issuer : Issuer}
    (hnew : newIssuer rt options (.ok ()) (Issuance.load rt path answers) save = .ok issuer) :
    issuer.state = state := by
  rcases h with ⟨hcurrent, rfl⟩ | ⟨data, hcurrent, hdata, hstrict⟩
  · rw [load_absent hpath hanswers hcurrent] at hnew
    exact (newIssuer_sound hnew).2.2.2 fun _ hs => by cases hs
  · rw [load_present hpath hanswers hcurrent hdata] at hnew
    refine (newIssuer_sound hnew).2.2.2 fun other ho => ?_
    obtain rfl := Option.some.inj ho
    obtain ⟨_, ⟨_, hfalse⟩ | ⟨⟨_, hversion, _⟩, _⟩⟩ := Issuance.validate_eq_ok.mp hstrict
    · cases hfalse
    · exact hversion

theorem eq_of_holds (h : Shows rt disk state) {other : State}
    (hother : Holds rt disk.current other) : other = state ∧ state.lastVersion ≠ 0 := by
  obtain ⟨data, hcurrent, hdecode⟩ := hother
  rcases h with ⟨hnone, _⟩ | ⟨data', hcurrent', hdata, _⟩
  · rw [hnone] at hcurrent
    cases hcurrent
  · obtain rfl : data = data' := Option.some.inj (hcurrent.symm.trans hcurrent')
    exact ⟨Except.ok.inj (hdecode.symm.trans hdata.decode),
      (Issuance.validate_eq_ok.mp hdata.valid).1.version⟩

end Shows

/-- A started issuer has the state at the path, if that was complete. -/
theorem shows_of_newIssuer {disk : Disk} {answers : LoadAnswers} {found : Option State}
    {options : IssuerOptions} {policyDigest : Bytes} {save : State → Except Error Unit}
    {issuer : Issuer} (hfits : disk.fits answers = true)
    (hload : Issuance.load rt path answers = .ok found)
    (hchecked : checkOptions rt options = .ok policyDigest)
    (hcomplete : ∀ migrated, migrate options policyDigest found ≠ .ok (some migrated))
    (hnew : newIssuer rt options (.ok ()) (.ok found) save = .ok issuer) :
    Shows rt disk issuer.state := by
  obtain ⟨digest, hdigest, hcases⟩ := newIssuer_eq_ok.mp hnew
  obtain rfl : policyDigest = digest := Except.ok.inj (hchecked.symm.trans hdigest)
  rcases hcases with ⟨hnone, _⟩ | ⟨migrated, hsome, _⟩
  · have hversion : ∀ state, found = some state → state.policyVersion ≠ 0 := by
      rintro state rfl hzero
      rw [migrate, if_neg (not_not.mpr hzero)] at hnone
      cases hgrant : keyPolicyGrant options.keyPolicy state.keyID state.lastVersion with
      | error e =>
          rw [hgrant] at hnone
          cases hnone
      | ok granted =>
          rw [hgrant] at hnone
          cases hnone
    rw [(newIssuer_sound hnew).2.2.2 hversion]
    rcases load_loadable hfits hload with ⟨rfl, hcurrent⟩ | ⟨state, data, rfl, hcurrent, hdata⟩
    · exact Or.inl ⟨hcurrent, rfl⟩
    · refine Or.inr ⟨data, hcurrent, hdata, ?_⟩
      obtain ⟨hr, ⟨⟨_, hzero, _⟩, _⟩ | hpolicy⟩ := Issuance.validate_eq_ok.mp hdata.valid
      · exact absurd hzero (hversion state rfl)
      · exact Issuance.validate_eq_ok.mpr ⟨hr, Or.inr hpolicy⟩
  · exact absurd hsome (hcomplete migrated)

/-- A state that was saved is the one a load returns, if its file is not too large. -/
theorem loadable_completed (hreads : ReadsStates rt) {options : IssuerOptions}
    {policyDigest : Bytes} {state migrated : State} {data text : Bytes}
    (hchecked : checkOptions rt options = .ok policyDigest)
    (hmigrate : migrate options policyDigest (some state) = .ok (some migrated))
    (htext : Loadable rt text state) (hdata : migrated.marshal = .ok data)
    (hsize : data.length ≤ maxStateBytes) :
    Loadable rt data migrated ∧ validate migrated false = .ok () := by
  obtain ⟨other, grant, raw, hother, _, hgrant, rfl⟩ := migrate_eq_some.mp hmigrate
  obtain rfl := Option.some.inj hother
  obtain ⟨_, hpolicy, _⟩ := checkOptions_eq_ok.mp hchecked
  have hstrict := validate_completed hpolicy hgrant htext.valid
  refine ⟨⟨?_, hsize, ?_, validate_of_strict hstrict⟩, hstrict⟩
  · exact State.marshal_ne_nil hdata
  · exact hreads _ _ (utf8_completed hpolicy hgrant htext.valid) hdata

/-! ## Orderly runs -/

/-- A failure of the next operation leaves what is at the path as it was. -/
def Process.mayFail : Process → Bool
  | .saving _ _ _ _ ops => decide (SaveOp.rename ∈ ops)
  | _ => true

/-- A migration whose next operation is the rename has written no more than `Load` reads. -/
def Process.mayGoOn : Process → Bool
  | .migrating _ _ migrated (.rename :: _) =>
      migrated.marshal.toOption.all fun data => decide (data.length ≤ maxStateBytes)
  | _ => true

/-- The step does not fail a save of an `Issue` that has replaced the file, does not replace an old
state by more than a state file may hold, and is not a power failure. -/
def Orderly (s : System) : Action → Prop
  | .fileOp p (.error _) => (s.procs p).mayFail = true
  | .fileOp p (.ok _) => (s.procs p).mayGoOn = true
  | .powerLoss _ => False
  | _ => True

instance (s : System) : DecidablePred (Orderly s)
  | .fileOp p (.error _) => inferInstanceAs (Decidable ((s.procs p).mayFail = true))
  | .fileOp p (.ok _) => inferInstanceAs (Decidable ((s.procs p).mayGoOn = true))
  | .powerLoss _ => .isFalse id
  | .start .. | .load .. | .issue .. | .close _ | .crash _ => .isTrue trivial

def OrderlyRun (rt : Runtime) (path : Bytes) : System → List Action → Prop
  | _, [] => True
  | s, action :: rest =>
      Orderly s action ∧ ∀ s' ∈ step rt path s action, OrderlyRun rt path s' rest

instance OrderlyRun.decide (rt : Runtime) (path : Bytes) :
    ∀ s actions, Decidable (OrderlyRun rt path s actions)
  | _, [] => .isTrue trivial
  | s, action :: rest =>
      have : DecidablePred fun s' => OrderlyRun rt path s' rest :=
        fun s' => OrderlyRun.decide rt path s' rest
      inferInstanceAs (Decidable (Orderly s action ∧
        ∀ s' ∈ step rt path s action, OrderlyRun rt path s' rest))

def Grows (rt : Runtime) (disk disk' : Disk) : Prop :=
  ∀ state, Holds rt disk.current state → ∃ state', Holds rt disk'.current state' ∧
    state.catalogRevision ≤ state'.catalogRevision ∧ state.lastIssuedAt ≤ state'.lastIssuedAt

theorem Grows.of_eq {disk disk' : Disk} (h : disk'.current = disk.current) :
    Grows rt disk disk' :=
  fun state hstate => ⟨state, h ▸ hstate, UInt64.le_refl _, le_rfl⟩

theorem Grows.trans {disk disk' disk'' : Disk} (h : Grows rt disk disk')
    (h' : Grows rt disk' disk'') : Grows rt disk disk'' := by
  intro state hstate
  obtain ⟨state', hstate', hrevision, htime⟩ := h state hstate
  obtain ⟨state'', hstate'', hrevision', htime'⟩ := h' state' hstate'
  exact ⟨state'', hstate'', UInt64.le_trans hrevision hrevision', htime.trans htime'⟩

section Shown

variable (rt : Runtime) (path : Bytes)

structure MigrationShown (disk : Disk) (options : IssuerOptions) (found : Option State)
    (migrated : State) (ops : List SaveOp) : Prop where
  migrate : ∃ policyDigest state text, checkOptions rt options = .ok policyDigest ∧
    found = some state ∧ Loadable rt text state ∧
    Service.migrate options policyDigest found = .ok (some migrated) ∧
    (SaveOp.rename ∈ ops → disk.current = some text)
  underway : disk.Underway migrated ops
  size : SaveOp.rename ∉ ops → ∀ data, migrated.marshal = .ok data → data.length ≤ maxStateBytes

def ProcShown (disk : Disk) : Process → Prop
  | .idle => True
  | .locked options policyDigest => checkOptions rt options = .ok policyDigest
  | .migrating options found migrated ops => MigrationShown rt disk options found migrated ops
  | .ready issuer => issuer.closed = true ∨ Shows rt disk issuer.state
  | .saving issuer _ _ next ops =>
      checkSave path next = .ok () ∧ (SaveOp.rename ∈ ops → Shows rt disk issuer.state)

def Shown (s : System) : Prop := ∀ p, ProcShown rt path s.disk (s.procs p)

end Shown

variable {O : IssuerOptions → Prop} {C : Catalog → Prop} {pub : Envelope → Publication}

theorem procShown_of_quiet {disk : Disk} {process : Process} (h : process.Quiet) :
    ProcShown rt path disk process := by
  cases process with
  | idle => trivial
  | ready issuer => exact Or.inl h
  | _ => exact h.elim

namespace Shown

theorem proc (h : Shown rt path s) {process : Process} (hproc : s.procs p = process) :
    ProcShown rt path s.disk process := hproc ▸ h p

/-- As long as the disk stays, each process is for itself. -/
theorem update (h : Shown rt path s) (process : Process)
    (hprocs : s'.procs = Function.update s.procs p process) (hdisk : s'.disk = s.disk)
    (hprocess : ProcShown rt path s.disk process) : Shown rt path s' := by
  intro q
  rw [hdisk]
  exact forall_procs_update (R := fun _ => ProcShown rt path s.disk) (fun q _ => h q) hprocs
    hprocess q

/-- The holder of the lock may change the disk. -/
theorem of_quiet (hquiet : ∀ q ≠ p, (s.procs q).Quiet) (process : Process)
    (hprocs : s'.procs = Function.update s.procs p process)
    (hprocess : ProcShown rt path s'.disk process) : Shown rt path s' :=
  forall_procs (R := fun _ => ProcShown rt path s'.disk) (fun _ _ => procShown_of_quiet) hquiet
    hprocs hprocess

theorem startReturns (h : Shown rt path s) (result : Except Error Issuer)
    (hresult : ∀ issuer, result = .ok issuer → Shows rt s.disk issuer.state) :
    Shown rt path (s.startReturns p result) := by
  cases result with
  | error e => exact h.update .idle rfl rfl trivial
  | ok issuer => exact h.update (.ready issuer) rfl rfl (Or.inr (hresult issuer rfl))

/-- A call that leaves the state of the issuer leaves everything. -/
theorem issueReturns (h : Shown rt path s) {issuer : Issuer}
    (hissuer : issuer.closed = true ∨ Shows rt s.disk issuer.state)
    {result : Issuer × Except Error Envelope} (hstate : result.1.state = issuer.state)
    (hclosed : result.1.closed = issuer.closed) : Shown rt path (s.issueReturns p result) := by
  refine h.update (.ready result.1) rfl rfl ?_
  change result.1.closed = true ∨ Shows rt s.disk result.1.state
  rw [hstate, hclosed]
  exact hissuer

end Shown

/-! ## One step -/

theorem Shows.of_current {disk disk' : Disk} {state : State} (h : Shows rt disk state)
    (hcurrent : disk'.current = disk.current) : Shows rt disk' state := by
  unfold Shows
  rw [hcurrent]
  exact h

/-- A save does not go back if the state it saves does not. -/
theorem grows_perform {disk disk' : Disk} {state : State} {op : SaveOp}
    (hread : ∀ data, state.marshal = .ok data → Issuance.decodeStrict rt data = .ok state)
    (hahead : op = .rename → ∀ old, Holds rt disk.current old →
      old.catalogRevision ≤ state.catalogRevision ∧ old.lastIssuedAt ≤ state.lastIssuedAt)
    (hperform : disk.perform state op = some disk') : Grows rt disk disk' := by
  by_cases hop : op = .rename
  · have hstep := hahead hop
    subst hop
    obtain ⟨data, hdata, rfl⟩ := Disk.perform_rename hperform
    exact fun old hold => ⟨state, ⟨data, rfl, hread data hdata⟩, hstep old hold⟩
  · exact Grows.of_eq (Disk.perform_other hperform hop).1

namespace Shown

theorem load (h : Shown rt path s) {answers : LoadAnswers}
    (hs : step rt path s (.load p answers) = some s') :
    Shown rt path s' ∧ s'.disk = s.disk := by
  have hdisk : ∀ result, (s.startReturns p result).disk = s.disk := fun result => by
    cases result <;> rfl
  rw [step] at hs
  cases hproc : s.procs p with
  | locked options policyDigest =>
      obtain ⟨hfits, hcases⟩ := stepLoad_locked hproc hs
      have hchecked : checkOptions rt options = .ok policyDigest := h.proc hproc
      rcases hcases with ⟨e, rfl⟩ | ⟨found, hload, ⟨hcomplete, rfl⟩ | ⟨migrated, hmigrate, hcases⟩⟩
      · exact ⟨h.startReturns _ fun _ hi => (by cases hi), hdisk _⟩
      · refine ⟨h.startReturns _ fun issuer hi => ?_, hdisk _⟩
        exact shows_of_newIssuer hfits hload hchecked hcomplete hi
      · rcases hcases with ⟨e, rfl⟩ | ⟨hsave, rfl⟩
        · refine ⟨h.startReturns _ fun issuer hi => ?_, hdisk _⟩
          rw [newIssuer_migrated hchecked hmigrate] at hi
          cases hi
        · refine ⟨h.update (.migrating options found migrated saveOps) rfl rfl ?_, rfl⟩
          refine ⟨?_, Disk.underway_saveOps _ _, fun hrename => absurd (by decide) hrename⟩
          rcases load_loadable hfits hload with ⟨rfl, _⟩ | ⟨state, text, rfl, hcurrent, htext⟩
          · cases hmigrate
          · exact ⟨policyDigest, state, text, hchecked, rfl, htext, hmigrate, fun _ => hcurrent⟩
  | _ =>
      rw [stepLoad, hproc] at hs
      cases hs

end Shown

/-- Once a migration has done its rename, its file is one that can be read. -/
theorem MigrationShown.size_perform {disk : Disk} {options : IssuerOptions} {found : Option State}
    {migrated : State} {op : SaveOp} {rest : List SaveOp} {data : Bytes}
    (h : MigrationShown rt disk options found migrated (op :: rest))
    (hgo : (Process.migrating options found migrated (op :: rest)).mayGoOn = true)
    (hrest : SaveOp.rename ∉ rest) (hdata : migrated.marshal = .ok data) :
    data.length ≤ maxStateBytes := by
  by_cases hop : op = .rename
  · subst hop
    rw [Process.mayGoOn, hdata] at hgo
    exact of_decide_eq_true hgo
  · exact h.size (List.not_mem_cons_of_ne_of_not_mem (Ne.symm hop) hrest) data hdata

namespace Shown

/-- A file operation of a migration. -/
theorem migrating (hreads : ReadsStates rt) (h : Shown rt path s)
    (hquiet : ∀ q ≠ p, (s.procs q).Quiet) {options : IssuerOptions} {found : Option State}
    {migrated : State} {ops : List SaveOp} {outcome : Except Error Unit}
    (hproc : s.procs p = .migrating options found migrated ops)
    (horderly : Orderly s (.fileOp p outcome))
    (hs : stepFileOp rt s p outcome = some s') :
    Shown rt path s' ∧ Grows rt s.disk s'.disk := by
  have hshown : MigrationShown rt s.disk options found migrated ops := h.proc hproc
  obtain ⟨policyDigest, state, text, hchecked, rfl, htext, hmigrate, hcurrent⟩ := hshown.migrate
  have hunderway := hshown.underway
  obtain ⟨other, grant, raw, hother, _, hgrant, hcompleted⟩ := migrate_eq_some.mp hmigrate
  obtain rfl := Option.some.inj hother
  obtain ⟨_, hpolicy, _⟩ := checkOptions_eq_ok.mp hchecked
  have hutf8 : migrated.Utf8 := hcompleted ▸ utf8_completed hpolicy hgrant htext.valid
  have hnew := newIssuer_migrated hchecked hmigrate
  obtain ⟨op, rest, rfl, hcases⟩ := stepFileOp_migrating hproc hs
  rcases hcases with ⟨e, rfl, rfl⟩ | ⟨disk, rfl, hperform, hcases⟩
  · rw [hnew]
    exact ⟨h.startReturns _ fun issuer hi => (by cases hi), Grows.of_eq rfl⟩
  · have hgo : (Process.migrating options (some state) migrated (op :: rest)).mayGoOn = true :=
      hproc ▸ horderly
    have hgrows : Grows rt s.disk disk := by
      apply grows_perform (fun data hdata => hreads _ _ hutf8 hdata) _ hperform
      rintro rfl old ⟨data, hold, hdecode⟩
      obtain rfl : data = text :=
        Option.some.inj (hold.symm.trans (hcurrent List.mem_cons_self))
      obtain rfl : state = old := Except.ok.inj (htext.decode.symm.trans hdecode)
      rw [← hcompleted]
      exact ⟨UInt64.le_refl _, le_rfl⟩
    rcases hcases with ⟨rfl, rfl⟩ | ⟨_, rfl⟩
    · rw [hnew]
      change Shown rt path (System.startReturns _ p (startIssuer rt options policyDigest _)) ∧
        Grows rt s.disk (System.startReturns _ p (startIssuer rt options policyDigest _)).disk
      cases hstart : startIssuer rt options policyDigest (some migrated) with
      | error e => exact ⟨of_quiet hquiet .idle rfl trivial, hgrows⟩
      | ok issuer =>
          obtain ⟨next, _, rfl⟩ := startIssuer_eq_ok.mp hstart
          obtain ⟨data, hdata, hdurable⟩ := hunderway.durable hperform
          obtain ⟨hload, hstrict⟩ := loadable_completed hreads hchecked hmigrate htext hdata
            (hshown.size_perform hgo List.not_mem_nil hdata)
          refine ⟨of_quiet hquiet (.ready _) rfl (Or.inr (Or.inr ⟨data, ?_, hload, hstrict⟩)),
            hgrows⟩
          exact (List.cons.inj hdurable).1
    · refine ⟨of_quiet hquiet (.migrating options (some state) migrated rest) rfl ?_, hgrows⟩
      refine ⟨⟨policyDigest, state, text, hchecked, rfl, htext, hmigrate, fun hrename => ?_⟩,
        hunderway.perform hperform, fun hrest data => hshown.size_perform hgo hrest⟩
      exact (hunderway.current_eq hrename hperform).trans
        (hcurrent (List.mem_cons_of_mem _ hrename))

/-- A file operation of the save of an `Issue`. -/
theorem saving (hreads : ReadsStates rt) (hinv : Inv rt O C pub s) (h : Shown rt path s)
    {issuer : Issuer} {clock : ℤ} {loaded : Except Error Catalog} {next : State} {ops : List SaveOp}
    {outcome : Except Error Unit} (hproc : s.procs p = .saving issuer clock loaded next ops)
    (horderly : Orderly s (.fileOp p outcome)) (hs : stepFileOp rt s p outcome = some s') :
    Shown rt path s' ∧ Grows rt s.disk s'.disk := by
  obtain ⟨hp, hi, hpending, _, hunderway⟩ := hinv.proc hproc
  obtain ⟨hsave, hshows⟩ := h.proc hproc
  obtain ⟨envelope, _, hplan, hissue⟩ := issue_of_pending hpending
  obtain ⟨catalog, _, hpublishes⟩ := hi.sound.publishes hplan
  have hvalid : validate next false = .ok () := by
    unfold checkSave at hsave
    split_ifs at hsave
    exact hsave
  obtain ⟨op, rest, rfl, hcases⟩ := stepFileOp_saving hproc hs
  rcases hcases with ⟨e, rfl, rfl⟩ | ⟨disk, rfl, hperform, hcases⟩
  · have hrename : (Process.saving issuer clock loaded next (op :: rest)).mayFail = true :=
      hproc ▸ horderly
    have hstill := hshows (of_decide_eq_true hrename)
    rw [hissue]
    have hfailed := issuer.failed_state (Time.truncateSecond clock)
      (.wrap "issuer: persist monotonic state before publish: %w" [] (op.failure e))
    exact ⟨h.issueReturns (Or.inr hstill) hfailed.1 hfailed.2, Grows.of_eq rfl⟩
  · have hgrows : Grows rt s.disk disk := by
      apply grows_perform (fun data hdata => hreads _ _ hpublishes.utf8 hdata) _ hperform
      rintro rfl old hold
      obtain ⟨rfl, hzero⟩ := (hshows List.mem_cons_self).eq_of_holds hold
      have hbehind := (hi.sound.ahead hplan).2 hzero
      exact ⟨hbehind.revision, hbehind.issuedAt⟩
    have hquiet := hinv.quiet (Or.inr hp)
    rcases hcases with ⟨rfl, rfl⟩ | ⟨_, rfl⟩
    · rw [hissue]
      obtain ⟨data, hdata, hdurable⟩ := hunderway.durable hperform
      have hload := hpublishes.loadable hreads hvalid hdata
      refine ⟨of_quiet hquiet (.ready _) rfl (Or.inr (Or.inr ⟨data, ?_, hload, hvalid⟩)), hgrows⟩
      exact (List.cons.inj hdurable).1
    · refine ⟨of_quiet hquiet (.saving issuer clock loaded next rest) rfl
        ⟨hsave, fun hrename => ?_⟩, hgrows⟩
      exact (hshows (List.mem_cons_of_mem _ hrename)).of_current
        (hunderway.current_eq hrename hperform)

/-- Every orderly step keeps what is known and does not take the path back. -/
theorem step (hreads : ReadsStates rt) (hinv : Inv rt O C pub s) (h : Shown rt path s)
    {action : Action} (horderly : Orderly s action) (hs : Service.step rt path s action = some s') :
    Shown rt path s' ∧ Grows rt s.disk s'.disk := by
  cases action with
  | load p answers =>
      obtain ⟨hshown, hdisk⟩ := h.load hs
      exact ⟨hshown, hdisk ▸ Grows.of_eq rfl⟩
  | fileOp p outcome =>
      cases hproc : s.procs p with
      | migrating options found migrated ops =>
          exact h.migrating hreads (hinv.quiet (Or.inr (hinv.proc hproc).1)) hproc horderly hs
      | saving issuer clock loaded next ops => exact h.saving hreads hinv hproc horderly hs
      | _ =>
          rw [Service.step, stepFileOp, hproc] at hs
          cases hs
  | start p options answers =>
      cases step_effect hs with
      | refused => exact ⟨h, Grows.of_eq rfl⟩
      | acquired hoptions hfree =>
          exact ⟨h.update (.locked options _) rfl rfl hoptions, Grows.of_eq rfl⟩
  | issue p clock loaded =>
      cases step_effect hs with
      | answered hproc hpending =>
          rcases issue_of_pending_none hpending fun _ => .ok () with
            ⟨answer, _, hissue⟩ | ⟨e, hissue⟩
          · rw [hissue]
            exact ⟨h.issueReturns (h.proc hproc) rfl rfl, Grows.of_eq rfl⟩
          · rw [hissue]
            exact ⟨h.issueReturns (h.proc hproc) (Issuer.failed_state ..).1
              (Issuer.failed_state ..).2, Grows.of_eq rfl⟩
      | unsaved hproc hpending e =>
          obtain ⟨envelope, _, _, hissue⟩ := issue_of_pending hpending
          rw [hissue]
          exact ⟨h.issueReturns (h.proc hproc) (Issuer.failed_state ..).1
            (Issuer.failed_state ..).2, Grows.of_eq rfl⟩
      | @saves _ issuer _ _ next hproc hpending hsave =>
          have hissuer := (h.proc hproc).resolve_left (Issuer.not_closed_of_pending hpending)
          exact ⟨h.update (.saving issuer clock loaded next saveOps) rfl rfl
            ⟨hsave, fun _ => hissuer⟩, Grows.of_eq rfl⟩
  | close p =>
      cases step_effect hs with
      | closed hproc =>
          exact ⟨h.update (.ready _) rfl rfl (Or.inl (Issuer.closed_close _)), Grows.of_eq rfl⟩
  | crash p =>
      cases step_effect hs with
      | crashed => exact ⟨h.update .idle rfl rfl trivial, Grows.of_eq rfl⟩
  | powerLoss content => exact horderly.elim

end Shown

/-! ## Whole runs -/

theorem orderlyRun_append {front back : List Action}
    (h : OrderlyRun rt path s (front ++ back)) :
    OrderlyRun rt path s front ∧ ∀ s', run rt path s front = some s' →
      OrderlyRun rt path s' back := by
  induction front generalizing s with
  | nil => exact ⟨trivial, fun s' hs => Option.some.inj hs ▸ h⟩
  | cons action rest ih =>
      refine ⟨⟨h.1, fun s' hs => (ih (h.2 s' hs)).1⟩, fun s' hrun => ?_⟩
      obtain ⟨next, hstep, hrest⟩ := runs_cons.mp hrun
      exact (ih (h.2 next hstep)).2 s' hrest

theorem shown_run (hreads : ReadsStates rt) {actions : List Action}
    (hinv : ∃ pub, Inv rt (fun _ => True) (fun _ => True) pub s) (h : Shown rt path s)
    (horderly : OrderlyRun rt path s actions) (hrun : run rt path s actions = some s') :
    (∃ pub, Inv rt (fun _ => True) (fun _ => True) pub s') ∧ Shown rt path s' ∧
      Grows rt s.disk s'.disk := by
  induction actions generalizing s with
  | nil =>
      obtain rfl : s = s' := Option.some.inj hrun
      exact ⟨hinv, h, Grows.of_eq rfl⟩
  | cons action rest ih =>
      obtain ⟨next, hstep, hrest⟩ := runs_cons.mp hrun
      obtain ⟨pub, hpub⟩ := hinv
      obtain ⟨hnext, hgrows⟩ := h.step hreads hpub horderly.1 hstep
      obtain ⟨hinv', hshown, hgrows'⟩ := ih (hpub.step hreads action.allowed_true hstep) hnext
        (horderly.2 next hstep) hrest
      exact ⟨hinv', hshown, hgrows.trans hgrows'⟩

/-- In every orderly run, at every point at which an issuer is between two calls: `Load` returns
the state that the issuer has, a start has that state too, and the catalog revision and the
issuance time at the path are not behind those of any earlier point. -/
theorem restart_transparent (hreads : ReadsStates rt) (hpath : path ≠ []) {content : Option Bytes}
    {front back : List Action} (hfront : run rt path (.initial content) front = some s)
    (hback : run rt path s back = some s')
    (horderly : OrderlyRun rt path (.initial content) (front ++ back)) :
    (∀ p issuer, s'.procs p = .ready issuer → issuer.closed = false →
      ∀ answers, Healthy s'.disk answers →
        ((load rt path answers = .ok none ∧ issuer.state = .empty) ∨
          load rt path answers = .ok (some issuer.state)) ∧
        ∀ options save issuer',
          newIssuer rt options (.ok ()) (load rt path answers) save = .ok issuer' →
            issuer'.state = issuer.state) ∧
    ∀ state, Holds rt s.disk.current state → ∃ state', Holds rt s'.disk.current state' ∧
      state.catalogRevision ≤ state'.catalogRevision ∧
        state.lastIssuedAt ≤ state'.lastIssuedAt := by
  obtain ⟨hbefore, hafter⟩ := orderlyRun_append horderly
  obtain ⟨hinv, hshown, _⟩ :=
    shown_run hreads (inv_start content) (fun _ => trivial) hbefore hfront
  obtain ⟨_, hshown', hgrows⟩ := shown_run hreads hinv hshown (hafter s hfront) hback
  refine ⟨fun p issuer hproc hopen answers hanswers => ?_, hgrows⟩
  have hshows : Shows rt s'.disk issuer.state := by
    rcases hshown'.proc hproc with hclosed | hshows
    · rw [hopen] at hclosed
      cases hclosed
    · exact hshows
  exact ⟨hshows.load hpath hanswers, fun options save issuer' hnew =>
    hshows.restart hpath hanswers hnew⟩

namespace Sample

open Manifest.Sample

def revised (revision : UInt64) : Catalog := { Manifest.Sample.catalog with revision := revision }

def noted (version revision : UInt64) (issuedAt : ℤ) : State :=
  { recorded rotated 1 1 version with
    catalogRevision := revision
    catalogSHA256 := Runtime.toy.digest (canonicalCatalog .toy (revised revision)).marshal
    lastIssuedAt := issuedAt }

def first : State := noted 1 1 today

def lost : State := noted 2 2 (today + Duration.hour)

def again : State := noted 2 1 (today + 2 * Duration.hour)

noncomputable def restarting : Runtime := remembering [] [first, lost, again]

theorem utf8_noted (version revision : UInt64) (issuedAt : ℤ) :
    (noted version revision issuedAt).Utf8 := by
  simp only [State.Utf8, noted, recorded, keyID, utf8_digest, and_self]

theorem readsStates_restarting : ReadsStates restarting := by
  refine readsStates_remembering fun state hs => ?_
  simp only [List.mem_cons, List.not_mem_nil, or_false] at hs
  rcases hs with rfl | rfl | rfl <;> exact utf8_noted ..

def startedOnce : List Action :=
  [.start 1 (Sample.options rotated 1) lockAnswers, .load 1 missing] ++
    issuing 1 today (revised 1)

/-- A publication, and a save of revision 2 whose directory sync fails. -/
def stalled : List Action :=
  startedOnce ++ (issuing 1 (today + Duration.hour) (revised 2)).dropLast ++
    [.fileOp 1 (.error (.library "input/output error"))]

def resumed : List Action := stalled ++ issuing 1 (today + 2 * Duration.hour) (revised 1)

def observed (s : System) : Option Bytes × Option (State × Bool) :=
  (s.disk.current, match s.procs 1 with
    | .ready issuer => some (issuer.state, issuer.closed)
    | _ => none)

theorem run_stalled : (run restarting statePath (.initial none) stalled).map observed =
    some (lost.marshal.toOption, some (first, false)) := by decide +kernel

theorem run_resumed : (run restarting statePath (.initial none) resumed).map observed =
    some (again.marshal.toOption, some (again, false)) := by decide +kernel

theorem ready_of_observed {s : System} {content : Option Bytes} {state : State}
    (h : observed s = (content, some (state, false))) :
    s.disk.current = content ∧
      ∃ issuer, s.procs 1 = .ready issuer ∧ issuer.state = state ∧ issuer.closed = false := by
  obtain ⟨hcurrent, hproc⟩ := Prod.mk.inj h
  refine ⟨hcurrent, ?_⟩
  cases hready : s.procs 1 with
  | ready issuer =>
      rw [hready] at hproc
      obtain ⟨hstate, hclosed⟩ := Prod.mk.inj (Option.some.inj hproc)
      exact ⟨issuer, rfl, hstate, hclosed⟩
  | _ =>
      rw [hready] at hproc
      cases hproc

/-- A directory with the state in its file answers without an error. -/
theorem healthy_present {disk : Disk} {state : State} {data : Bytes}
    (hdata : state.marshal = .ok data) (hsize : data.length ≤ maxStateBytes)
    (hcurrent : disk.current = some data) : Healthy disk (present state) where
  directory := rfl
  absent := fun hnone => by
    rw [hnone] at hcurrent
    cases hcurrent
  present := fun other ho => by
    obtain rfl : data = other := Option.some.inj (hcurrent.symm.trans ho)
    refine ⟨rfl, ⟨⟨true, 0o600⟩, rfl, rfl, rfl⟩, ?_⟩
    rw [List.take_of_length_le (Nat.le_succ_of_le hsize)]
    exact hdata

theorem size_noted {state : State} (h : state ∈ [first, lost, again]) :
    ∃ data, state.marshal = .ok data ∧ data.length ≤ maxStateBytes := by
  have hall : ∀ state ∈ [first, lost, again],
      state.marshal.isOk = true ∧ (state.marshal.toOption.getD []).length ≤ maxStateBytes := by
    decide +kernel
  obtain ⟨hok, hsize⟩ := hall state h
  exact ⟨_, eq_ok_getD hok [], hsize⟩

theorem holds_noted {state : State} (h : state ∈ [first, lost, again]) {content : Option Bytes}
    (hcontent : content = state.marshal.toOption) : Holds restarting content state := by
  obtain ⟨data, hdata, _⟩ := size_noted h
  refine ⟨data, by rw [hcontent, hdata]; rfl, readsStates_restarting state data ?_ hdata⟩
  simp only [List.mem_cons, List.not_mem_nil, or_false] at h
  rcases h with rfl | rfl | rfl <;> exact utf8_noted ..

end Sample

open Service.Sample in
/-- The failed save has left version 2 and revision 2 at the path; the issuer is at version 1 and
revision 1, and the next publication takes the path back to revision 1. -/
theorem restart_differs :
    ∃ s s' issuer, run restarting statePath (.initial none) stalled = some s ∧
      s.procs 1 = .ready issuer ∧ issuer.closed = false ∧ Healthy s.disk (present lost) ∧
      load restarting statePath (present lost) = .ok (some lost) ∧
      issuer.state.lastVersion < lost.lastVersion ∧
      run restarting statePath (.initial none) resumed = some s' ∧
      Holds restarting s.disk.current lost ∧ Holds restarting s'.disk.current again ∧
      again.catalogRevision < lost.catalogRevision := by
  obtain ⟨s, hrun, hobserved⟩ := Option.map_eq_some_iff.mp run_stalled
  obtain ⟨s', hrun', hobserved'⟩ := Option.map_eq_some_iff.mp run_resumed
  obtain ⟨hcurrent, issuer, hready, hstate, hclosed⟩ := ready_of_observed hobserved
  obtain ⟨hcurrent', _⟩ := ready_of_observed hobserved'
  have hmem : lost ∈ [first, lost, again] := by simp
  obtain ⟨data, hdata, hsize⟩ := size_noted hmem
  have hfile : s.disk.current = some data := by
    rw [hcurrent, hdata]
    rfl
  have hversion : issuer.state.lastVersion < lost.lastVersion := by
    rw [hstate]
    decide
  refine ⟨s, s', issuer, hrun, hready, hclosed, healthy_present hdata hsize hfile, ?_, hversion,
    hrun', holds_noted hmem hcurrent, holds_noted (by simp) hcurrent', by decide⟩
  have hloads : (load restarting statePath (present lost)).toOption = some (some lost) := by
    decide +kernel
  cases hload : load restarting statePath (present lost) with
  | error e =>
      rw [hload] at hloads
      cases hloads
  | ok found =>
      rw [hload] at hloads
      rw [Option.some.inj hloads]

namespace Sample

def unsynced : List Action :=
  (issuing 1 (Manifest.Sample.today + Duration.hour) (revised 2)).take 6 ++
    [.fileOp 1 (.error (.library "no space left on device"))]

theorem run_unsynced : (run restarting statePath (.initial none) startedOnce).bind
    (fun s => (run restarting statePath s unsynced).map observed) =
      some (first.marshal.toOption, some (first, false)) := by decide +kernel

theorem orderly_unsynced :
    OrderlyRun restarting statePath (.initial none) (startedOnce ++ unsynced) := by decide +kernel

end Sample

open Service.Sample in
/-- One save is completed and the next one fails before its rename. -/
theorem restart_transparent_restarted :
    ∃ s s' issuer, run restarting statePath (.initial none) startedOnce = some s ∧
      run restarting statePath s unsynced = some s' ∧ s'.procs 1 = .ready issuer ∧
      issuer.state = first ∧ load restarting statePath (present first) = .ok (some first) := by
  obtain ⟨s, hrun, hback⟩ := Option.bind_eq_some_iff.mp run_unsynced
  obtain ⟨s', hrun', hobserved⟩ := Option.map_eq_some_iff.mp hback
  obtain ⟨hcurrent, issuer, hready, hstate, hclosed⟩ := ready_of_observed hobserved
  obtain ⟨data, hdata, hsize⟩ := size_noted (List.mem_cons_self : first ∈ [first, lost, again])
  have hfile : s'.disk.current = some data := by
    rw [hcurrent, hdata]
    rfl
  obtain ⟨hload, _⟩ := (restart_transparent readsStates_restarting (by decide) hrun hrun'
    orderly_unsynced).1 1 issuer hready hclosed (present first) (healthy_present hdata hsize hfile)
  rw [hstate] at hload
  refine ⟨s, s', issuer, hrun, hrun', hready, hstate, ?_⟩
  rcases hload with ⟨_, hempty⟩ | hload
  · have hversion : first.lastVersion = 0 := congrArg State.lastVersion hempty
    cases hversion
  · exact hload

end CloudHelp.Service
