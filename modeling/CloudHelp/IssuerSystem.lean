import CloudHelp.Issuer
import CloudHelp.Runs

/-!
# Processes that share a state path

The system of all processes that run an issuer over one state path. A step is one thing a process
does between two points at which another may come in or the machine may stop: the checks and the
lock of `NewIssuer`, its load, one file operation of a save, the rest of a call. A call returns
what `newIssuer` and `issue` say for the outcome of its save.

`flock` succeeds only while no process holds the lock, and the death of a process frees it. A
process that dies leaves the files as they are. A power failure ends every process and leaves any
content that was never replaced for good: what was there before a rename may come back until the
directory is synced.
-/

namespace CloudHelp.Service

open Manifest Issuance

inductive Process where
  | idle
  /-- in `NewIssuer`, with the lock and before the load -/
  | locked (options : IssuerOptions) (policyDigest : Bytes)
  /-- in the save of `NewIssuer`, with the operations left -/
  | migrating (options : IssuerOptions) (found : Option State) (migrated : State)
      (ops : List SaveOp)
  | ready (issuer : Issuer)
  /-- in the save of `Issue`, with the operations left -/
  | saving (issuer : Issuer) (clock : ℤ) (loaded : Except Error Catalog) (next : State)
      (ops : List SaveOp)

structure System where
  disk : Disk
  /-- the process that holds the lock -/
  holder : Option ℕ
  procs : ℕ → Process
  /-- every envelope that an `Issue` has returned, in order -/
  history : List Envelope

namespace System

def initial (content : Option Bytes) : System := ⟨⟨content, []⟩, none, fun _ => .idle, []⟩

variable (s : System)

def setProc (p : ℕ) (process : Process) : System :=
  { s with procs := Function.update s.procs p process }

/-- `NewIssuer` returns: with an issuer, or with an error and the lock closed. -/
def startReturns (p : ℕ) : Except Error Issuer → System
  | .error _ => { s.setProc p .idle with holder := none }
  | .ok issuer => s.setProc p (.ready issuer)

def issueReturns (p : ℕ) (result : Issuer × Except Error Envelope) : System :=
  { s.setProc p (.ready result.1) with
    history :=
      match result.2 with
      | .error _ => s.history
      | .ok envelope => s.history ++ [envelope] }

end System

inductive Action where
  | start (p : ℕ) (options : IssuerOptions) (answers : LockAnswers)
  | load (p : ℕ) (answers : LoadAnswers)
  | fileOp (p : ℕ) (outcome : Except Error Unit)
  | issue (p : ℕ) (clock : ℤ) (loaded : Except Error Catalog)
  | close (p : ℕ)
  | crash (p : ℕ)
  | powerLoss (content : Option Bytes)

section Step

variable (rt : Runtime) (path : Bytes) (s : System)

/-- The checks of `NewIssuer` and its lock. Without the lock the call returns an error. -/
def stepStart (p : ℕ) (options : IssuerOptions) (answers : LockAnswers) : Option System :=
  match s.procs p with
  | .idle =>
      if options.statePath ≠ path then none
      else match checkOptions rt options with
        | .error _ => some s
        | .ok policyDigest =>
            match acquireProcessLock path answers with
            | .error _ => some s
            | .ok () =>
                if s.holder = none then
                  some { s.setProc p (.locked options policyDigest) with holder := some p }
                else none
  | _ => none

/-- The load of `NewIssuer` and the rest of the call up to a save. -/
def stepLoad (p : ℕ) (answers : LoadAnswers) : Option System :=
  match s.procs p with
  | .locked options policyDigest =>
      if s.disk.fits answers = false then none
      else match load rt path answers with
        | .error e => some (s.startReturns p (.error e))
        | .ok found =>
            match migrate options policyDigest found with
            | .ok (some migrated) =>
                match checkSave path migrated with
                | .error e =>
                    some (s.startReturns p
                      (newIssuer rt options (.ok ()) (.ok found) fun _ => .error e))
                | .ok () => some (s.setProc p (.migrating options found migrated saveOps))
            | _ =>
                some (s.startReturns p (newIssuer rt options (.ok ()) (.ok found) fun _ => .ok ()))
  | _ => none

/-- The next file operation of a save, and the rest of the call when it is the last or fails. -/
def stepFileOp (p : ℕ) (outcome : Except Error Unit) : Option System :=
  match s.procs p with
  | .migrating options found migrated (op :: ops) =>
      match outcome with
      | .error e =>
          some (s.startReturns p
            (newIssuer rt options (.ok ()) (.ok found) fun _ => .error (op.failure e)))
      | .ok () =>
          match s.disk.perform migrated op with
          | none => none
          | some disk =>
              if ops = [] then
                some ({ s with disk := disk }.startReturns p
                  (newIssuer rt options (.ok ()) (.ok found) fun _ => .ok ()))
              else some ({ s with disk := disk }.setProc p (.migrating options found migrated ops))
  | .saving issuer clock loaded next (op :: ops) =>
      match outcome with
      | .error e =>
          some (s.issueReturns p (issuer.issue rt clock loaded fun _ => .error (op.failure e)))
      | .ok () =>
          match s.disk.perform next op with
          | none => none
          | some disk =>
              if ops = [] then
                some ({ s with disk := disk }.issueReturns p
                  (issuer.issue rt clock loaded fun _ => .ok ()))
              else some ({ s with disk := disk }.setProc p (.saving issuer clock loaded next ops))
  | _ => none

def stepIssue (p : ℕ) (clock : ℤ) (loaded : Except Error Catalog) : Option System :=
  match s.procs p with
  | .ready issuer =>
      match issuer.pending rt clock loaded with
      | none => some (s.issueReturns p (issuer.issue rt clock loaded fun _ => .ok ()))
      | some next =>
          match checkSave path next with
          | .error e => some (s.issueReturns p (issuer.issue rt clock loaded fun _ => .error e))
          | .ok () => some (s.setProc p (.saving issuer clock loaded next saveOps))
  | _ => none

def stepClose (p : ℕ) : Option System :=
  match s.procs p with
  | .ready issuer =>
      some { s.setProc p (.ready issuer.close.1) with
        holder := if issuer.close.2 = true then none else s.holder }
  | _ => none

def step : Action → Option System
  | .start p options answers => stepStart rt path s p options answers
  | .load p answers => stepLoad rt path s p answers
  | .fileOp p outcome => stepFileOp rt s p outcome
  | .issue p clock loaded => stepIssue rt path s p clock loaded
  | .close p => stepClose s p
  | .crash p =>
      some { s.setProc p .idle with holder := if s.holder = some p then none else s.holder }
  | .powerLoss content =>
      if content ∈ s.disk.candidates then some ⟨⟨content, []⟩, none, fun _ => .idle, s.history⟩
      else none

abbrev run (actions : List Action) : Option System := runs (step rt path) s actions

end Step

/-- What a step can do to the system, one constructor for each way through the functions above. -/
inductive Effect (rt : Runtime) (path : Bytes) (s : System) : Action → System → Prop where
  | refused (p : ℕ) (options : IssuerOptions) (answers : LockAnswers) :
      Effect rt path s (.start p options answers) s
  | acquired {p : ℕ} {options : IssuerOptions} {answers : LockAnswers} {policyDigest : Bytes}
      (hoptions : checkOptions rt options = .ok policyDigest) (hfree : s.holder = none) :
      Effect rt path s (.start p options answers)
        { s.setProc p (.locked options policyDigest) with holder := some p }
  | notLoaded {p : ℕ} {answers : LoadAnswers} {options : IssuerOptions} {policyDigest : Bytes}
      (hproc : s.procs p = .locked options policyDigest) (e : Error) :
      Effect rt path s (.load p answers) (s.startReturns p (.error e))
  | started {p : ℕ} {answers : LoadAnswers} {options : IssuerOptions} {policyDigest : Bytes}
      {found : Option State} (hproc : s.procs p = .locked options policyDigest)
      (hfits : s.disk.fits answers = true) (hload : load rt path answers = .ok found)
      (save : State → Except Error Unit) :
      Effect rt path s (.load p answers)
        (s.startReturns p (newIssuer rt options (.ok ()) (.ok found) save))
  | migrates {p : ℕ} {answers : LoadAnswers} {options : IssuerOptions} {policyDigest : Bytes}
      {found : Option State} {migrated : State} (hproc : s.procs p = .locked options policyDigest)
      (hfits : s.disk.fits answers = true) (hload : load rt path answers = .ok found)
      (hmigrate : migrate options policyDigest found = .ok (some migrated)) :
      Effect rt path s (.load p answers)
        (s.setProc p (.migrating options found migrated saveOps))
  | migrationStopped {p : ℕ} {options : IssuerOptions} {found : Option State} {migrated : State}
      {ops : List SaveOp} (hproc : s.procs p = .migrating options found migrated ops)
      (outcome : Except Error Unit) (save : State → Except Error Unit) :
      Effect rt path s (.fileOp p outcome)
        (s.startReturns p (newIssuer rt options (.ok ()) (.ok found) save))
  | migrated {p : ℕ} {options : IssuerOptions} {found : Option State} {migrated : State}
      {ops : List SaveOp} (hproc : s.procs p = .migrating options found migrated ops)
      (outcome : Except Error Unit) (disk : Disk) (save : State → Except Error Unit) :
      Effect rt path s (.fileOp p outcome)
        ({ s with disk := disk }.startReturns p (newIssuer rt options (.ok ()) (.ok found) save))
  | migrating {p : ℕ} {options : IssuerOptions} {found : Option State} {migrated : State}
      {ops : List SaveOp} (hproc : s.procs p = .migrating options found migrated ops)
      (outcome : Except Error Unit) (disk : Disk) (rest : List SaveOp) :
      Effect rt path s (.fileOp p outcome)
        ({ s with disk := disk }.setProc p (.migrating options found migrated rest))
  | saveStopped {p : ℕ} {issuer : Issuer} {clock : ℤ} {loaded : Except Error Catalog}
      {next : State} {ops : List SaveOp} (hproc : s.procs p = .saving issuer clock loaded next ops)
      (outcome : Except Error Unit) (e : Error) :
      Effect rt path s (.fileOp p outcome)
        (s.issueReturns p (issuer.issue rt clock loaded fun _ => .error e))
  | saved {p : ℕ} {issuer : Issuer} {clock : ℤ} {loaded : Except Error Catalog} {next : State}
      {op : SaveOp} {disk : Disk} (hproc : s.procs p = .saving issuer clock loaded next [op])
      (hperform : s.disk.perform next op = some disk) (outcome : Except Error Unit) :
      Effect rt path s (.fileOp p outcome)
        ({ s with disk := disk }.issueReturns p (issuer.issue rt clock loaded fun _ => .ok ()))
  | saving {p : ℕ} {issuer : Issuer} {clock : ℤ} {loaded : Except Error Catalog} {next : State}
      {op : SaveOp} {ops : List SaveOp} {disk : Disk}
      (hproc : s.procs p = .saving issuer clock loaded next (op :: ops))
      (hperform : s.disk.perform next op = some disk) (outcome : Except Error Unit) :
      Effect rt path s (.fileOp p outcome)
        ({ s with disk := disk }.setProc p (.saving issuer clock loaded next ops))
  | answered {p : ℕ} {issuer : Issuer} {clock : ℤ} {loaded : Except Error Catalog}
      (hproc : s.procs p = .ready issuer) (hpending : issuer.pending rt clock loaded = none) :
      Effect rt path s (.issue p clock loaded)
        (s.issueReturns p (issuer.issue rt clock loaded fun _ => .ok ()))
  | unsaved {p : ℕ} {issuer : Issuer} {clock : ℤ} {loaded : Except Error Catalog} {next : State}
      (hproc : s.procs p = .ready issuer) (hpending : issuer.pending rt clock loaded = some next)
      (e : Error) :
      Effect rt path s (.issue p clock loaded)
        (s.issueReturns p (issuer.issue rt clock loaded fun _ => .error e))
  | saves {p : ℕ} {issuer : Issuer} {clock : ℤ} {loaded : Except Error Catalog} {next : State}
      (hproc : s.procs p = .ready issuer) (hpending : issuer.pending rt clock loaded = some next)
      (hsave : checkSave path next = .ok ()) :
      Effect rt path s (.issue p clock loaded)
        (s.setProc p (.saving issuer clock loaded next saveOps))
  | closed {p : ℕ} {issuer : Issuer} (hproc : s.procs p = .ready issuer) :
      Effect rt path s (.close p)
        { s.setProc p (.ready issuer.close.1) with
          holder := if issuer.close.2 = true then none else s.holder }
  | crashed (p : ℕ) :
      Effect rt path s (.crash p)
        { s.setProc p .idle with holder := if s.holder = some p then none else s.holder }
  | lostPower {content : Option Bytes} (hc : content ∈ s.disk.candidates) :
      Effect rt path s (.powerLoss content) ⟨⟨content, []⟩, none, fun _ => .idle, s.history⟩

variable {rt : Runtime} {path : Bytes} {s s' : System} {p : ℕ}

theorem stepStart_effect {options : IssuerOptions} {answers : LockAnswers}
    (h : stepStart rt path s p options answers = some s') :
    Effect rt path s (.start p options answers) s' := by
  unfold stepStart at h
  cases hproc : s.procs p with
  | idle =>
      simp only [hproc] at h
      cases hoptions : checkOptions rt options with
      | error e =>
          simp only [hoptions] at h
          split_ifs at h
          exact Option.some.inj h ▸ .refused p options answers
      | ok policyDigest =>
          cases hlock : acquireProcessLock path answers with
          | error e =>
              simp only [hoptions, hlock] at h
              split_ifs at h
              exact Option.some.inj h ▸ .refused p options answers
          | ok u =>
              simp only [hoptions, hlock] at h
              split_ifs at h with hpath hfree
              exact Option.some.inj h ▸ .acquired hoptions hfree
  | _ =>
      rw [hproc] at h
      cases h

theorem stepLoad_locked {options : IssuerOptions} {policyDigest : Bytes} {answers : LoadAnswers}
    (hproc : s.procs p = .locked options policyDigest)
    (h : stepLoad rt path s p answers = some s') :
    s.disk.fits answers = true ∧
      ((∃ e, s' = s.startReturns p (.error e)) ∨
        ∃ found, load rt path answers = .ok found ∧
          (((∀ migrated, migrate options policyDigest found ≠ .ok (some migrated)) ∧
              s' = s.startReturns p (newIssuer rt options (.ok ()) (.ok found) fun _ => .ok ())) ∨
            ∃ migrated, migrate options policyDigest found = .ok (some migrated) ∧
              ((∃ e, s' = s.startReturns p
                  (newIssuer rt options (.ok ()) (.ok found) fun _ => .error e)) ∨
                (checkSave path migrated = .ok () ∧
                  s' = s.setProc p (.migrating options found migrated saveOps))))) := by
  simp only [stepLoad, hproc] at h
  by_cases hfits : s.disk.fits answers = false
  · rw [if_pos hfits] at h
    cases h
  rw [if_neg hfits] at h
  refine ⟨(Bool.not_eq_false _).mp hfits, ?_⟩
  cases hload : load rt path answers with
  | error e =>
      rw [hload] at h
      exact Or.inl ⟨e, (Option.some.inj h).symm⟩
  | ok found =>
      simp only [hload] at h
      refine Or.inr ⟨found, rfl, ?_⟩
      cases hmigrate : migrate options policyDigest found with
      | error e =>
          simp only [hmigrate] at h
          exact Or.inl ⟨fun _ hm => (by cases hm), (Option.some.inj h).symm⟩
      | ok needed =>
          cases needed with
          | none =>
              simp only [hmigrate] at h
              exact Or.inl ⟨fun _ hm => (by cases hm), (Option.some.inj h).symm⟩
          | some migrated =>
              simp only [hmigrate] at h
              refine Or.inr ⟨migrated, rfl, ?_⟩
              cases hsave : checkSave path migrated with
              | error e =>
                  simp only [hsave] at h
                  exact Or.inl ⟨e, (Option.some.inj h).symm⟩
              | ok u =>
                  simp only [hsave] at h
                  exact Or.inr ⟨rfl, (Option.some.inj h).symm⟩

theorem stepLoad_effect {answers : LoadAnswers} (h : stepLoad rt path s p answers = some s') :
    Effect rt path s (.load p answers) s' := by
  cases hproc : s.procs p with
  | locked options policyDigest =>
      obtain ⟨hfits, hcases⟩ := stepLoad_locked hproc h
      rcases hcases with ⟨e, rfl⟩ | ⟨found, hload, ⟨_, rfl⟩ | ⟨migrated, hmigrate, hcases⟩⟩
      · exact .notLoaded hproc e
      · exact .started hproc hfits hload _
      · rcases hcases with ⟨e, rfl⟩ | ⟨_, rfl⟩
        · exact .started hproc hfits hload _
        · exact .migrates hproc hfits hload hmigrate
  | _ =>
      rw [stepLoad, hproc] at h
      cases h

def fileStep (failed : Error → System) (last more : Disk → System) (performed : Option Disk)
    (rest : List SaveOp) : Except Error Unit → Option System
  | .error e => some (failed e)
  | .ok () =>
      match performed with
      | none => none
      | some disk => if rest = [] then some (last disk) else some (more disk)

theorem fileStep_eq_some {failed : Error → System} {last more : Disk → System}
    {performed : Option Disk} {rest : List SaveOp} {outcome : Except Error Unit}
    (h : fileStep failed last more performed rest outcome = some s') :
    (∃ e, outcome = .error e ∧ s' = failed e) ∨
      ∃ disk, outcome = .ok () ∧ performed = some disk ∧
        ((rest = [] ∧ s' = last disk) ∨ (rest ≠ [] ∧ s' = more disk)) := by
  cases outcome with
  | error e => exact Or.inl ⟨e, rfl, (Option.some.inj h).symm⟩
  | ok u =>
      cases performed with
      | none => cases h
      | some disk =>
          refine Or.inr ⟨disk, rfl, rfl, ?_⟩
          rw [fileStep] at h
          by_cases hrest : rest = []
          · rw [if_pos hrest] at h
            exact Or.inl ⟨hrest, (Option.some.inj h).symm⟩
          · rw [if_neg hrest] at h
            exact Or.inr ⟨hrest, (Option.some.inj h).symm⟩

theorem stepFileOp_migrating {options : IssuerOptions} {found : Option State} {migrated : State}
    {ops : List SaveOp} {outcome : Except Error Unit}
    (hproc : s.procs p = .migrating options found migrated ops)
    (h : stepFileOp rt s p outcome = some s') :
    ∃ op rest, ops = op :: rest ∧
      ((∃ e, outcome = .error e ∧ s' = s.startReturns p
          (newIssuer rt options (.ok ()) (.ok found) fun _ => .error (op.failure e))) ∨
        ∃ disk, outcome = .ok () ∧ s.disk.perform migrated op = some disk ∧
          ((rest = [] ∧ s' = { s with disk := disk }.startReturns p
              (newIssuer rt options (.ok ()) (.ok found) fun _ => .ok ())) ∨
            (rest ≠ [] ∧
              s' =
                { s with disk := disk }.setProc p (.migrating options found migrated rest)))) := by
  simp only [stepFileOp, hproc] at h
  cases ops with
  | nil => cases h
  | cons op rest =>
      have hstep : fileStep
          (fun e => s.startReturns p
            (newIssuer rt options (.ok ()) (.ok found) fun _ => .error (op.failure e)))
          (fun disk => { s with disk := disk }.startReturns p
            (newIssuer rt options (.ok ()) (.ok found) fun _ => .ok ()))
          (fun disk => { s with disk := disk }.setProc p (.migrating options found migrated rest))
          (s.disk.perform migrated op) rest outcome = some s' := h
      exact ⟨op, rest, rfl, fileStep_eq_some hstep⟩

theorem stepFileOp_saving {issuer : Issuer} {clock : ℤ} {loaded : Except Error Catalog}
    {next : State} {ops : List SaveOp} {outcome : Except Error Unit}
    (hproc : s.procs p = .saving issuer clock loaded next ops)
    (h : stepFileOp rt s p outcome = some s') :
    ∃ op rest, ops = op :: rest ∧
      ((∃ e, outcome = .error e ∧ s' = s.issueReturns p
          (issuer.issue rt clock loaded fun _ => .error (op.failure e))) ∨
        ∃ disk, outcome = .ok () ∧ s.disk.perform next op = some disk ∧
          ((rest = [] ∧ s' = { s with disk := disk }.issueReturns p
              (issuer.issue rt clock loaded fun _ => .ok ())) ∨
            (rest ≠ [] ∧
              s' =
                { s with disk := disk }.setProc p (.saving issuer clock loaded next rest)))) := by
  simp only [stepFileOp, hproc] at h
  cases ops with
  | nil => cases h
  | cons op rest =>
      have hstep : fileStep
          (fun e => s.issueReturns p
            (issuer.issue rt clock loaded fun _ => .error (op.failure e)))
          (fun disk => { s with disk := disk }.issueReturns p
            (issuer.issue rt clock loaded fun _ => .ok ()))
          (fun disk => { s with disk := disk }.setProc p (.saving issuer clock loaded next rest))
          (s.disk.perform next op) rest outcome = some s' := h
      exact ⟨op, rest, rfl, fileStep_eq_some hstep⟩

theorem stepFileOp_effect {outcome : Except Error Unit} (h : stepFileOp rt s p outcome = some s') :
    Effect rt path s (.fileOp p outcome) s' := by
  cases hproc : s.procs p with
  | migrating options found migrated ops =>
      obtain ⟨op, rest, rfl, hcases⟩ := stepFileOp_migrating hproc h
      rcases hcases with ⟨e, rfl, rfl⟩ | ⟨disk, rfl, _, ⟨_, rfl⟩ | ⟨_, rfl⟩⟩
      · exact .migrationStopped hproc _ _
      · exact .migrated hproc _ disk _
      · exact .migrating hproc _ disk rest
  | saving issuer clock loaded next ops =>
      obtain ⟨op, rest, rfl, hcases⟩ := stepFileOp_saving hproc h
      rcases hcases with ⟨e, rfl, rfl⟩ | ⟨disk, rfl, hperform, ⟨rfl, rfl⟩ | ⟨_, rfl⟩⟩
      · exact .saveStopped hproc _ _
      · exact .saved hproc hperform _
      · exact .saving hproc hperform _
  | _ =>
      rw [stepFileOp, hproc] at h
      cases h

theorem stepIssue_effect {clock : ℤ} {loaded : Except Error Catalog}
    (h : stepIssue rt path s p clock loaded = some s') :
    Effect rt path s (.issue p clock loaded) s' := by
  unfold stepIssue at h
  cases hproc : s.procs p with
  | ready issuer =>
      simp only [hproc] at h
      cases hpending : issuer.pending rt clock loaded with
      | none =>
          simp only [hpending] at h
          exact Option.some.inj h ▸ .answered hproc hpending
      | some next =>
          simp only [hpending] at h
          cases hsave : checkSave path next with
          | error e =>
              simp only [hsave] at h
              exact Option.some.inj h ▸ .unsaved hproc hpending e
          | ok u =>
              simp only [hsave] at h
              exact Option.some.inj h ▸ .saves hproc hpending hsave
  | _ =>
      rw [hproc] at h
      cases h

/-- Every step has one of the effects. -/
theorem step_effect {action : Action} (h : step rt path s action = some s') :
    Effect rt path s action s' := by
  cases action with
  | start p options answers => exact stepStart_effect h
  | load p answers => exact stepLoad_effect h
  | fileOp p outcome => exact stepFileOp_effect h
  | issue p clock loaded => exact stepIssue_effect h
  | close p =>
      rw [step, stepClose] at h
      cases hproc : s.procs p with
      | ready issuer =>
          rw [hproc] at h
          exact Option.some.inj h ▸ .closed hproc
      | _ =>
          rw [hproc] at h
          cases h
  | crash p => exact Option.some.inj h ▸ .crashed p
  | powerLoss content =>
      rw [step] at h
      split_ifs at h with hc
      exact Option.some.inj h ▸ .lostPower hc

/-! ## What a call returns -/

/-- An `Issue` that does not get to its save does not depend on it. -/
theorem issue_of_pending_none {issuer : Issuer} {clock : ℤ} {loaded : Except Error Catalog}
    (h : issuer.pending rt clock loaded = none) (save : State → Except Error Unit) :
    (∃ answer, issuer.serve (Time.truncateSecond clock) = some answer ∧
        issuer.issue rt clock loaded save = (issuer, answer)) ∨
      ∃ e, issuer.issue rt clock loaded save = issuer.failed (Time.truncateSecond clock) e := by
  unfold Issuer.pending at h
  unfold Issuer.issue
  cases hserve : issuer.serve (Time.truncateSecond clock) with
  | some answer =>
      refine Or.inl ⟨answer, rfl, ?_⟩
      simp only [hserve]
  | none =>
      simp only [hserve] at h ⊢
      cases hplan : issuer.plan rt (Time.truncateSecond clock) loaded with
      | error e => exact Or.inr ⟨e, rfl⟩
      | ok found =>
          rw [hplan] at h
          cases h

theorem issue_of_pending {issuer : Issuer} {clock : ℤ} {loaded : Except Error Catalog}
    {next : State} (h : issuer.pending rt clock loaded = some next) :
    ∃ envelope, issuer.serve (Time.truncateSecond clock) = none ∧
      issuer.plan rt (Time.truncateSecond clock) loaded = .ok (envelope, next) ∧
      ∀ save, issuer.issue rt clock loaded save =
        issuer.settle (Time.truncateSecond clock) envelope next (save next) := by
  unfold Issuer.pending at h
  cases hserve : issuer.serve (Time.truncateSecond clock) with
  | some answer =>
      rw [hserve] at h
      cases h
  | none =>
      cases hplan : issuer.plan rt (Time.truncateSecond clock) loaded with
      | error e =>
          rw [hserve, hplan] at h
          cases h
      | ok found =>
          obtain ⟨envelope, next'⟩ := found
          rw [hserve, hplan] at h
          obtain rfl : next' = next := Option.some.inj h
          refine ⟨envelope, rfl, rfl, fun save => ?_⟩
          simp only [Issuer.issue, hserve, hplan]

end CloudHelp.Service
