import CloudHelp.Continuity

/-!
# What a refused start leaves behind

`NewIssuer` with the state file and the process lock as it finds and leaves them, for starts whose
save has no failing file operation. Whatever it refuses, it closes the lock. The file stays as it
was except in one case: a state without policy fields is completed and saved before the signing
key is looked at, so a start whose key may not sign the next version has bound the state to its
policy all the same (`Rebound`).
-/

namespace CloudHelp.Service

open Manifest Issuance

/-- What a start can change: the file at the state path and whether it holds the process lock. -/
structure Place where
  file : Option Bytes
  locked : Bool
  deriving DecidableEq

namespace Place

def close (place : Place) : Place := { place with locked := false }

/-- `Save` with file operations that succeed. -/
def save (place : Place) (path : Bytes) (state : State) : Except Error Unit × Place :=
  match checkSave path state with
  | .error e => (.error e, place)
  | .ok () =>
      match state.marshal with
      | .error e => (.error (SaveOp.encode.failure e), place)
      | .ok data => (.ok (), { place with file := some data })

end Place

section Open

variable (rt : Runtime) (options : IssuerOptions)

/-- `NewIssuer` from the point where the durable state is known and complete. -/
def openFound (policyDigest : Bytes) (found : Option State) (place : Place) :
    Except Error Issuer × Place :=
  match nextVersion options policyDigest found with
  | .error e => (.error e, place.close)
  | .ok next =>
      match keyPolicyGrant options.keyPolicy (keyID rt (publicKey options.privateKey)) next with
      | .error e =>
          (.error (.wrap
            "issuer: current signing key is not authorized for the next version: %w" [] e),
            place.close)
      | .ok (grant, _) =>
          match checkKey (keyID rt (publicKey options.privateKey)) grant.epoch found with
          | .error e => (.error e, place.close)
          | .ok () =>
              (.ok (freshIssuer rt options policyDigest grant.epoch (found.getD .empty)), place)

def openLocked (policyDigest : Bytes) (answers : LoadAnswers) (place : Place) :
    Except Error Issuer × Place :=
  match load rt options.statePath answers with
  | .error e => (.error e, place.close)
  | .ok found =>
      match migrate options policyDigest found with
      | .error e => (.error e, place.close)
      | .ok none => openFound rt options policyDigest found place
      | .ok (some migrated) =>
          match place.save options.statePath migrated with
          | (.error e, place) =>
              (.error (.wrap "issuer: migrate legacy state to offline-root policy: %w" [] e),
                place.close)
          | (.ok (), place) => openFound rt options policyDigest (some migrated) place

def openIssuer (lock : LockAnswers) (answers : LoadAnswers) (place : Place) :
    Except Error Issuer × Place :=
  match checkOptions rt options with
  | .error e => (.error e, place)
  | .ok policyDigest =>
      match acquireProcessLock options.statePath lock with
      | .error e => (.error e, place)
      | .ok () => openLocked rt options policyDigest answers { place with locked := true }

end Open

variable {rt : Runtime} {options : IssuerOptions} {lock : LockAnswers} {answers : LoadAnswers}
  {place place' : Place} {policyDigest : Bytes}

/-! ## The result -/

theorem openFound_eq (found : Option State) (place : Place) :
    openFound rt options policyDigest found place =
      match startIssuer rt options policyDigest found with
      | .error e => (.error e, place.close)
      | .ok issuer => (.ok issuer, place) := by
  unfold openFound startIssuer
  cases nextVersion options policyDigest found with
  | error e => rfl
  | ok next =>
      simp only
      cases keyPolicyGrant options.keyPolicy (keyID rt (publicKey options.privateKey)) next with
      | error e => rfl
      | ok granted =>
          simp only
          cases checkKey (keyID rt (publicKey options.privateKey)) granted.1.epoch found with
          | error e => rfl
          | ok u => rfl

/-- The result is that of `newIssuer`. -/
theorem openIssuer_fst (lock : LockAnswers) (answers : LoadAnswers) (place : Place) :
    (openIssuer rt options lock answers place).1 =
      newIssuer rt options (acquireProcessLock options.statePath lock)
        (load rt options.statePath answers) fun state =>
          (place.save options.statePath state).1 := by
  unfold openIssuer newIssuer
  cases checkOptions rt options with
  | error e => rfl
  | ok policyDigest =>
      simp only
      cases acquireProcessLock options.statePath lock with
      | error e => rfl
      | ok u =>
          simp only [openLocked]
          cases load rt options.statePath answers with
          | error e => rfl
          | ok found =>
              simp only
              cases migrate options policyDigest found with
              | error e => rfl
              | ok needed =>
                  cases needed with
                  | none =>
                      simp only [openFound_eq]
                      cases startIssuer rt options policyDigest found <;> rfl
                  | some migrated =>
                      simp only [Place.save, openFound_eq]
                      cases checkSave options.statePath migrated with
                      | error e => rfl
                      | ok u =>
                          simp only
                          cases migrated.marshal with
                          | error e => rfl
                          | ok data =>
                              simp only
                              cases startIssuer rt options policyDigest (some migrated) <;> rfl

/-! ## The start of a process among others -/

structure Agrees (s : System) (p : ℕ) (result : Except Error Issuer × Place) : Prop where
  file : s.disk.current = result.2.file
  lock : s.holder = if result.2.locked = true then some p else none
  proc : s.procs p = match result.1 with
    | .error _ => .idle
    | .ok issuer => .ready issuer

/-- Steps of the system lead to where a start with the result leaves the process. -/
def Starts (rt : Runtime) (path : Bytes) (s : System) (p : ℕ)
    (result : Except Error Issuer × Place) : Prop :=
  ∃ actions s', run rt path s actions = some s' ∧ Agrees s' p result

section Starts

variable {path : Bytes} {s s' : System} {p : ℕ} {found : Option State} {migrated : State}
  {result : Except Error Issuer × Place}

theorem Starts.step {action : Action} (hstep : step rt path s action = some s')
    (h : Starts rt path s' p result) : Starts rt path s p result := by
  obtain ⟨actions, last, hrun, hagrees⟩ := h
  exact ⟨action :: actions, last, runs_cons.mpr ⟨s', hstep, hrun⟩, hagrees⟩

theorem starts_startReturns (hholder : s.holder = some p) (result : Except Error Issuer) :
    Starts rt path (s.startReturns p result) p (result, ⟨s.disk.current, result.isOk⟩) := by
  refine ⟨[], _, rfl, ?_⟩
  cases result with
  | error e => exact ⟨rfl, rfl, Function.update_self ..⟩
  | ok issuer => exact ⟨rfl, hholder, Function.update_self ..⟩

/-- Operations of a migration that succeed and do not end it. -/
theorem starts_migrating (done : List SaveOp) {rest : List SaveOp} {disk : Disk} (hrest : rest ≠ [])
    (hproc : s.procs p = .migrating options found migrated (done ++ rest))
    (hdisk : done.foldlM (fun disk op => disk.perform migrated op) s.disk = some disk)
    (hlast : ∀ t : System, t.disk = disk → t.holder = s.holder →
      t.procs p = .migrating options found migrated rest → Starts rt path t p result) :
    Starts rt path s p result := by
  induction done generalizing s with
  | nil => exact hlast s (Option.some.inj hdisk) rfl hproc
  | cons op done ih =>
      obtain ⟨next, hperform, hnext⟩ := Option.bind_eq_some_iff.mp hdisk
      have hne : done ++ rest ≠ [] := fun h => hrest (List.append_eq_nil_iff.mp h).2
      have hstep : Service.step rt path s (.fileOp p (.ok ())) =
          some ({ s with disk := next }.setProc p
            (.migrating options found migrated (done ++ rest))) := by
        simp only [Service.step, stepFileOp, hproc, List.cons_append, hperform, if_neg hne]
      exact Starts.step hstep (ih (Function.update_self ..) hnext hlast)

variable {result : Except Error Unit → Except Error Issuer}
  (hresult : ∀ save, newIssuer rt options (.ok ()) (.ok found) save = result (save migrated))

include hresult

/-- The rest of a migration whose operations all succeed. -/
theorem starts_migrated {data : Bytes} (htext : migrated.marshal = .ok data) {ops : List SaveOp}
    (hops : ops ≠ []) (hunderway : s.disk.Underway migrated ops) (hholder : s.holder = some p)
    (hproc : s.procs p = .migrating options found migrated ops) :
    Starts rt path s p (result (.ok ()), ⟨some data, (result (.ok ())).isOk⟩) := by
  induction ops generalizing s with
  | nil => exact absurd rfl hops
  | cons op ops ih =>
      obtain ⟨disk, hperform⟩ := s.disk.exists_perform htext op
      by_cases hlast : ops = []
      · subst hlast
        have hstep : Service.step rt path s (.fileOp p (.ok ())) =
            some (({ s with disk := disk } : System).startReturns p (result (.ok ()))) := by
          simp only [Service.step, stepFileOp, hproc, hresult, hperform, if_true]
        obtain ⟨data', hdata', hdurable⟩ := hunderway.durable hperform
        obtain rfl : data = data' := Except.ok.inj (htext.symm.trans hdata')
        have hcurrent : disk.current = some data := (List.cons.inj hdurable).1
        rw [← hcurrent]
        exact Starts.step hstep (starts_startReturns (s := { s with disk := disk }) hholder _)
      · have hstep : Service.step rt path s (.fileOp p (.ok ())) =
            some ({ s with disk := disk }.setProc p (.migrating options found migrated ops)) := by
          simp only [Service.step, stepFileOp, hproc, hperform, if_neg hlast]
        exact Starts.step hstep
          (ih hlast (hunderway.perform hperform) hholder (Function.update_self ..))

/-- A migration whose encoder fails, after four operations that leave the file alone. -/
theorem starts_unencoded (e : Error) (hholder : s.holder = some p)
    (hproc : s.procs p = .migrating options found migrated saveOps) :
    Starts rt path s p (result (.error (SaveOp.encode.failure e)),
      ⟨s.disk.current, (result (.error (SaveOp.encode.failure e))).isOk⟩) := by
  refine starts_migrating [.mkdirAll, .checkDirectory, .createTemp, .chmod]
    (List.cons_ne_nil _ _) hproc rfl fun t hdisk hheld htproc => ?_
  have hstep : Service.step rt path t (.fileOp p (.error e)) =
      some (t.startReturns p (result (.error (SaveOp.encode.failure e)))) := by
    simp only [Service.step, stepFileOp, htproc, hresult]
  rw [← hdisk]
  exact Starts.step hstep (starts_startReturns (hheld.trans hholder) _)

omit hresult

def afterSave (rt : Runtime) (options : IssuerOptions) (policyDigest : Bytes) (migrated : State) :
    Except Error Unit → Except Error Issuer
  | .error e => .error (.wrap "issuer: migrate legacy state to offline-root policy: %w" [] e)
  | .ok () => startIssuer rt options policyDigest (some migrated)

theorem newIssuer_migrated (hchecked : checkOptions rt options = .ok policyDigest)
    (hmigrate : migrate options policyDigest found = .ok (some migrated))
    (save : State → Except Error Unit) :
    newIssuer rt options (.ok ()) (.ok found) save =
      afterSave rt options policyDigest migrated (save migrated) := by
  simp only [newIssuer, hchecked, hmigrate]
  cases save migrated with
  | error e => rfl
  | ok u => rfl

theorem openFound_locked (found : Option State) (file : Option Bytes) :
    openFound rt options policyDigest found ⟨file, true⟩ =
      (startIssuer rt options policyDigest found,
        ⟨file, (startIssuer rt options policyDigest found).isOk⟩) := by
  rw [openFound_eq]
  cases startIssuer rt options policyDigest found with
  | error e => rfl
  | ok issuer => rfl

theorem starts_openLocked (hchecked : checkOptions rt options = .ok policyDigest)
    (hproc : s.procs p = .locked options policyDigest) (hholder : s.holder = some p)
    (hfits : s.disk.fits answers = true) :
    Starts rt options.statePath s p
      (openLocked rt options policyDigest answers ⟨s.disk.current, true⟩) := by
  have hlock : ¬s.disk.fits answers = false := by simp [hfits]
  cases hload : load rt options.statePath answers with
  | error e =>
      have hstep : Service.step rt options.statePath s (.load p answers) =
          some (s.startReturns p (.error e)) := by
        simp only [Service.step, stepLoad, hproc, if_neg hlock, hload]
      simp only [openLocked, hload]
      exact Starts.step hstep (starts_startReturns hholder _)
  | ok found =>
      cases hmigrate : migrate options policyDigest found with
      | error e =>
          have hstep : Service.step rt options.statePath s (.load p answers) =
              some (s.startReturns p (.error e)) := by
            simp only [Service.step, stepLoad, hproc, if_neg hlock, hload, hmigrate, newIssuer,
              hchecked]
          simp only [openLocked, hload, hmigrate]
          exact Starts.step hstep (starts_startReturns hholder _)
      | ok needed =>
          cases needed with
          | none =>
              have hstep : Service.step rt options.statePath s (.load p answers) =
                  some (s.startReturns p (startIssuer rt options policyDigest found)) := by
                simp only [Service.step, stepLoad, hproc, if_neg hlock, hload, hmigrate, newIssuer,
                  hchecked]
              simp only [openLocked, hload, hmigrate, openFound_locked]
              exact Starts.step hstep (starts_startReturns hholder _)
          | some migrated =>
              have hresult := newIssuer_migrated hchecked hmigrate
              cases hsave : checkSave options.statePath migrated with
              | error e =>
                  have hstep : Service.step rt options.statePath s (.load p answers) =
                      some (s.startReturns p (afterSave rt options policyDigest migrated
                        (.error e))) := by
                    simp only [Service.step, stepLoad, hproc, if_neg hlock, hload, hmigrate, hsave,
                      hresult]
                  simp only [openLocked, hload, hmigrate, Place.save, hsave]
                  exact Starts.step hstep (starts_startReturns hholder _)
              | ok u =>
                  have hstep : Service.step rt options.statePath s (.load p answers) =
                      some (s.setProc p (.migrating options found migrated saveOps)) := by
                    simp only [Service.step, stepLoad, hproc, if_neg hlock, hload, hmigrate, hsave]
                  refine Starts.step hstep ?_
                  cases htext : migrated.marshal with
                  | error e =>
                      simp only [openLocked, hload, hmigrate, Place.save, hsave, htext]
                      exact starts_unencoded hresult e hholder (Function.update_self ..)
                  | ok data =>
                      simp only [openLocked, hload, hmigrate, Place.save, hsave, htext,
                        openFound_locked]
                      exact starts_migrated hresult htext (by decide)
                        (Disk.underway_saveOps _ _) hholder (Function.update_self ..)

/-- Steps of the system lead to where `openIssuer` leaves the file and the lock. -/
theorem starts_openIssuer (hpath : options.statePath = path) (hidle : s.procs p = .idle)
    (hfree : s.holder = none) (hfits : s.disk.fits answers = true) :
    Starts rt path s p (openIssuer rt options lock answers ⟨s.disk.current, false⟩) := by
  subst hpath
  cases hchecked : checkOptions rt options with
  | error e =>
      simp only [openIssuer, hchecked]
      exact ⟨[], s, rfl, rfl, hfree, hidle⟩
  | ok policyDigest =>
      cases hacquired : acquireProcessLock options.statePath lock with
      | error e =>
          simp only [openIssuer, hchecked, hacquired]
          exact ⟨[], s, rfl, rfl, hfree, hidle⟩
      | ok u =>
          have hstep : Service.step rt options.statePath s (.start p options lock) =
              some { s.setProc p (.locked options policyDigest) with holder := some p } := by
            simp only [Service.step, stepStart, hidle, hchecked, hacquired, hfree, ne_eq,
              not_true_eq_false, if_false, if_true]
          simp only [openIssuer, hchecked, hacquired]
          exact Starts.step hstep (starts_openLocked hchecked (Function.update_self ..) rfl hfits)

end Starts

/-! ## The file -/

def completed (options : IssuerOptions) (policyDigest : Bytes) (epoch : UInt64) (state : State) :
    State :=
  { state with
    keyEpoch := epoch
    policyVersion := options.keyPolicy.version
    policySHA256 := policyDigest }

theorem migrate_eq_some {found : Option State} {migrated : State} :
    migrate options policyDigest found = .ok (some migrated) ↔
      ∃ state grant raw, found = some state ∧ state.policyVersion = 0 ∧
        keyPolicyGrant options.keyPolicy state.keyID state.lastVersion = .ok (grant, raw) ∧
        completed options policyDigest grant.epoch state = migrated := by
  constructor
  · intro h
    cases found with
    | none => cases h
    | some state =>
        by_cases hlegacy : state.policyVersion = 0
        swap
        · rw [migrate, if_pos hlegacy] at h
          cases h
        rw [migrate, if_neg (not_not.mpr hlegacy)] at h
        cases hgrant : keyPolicyGrant options.keyPolicy state.keyID state.lastVersion with
        | error e =>
            rw [hgrant] at h
            cases h
        | ok granted =>
            rw [hgrant] at h
            exact ⟨state, granted.1, granted.2, rfl, hlegacy, hgrant,
              Option.some.inj (Except.ok.inj h)⟩
  · rintro ⟨state, grant, raw, rfl, hlegacy, hgrant, rfl⟩
    rw [migrate, if_neg (not_not.mpr hlegacy), hgrant]
    rfl

structure Migrates (rt : Runtime) (options : IssuerOptions) (lock : LockAnswers)
    (answers : LoadAnswers) (policyDigest : Bytes) (migrated : State) (data : Bytes) : Prop where
  checked : checkOptions rt options = .ok policyDigest
  acquired : acquireProcessLock options.statePath lock = .ok ()
  migrate : ∃ found, load rt options.statePath answers = .ok found ∧
    migrate options policyDigest found = .ok (some migrated)
  save : checkSave options.statePath migrated = .ok ()
  text : migrated.marshal = .ok data

theorem Migrates.openIssuer {migrated : State} {data : Bytes}
    (h : Migrates rt options lock answers policyDigest migrated data) (place : Place) :
    openIssuer rt options lock answers place =
      match startIssuer rt options policyDigest (some migrated) with
      | .error e => (.error e, ⟨some data, false⟩)
      | .ok issuer => (.ok issuer, ⟨some data, true⟩) := by
  obtain ⟨found, hload, hmigrate⟩ := h.migrate
  simp only [Service.openIssuer, h.checked, h.acquired, openLocked, hload, hmigrate, Place.save,
    h.save, h.text, openFound_eq]
  cases startIssuer rt options policyDigest (some migrated) with
  | error e => rfl
  | ok issuer => rfl

/-- Without a completed state to save a refused start changes nothing. -/
theorem openIssuer_unchanged (hplace : place.locked = false)
    (hnone : ∀ policyDigest migrated data,
      ¬Migrates rt options lock answers policyDigest migrated data) {e : Error}
    (h : openIssuer rt options lock answers place = (.error e, place')) : place' = place := by
  have hclose : ({ place with locked := true } : Place).close = place := by
    rw [Place.close]
    exact congrArg (Place.mk place.file) hplace.symm
  unfold openIssuer at h
  cases hchecked : checkOptions rt options with
  | error e =>
      rw [hchecked] at h
      exact (Prod.mk.inj h).2.symm
  | ok policyDigest =>
      simp only [hchecked] at h
      cases hacquired : acquireProcessLock options.statePath lock with
      | error e =>
          rw [hacquired] at h
          exact (Prod.mk.inj h).2.symm
      | ok u =>
          simp only [hacquired, openLocked] at h
          -- from here on every error closes the lock that was taken
          rw [← hclose]
          cases hload : load rt options.statePath answers with
          | error e =>
              rw [hload] at h
              exact (Prod.mk.inj h).2.symm
          | ok found =>
              simp only [hload] at h
              cases hmigrate : migrate options policyDigest found with
              | error e =>
                  rw [hmigrate] at h
                  exact (Prod.mk.inj h).2.symm
              | ok needed =>
                  cases needed with
                  | none =>
                      simp only [hmigrate, openFound_eq] at h
                      cases hstart : startIssuer rt options policyDigest found with
                      | error e =>
                          rw [hstart] at h
                          exact (Prod.mk.inj h).2.symm
                      | ok issuer =>
                          rw [hstart] at h
                          cases h
                  | some migrated =>
                      simp only [hmigrate, Place.save] at h
                      cases hsave : checkSave options.statePath migrated with
                      | error e =>
                          rw [hsave] at h
                          exact (Prod.mk.inj h).2.symm
                      | ok u =>
                          cases htext : migrated.marshal with
                          | error e =>
                              simp only [hsave, htext] at h
                              exact (Prod.mk.inj h).2.symm
                          | ok data =>
                              exact absurd
                                ⟨hchecked, hacquired, ⟨found, hload, hmigrate⟩, hsave, htext⟩
                                (hnone policyDigest migrated data)

theorem marshal_completed (epoch : UInt64) (state : State) :
    (∃ data, (completed options policyDigest epoch state).marshal = .ok data) ↔
      ∃ data, state.marshal = .ok data := by
  rw [State.marshal_iff, State.marshal_iff]
  exact Iff.rfl

theorem utf8_of_validSHA256Digest {encoded : Bytes} (h : validSHA256Digest encoded = true) :
    Utf8.validString encoded = true := by
  unfold validSHA256Digest at h
  cases hdecode : Base64Url.decodeString encoded with
  | none =>
      rw [hdecode] at h
      cases h
  | some raw => exact utf8_of_decodeString hdecode

section Completed

variable {state : State} {grant : KeyGrant} {raw : Bytes}
  (hpolicy : validateKeyPolicy rt options.keyPolicy options.rootKey = .ok policyDigest)
  (hgrant : keyPolicyGrant options.keyPolicy state.keyID state.lastVersion = .ok (grant, raw))

include hpolicy hgrant

theorem validate_completed (hvalid : validate state true = .ok ()) :
    validate (completed options policyDigest grant.epoch state) false = .ok () := by
  obtain ⟨⟨signature, hsigned⟩, hdigest⟩ := validateKeyPolicy_eq_ok.mp hpolicy
  have hshape := shape_of_ok hsigned.shape
  obtain ⟨hr, _⟩ := Issuance.validate_eq_ok.mp hvalid
  refine Issuance.validate_eq_ok.mpr
    ⟨⟨hr.key, hr.version, hr.revision, hr.issuedAt, hr.catalog⟩, Or.inr ⟨⟨?_, ?_, ?_⟩, ?_⟩⟩
  · exact (hshape.grants grant (hshape.grant_eq_ok.mp hgrant).1).epoch
  · exact hshape.version
  · change policyDigest ≠ []
    exact hdigest ▸ rt.digest_ne_nil _
  · change validSHA256Digest policyDigest = true
    exact hdigest ▸ validSHA256Digest_digest _

theorem utf8_completed (hvalid : validate state true = .ok ()) :
    (completed options policyDigest grant.epoch state).Utf8 := by
  obtain ⟨⟨signature, hsigned⟩, hdigest⟩ := validateKeyPolicy_eq_ok.mp hpolicy
  have hshape := shape_of_ok hsigned.shape
  obtain ⟨hmem, hid, _⟩ := hshape.grant_eq_ok.mp hgrant
  obtain ⟨hr, _⟩ := Issuance.validate_eq_ok.mp hvalid
  refine ⟨?_, ?_, ?_⟩
  · change Utf8.validString state.keyID = true
    exact hid ▸ (hshape.grants grant hmem).utf8.1
  · change Utf8.validString policyDigest = true
    exact hdigest ▸ utf8_digest _
  · exact utf8_of_validSHA256Digest hr.catalog

/-- A completed state lets every key go on that the policy has for the next version. -/
theorem startIssuer_completed :
    (∃ issuer, startIssuer rt options policyDigest
        (some (completed options policyDigest grant.epoch state)) = .ok issuer) ↔
      state.lastVersion ≠ maxUint64 ∧
        Authorized options.keyPolicy (keyID rt (publicKey options.privateKey))
          (state.lastVersion + 1) := by
  obtain ⟨⟨signature, hsigned⟩, hdigest⟩ := validateKeyPolicy_eq_ok.mp hpolicy
  have hshape := shape_of_ok hsigned.shape
  obtain ⟨hmem, hid, hcovers, _⟩ := hshape.grant_eq_ok.mp hgrant
  constructor
  · rintro ⟨issuer, hstart⟩
    obtain ⟨next, hstarted, _⟩ := startIssuer_eq_ok.mp hstart
    obtain ⟨version, raw', hversion, hnext⟩ := hstarted.next
    obtain ⟨hmax, _, _, rfl⟩ := nextVersion_some.mp hversion
    exact ⟨hmax, _, hnext⟩
  · rintro ⟨hmax, ⟨next, raw'⟩, hnext⟩
    obtain ⟨hmem', hid', hcovers', _⟩ := hshape.grant_eq_ok.mp hnext
    refine ⟨_, startIssuer_eq_ok.mpr ⟨next, ⟨⟨state.lastVersion + 1, raw', ?_, hnext⟩, ?_⟩, rfl⟩⟩
    · refine nextVersion_some.mpr ⟨hmax, UInt64.le_refl _, fun _ => ⟨rfl, ?_⟩, rfl⟩
      unfold consistent
      change (match keyPolicyGrant options.keyPolicy state.keyID state.lastVersion with
        | .error _ => false
        | .ok (previousGrant, _) => previousGrant.epoch == grant.epoch) = true
      rw [hgrant]
      exact beq_self_eq_true _
    · -- the grant of the next version is the same or has a later epoch
      have hle : state.lastVersion ≤ state.lastVersion + 1 := by
        rw [UInt64.le_iff_toNat_le, toNat_add_one hmax]
        exact Nat.le_succ _
      rw [checkKey_some]
      change (state.keyID = _ → grant.epoch = next.epoch) ∧
        (state.keyID ≠ _ → grant.epoch < next.epoch)
      rw [← hid, ← hid']
      refine ⟨fun he => ?_, fun hne => ?_⟩
      · rw [hshape.eq_of_keyID hmem hmem' he]
      · rcases hshape.epoch_mono hmem hmem' hcovers hcovers' hle with rfl | hlt
        · exact absurd rfl hne
        · exact hlt

end Completed

/-! ## Refused starts -/

/-- The start completes a state without policy fields for a key that may not sign the next
version. -/
def Rebound (rt : Runtime) (options : IssuerOptions) (lock : LockAnswers) (answers : LoadAnswers) :
    Prop :=
  ∃ policyDigest state, checkOptions rt options = .ok policyDigest ∧
    acquireProcessLock options.statePath lock = .ok () ∧
    load rt options.statePath answers = .ok (some state) ∧ (∃ data, state.marshal = .ok data) ∧
    state.policyVersion = 0 ∧ Authorized options.keyPolicy state.keyID state.lastVersion ∧
    (state.lastVersion = maxUint64 ∨ ¬Authorized options.keyPolicy
      (keyID rt (publicKey options.privateKey)) (state.lastVersion + 1))

theorem path_ne_nil_of_acquired {path : Bytes} (h : acquireProcessLock path lock = .ok ()) :
    path ≠ [] := by
  rintro rfl
  rw [acquireProcessLock, if_pos rfl] at h
  cases h

/-- The place, where the answers to the load come from what is there. -/
def Place.Fits (place : Place) (answers : LoadAnswers) : Prop :=
  Disk.fits ⟨place.file, []⟩ answers = true

instance (place : Place) (answers : LoadAnswers) : Decidable (place.Fits answers) :=
  inferInstanceAs (Decidable (_ = true))

theorem Rebound.migrates (h : Rebound rt options lock answers) (hfits : place.Fits answers) :
    ∃ policyDigest migrated data, Migrates rt options lock answers policyDigest migrated data := by
  obtain ⟨policyDigest, state, hchecked, hacquired, hload, htext, hlegacy, ⟨⟨grant, raw⟩, hgrant⟩,
    _⟩ := h
  obtain ⟨_, hpolicy, _⟩ := checkOptions_eq_ok.mp hchecked
  rcases load_loadable hfits hload with ⟨hnone, _⟩ | ⟨other, _, hother, _, hdata⟩
  · cases hnone
  · obtain rfl := Option.some.inj hother
    obtain ⟨data, hmarshal⟩ := (marshal_completed grant.epoch state).mpr htext
    refine ⟨policyDigest, completed options policyDigest grant.epoch state, data, hchecked,
      hacquired,
      ⟨some state, hload, migrate_eq_some.mpr ⟨state, grant, raw, rfl, hlegacy, hgrant, rfl⟩⟩, ?_,
      hmarshal⟩
    rw [checkSave, if_neg (path_ne_nil_of_acquired hacquired)]
    exact validate_completed hpolicy hgrant hdata.valid

namespace Migrates

variable {migrated : State} {data : Bytes}

/-- The file now holds the completed state, and did not before. -/
theorem file_ne (h : Migrates rt options lock answers policyDigest migrated data)
    (hreads : ReadsStates rt) (hfits : place.Fits answers) : some data ≠ place.file := by
  obtain ⟨found, hload, hmigrate⟩ := h.migrate
  obtain ⟨state, grant, raw, rfl, hlegacy, hgrant, hcompleted⟩ := migrate_eq_some.mp hmigrate
  obtain ⟨_, hpolicy, _⟩ := checkOptions_eq_ok.mp h.checked
  obtain ⟨⟨signature, hsigned⟩, _⟩ := validateKeyPolicy_eq_ok.mp hpolicy
  rcases load_loadable hfits hload with ⟨hnone, _⟩ | ⟨other, text, hother, hfile, htext⟩
  · cases hnone
  · obtain rfl := Option.some.inj hother
    have hutf8 : migrated.Utf8 := hcompleted ▸ utf8_completed hpolicy hgrant htext.valid
    intro hsame
    obtain rfl : data = text := Option.some.inj (hsame.trans hfile)
    obtain rfl : state = migrated :=
      Except.ok.inj (htext.decode.symm.trans (hreads _ _ hutf8 h.text))
    refine (shape_of_ok hsigned.shape).version (Eq.trans ?_ hlegacy)
    exact congrArg State.policyVersion hcompleted

theorem rebound (h : Migrates rt options lock answers policyDigest migrated data) {e : Error}
    (hrefused : startIssuer rt options policyDigest (some migrated) = .error e) :
    Rebound rt options lock answers := by
  obtain ⟨found, hload, hmigrate⟩ := h.migrate
  obtain ⟨state, grant, raw, rfl, hlegacy, hgrant, rfl⟩ := migrate_eq_some.mp hmigrate
  obtain ⟨_, hpolicy, _⟩ := checkOptions_eq_ok.mp h.checked
  refine ⟨policyDigest, state, h.checked, h.acquired, hload,
    (marshal_completed grant.epoch state).mp ⟨data, h.text⟩, hlegacy, ⟨_, hgrant⟩, ?_⟩
  by_contra hcan
  rw [not_or, not_not] at hcan
  obtain ⟨issuer, hstart⟩ := (startIssuer_completed hpolicy hgrant).mpr hcan
  cases hstart.symm.trans hrefused

end Migrates

/-- A start that is refused while its file operations succeed does not hold the lock, and leaves
the file as it was exactly if it has not completed a state for a key that may not sign the next
version. Then every later start goes as if it had not been. -/
theorem refused_start_iff (hreads : ReadsStates rt) (hplace : place.locked = false)
    (hfits : place.Fits answers) {e : Error}
    (h : openIssuer rt options lock answers place = (.error e, place')) :
    place'.locked = false ∧
      (place'.file = place.file ↔ ¬Rebound rt options lock answers) ∧
      (¬Rebound rt options lock answers → ∀ options' lock' answers',
        openIssuer rt options' lock' answers' place' =
          openIssuer rt options' lock' answers' place) := by
  by_cases hmigrates : ∃ policyDigest migrated data,
      Migrates rt options lock answers policyDigest migrated data
  · obtain ⟨policyDigest, migrated, data, hm⟩ := hmigrates
    rw [hm.openIssuer] at h
    cases hstart : startIssuer rt options policyDigest (some migrated) with
    | ok issuer =>
        rw [hstart] at h
        cases h
    | error e' =>
        rw [hstart] at h
        obtain ⟨_, rfl⟩ := Prod.mk.inj h
        have hrebound := hm.rebound hstart
        refine ⟨rfl, ⟨fun hsame => absurd hsame (hm.file_ne hreads hfits), fun hnot => ?_⟩,
          fun hnot => ?_⟩
        all_goals exact absurd hrebound hnot
  · have hsame : place' = place := by
      refine openIssuer_unchanged hplace (fun policyDigest migrated data hm => ?_) h
      exact hmigrates ⟨policyDigest, migrated, data, hm⟩
    subst hsame
    exact ⟨hplace, ⟨fun _ hrebound => hmigrates (hrebound.migrates hfits), fun _ => rfl⟩,
      fun _ _ _ _ => rfl⟩

namespace Sample

open Manifest.Sample

def legacy : State :=
  { recorded single 1 1 1 with keyEpoch := 0, policyVersion := 0, policySHA256 := [] }

def holding (state : State) : Place := ⟨some (state.marshal.toOption.getD []), false⟩

def bound : State := recorded handover 1 1 1

noncomputable def upgrading : Runtime := remembering [] [legacy, bound]

theorem readsStates_upgrading : ReadsStates upgrading := by
  refine readsStates_remembering fun state hs => ?_
  simp only [List.mem_cons, List.not_mem_nil, or_false] at hs
  rcases hs with rfl | rfl
  · have hempty : Utf8.validString [] = true := rfl
    simp only [State.Utf8, legacy, recorded, keyID, utf8_digest, hempty, and_self]
  · exact utf8_recorded handover 1 1 1

theorem eq_of_refused {outcome : Except Error Issuer × Place} (h : outcome.1.isOk = false) :
    ∃ e, outcome = (.error e, outcome.2) := by
  obtain ⟨e, he⟩ := exists_of_isOk_false h
  exact ⟨e, Prod.ext he rfl⟩

end Sample

open Service.Sample Manifest.Sample in
/-- The first key comes with the policy that has handed over to the second: it is refused, but the
first policy is refused from then on, too. -/
theorem refused_start_rebinds :
    (∃ e, openIssuer upgrading (Sample.options handover 1) lockAnswers (present legacy)
        (holding legacy) = (.error e, holding bound)) ∧
      (holding bound).file ≠ (holding legacy).file ∧
      (openIssuer upgrading (Sample.options single 1) lockAnswers (present legacy)
        (holding legacy)).1.isOk = true ∧
      (openIssuer upgrading (Sample.options single 1) lockAnswers (present bound)
        (holding bound)).1.isOk = false := by
  refine ⟨?_, by decide +kernel, by decide +kernel, by decide +kernel⟩
  have herror : (openIssuer upgrading (Sample.options handover 1) lockAnswers (present legacy)
      (holding legacy)).1.isOk = false := by decide +kernel
  have hplace : (openIssuer upgrading (Sample.options handover 1) lockAnswers (present legacy)
      (holding legacy)).2 = holding bound := by decide +kernel
  rw [← hplace]
  exact eq_of_refused herror

open Service.Sample Manifest.Sample in
/-- The refused start over the old state has completed it. One over the completed state, with the
policy that was there before, leaves it. -/
theorem refused_start_iff_legacy :
    (∃ e place', openIssuer upgrading (Sample.options handover 1) lockAnswers (present legacy)
        (holding legacy) = (.error e, place') ∧ place'.locked = false ∧
      Rebound upgrading (Sample.options handover 1) lockAnswers (present legacy)) ∧
    ∃ e place', openIssuer upgrading (Sample.options single 1) lockAnswers (present bound)
        (holding bound) = (.error e, place') ∧ place'.locked = false ∧
      ¬Rebound upgrading (Sample.options single 1) lockAnswers (present bound) := by
  have hrefused : (openIssuer upgrading (Sample.options handover 1) lockAnswers (present legacy)
        (holding legacy)).1.isOk = false ∧
      (openIssuer upgrading (Sample.options single 1) lockAnswers (present bound)
        (holding bound)).1.isOk = false := by decide +kernel
  have hfiles : (openIssuer upgrading (Sample.options handover 1) lockAnswers (present legacy)
        (holding legacy)).2.file ≠ (holding legacy).file ∧
      (openIssuer upgrading (Sample.options single 1) lockAnswers (present bound)
        (holding bound)).2.file = (holding bound).file := by decide +kernel
  obtain ⟨e, he⟩ := eq_of_refused hrefused.1
  obtain ⟨e', he'⟩ := eq_of_refused hrefused.2
  have hfits : (holding legacy).Fits (present legacy) := by decide +kernel
  have hfits' : (holding bound).Fits (present bound) := by decide +kernel
  obtain ⟨hlocked, hiff, _⟩ := refused_start_iff readsStates_upgrading rfl hfits he
  obtain ⟨hlocked', hiff', _⟩ := refused_start_iff readsStates_upgrading rfl hfits' he'
  refine ⟨⟨e, _, he, hlocked, ?_⟩, e', _, he', hlocked', hiff'.mp hfiles.2⟩
  by_contra hnot
  exact hfiles.1 (hiff.mpr hnot)

end CloudHelp.Service
