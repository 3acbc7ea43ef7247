import CloudHelp.Manifest

/-!
# The durable state of an issuer

`FileStore` and `AcquireProcessLock` of `internal/issuance` on Linux. What the operating system
answers is an argument: an error or the value the code goes on with. `Save` is the list of its
file operations, each of which may fail; only two of them change what is found at the state path.
A rename replaces the file, and until the directory is synced a power failure may bring back an
older content.
-/

namespace CloudHelp.Issuance

open Base64Url Manifest

variable (rt : Runtime)

def maxStateBytes : ℕ := 16 * 2 ^ 10

/-- `Encode` of an encoder with HTML escaping off. -/
def State.marshal (state : State) : Except Error Bytes :=
  match Rfc3339.marshalTime state.zone state.lastIssuedAt with
  | .error e => .error e
  | .ok lastIssuedAt =>
      .ok ((Json.obj [(str "key_id", .ofString false state.keyID),
        (str "key_epoch", .num state.keyEpoch.toNat),
        (str "policy_version", .num state.policyVersion.toNat),
        (str "policy_sha256", .ofString false state.policySHA256),
        (str "last_version", .num state.lastVersion.toNat),
        (str "catalog_revision", .num state.catalogRevision.toNat),
        (str "catalog_sha256", .ofString false state.catalogSHA256),
        (str "last_issued_at", lastIssuedAt)]).encode ++ [10])

def State.Utf8 (state : State) : Prop :=
  Utf8.validString state.keyID = true ∧ Utf8.validString state.policySHA256 = true ∧
    Utf8.validString state.catalogSHA256 = true

theorem State.marshal_injOn {a b : State} {data : Bytes} (ha : a.Utf8) (hb : b.Utf8)
    (hda : a.marshal = .ok data) (hdb : b.marshal = .ok data) : a = b := by
  unfold State.marshal at hda hdb
  cases hi : Rfc3339.marshalTime a.zone a.lastIssuedAt with
  | error e =>
      rw [hi] at hda
      cases hda
  | ok i =>
      cases hj : Rfc3339.marshalTime b.zone b.lastIssuedAt with
      | error e =>
          rw [hj] at hdb
          cases hdb
      | ok j =>
          rw [hi] at hda
          rw [hj] at hdb
          have hjson := List.append_cancel_right (Except.ok.inj (hda.trans hdb.symm))
          replace hjson := Json.encode_injOn ?_ ?_ hjson
          · simp only [Json.obj.injEq, List.cons.injEq, Prod.mk.injEq, true_and, and_true,
              Json.num.injEq, Nat.cast_inj, UInt64.toNat_inj] at hjson
            obtain ⟨hkey, hepoch, hpolicy, hsha, hversion, hrevision, hcatalog, rfl⟩ := hjson
            obtain ⟨htime, hzone⟩ := Rfc3339.marshalTime_injOn hi hj
            exact State.ext (Json.ofString_injOn ha.1 hb.1 hkey) hepoch hpolicy
              (Json.ofString_injOn ha.2.1 hb.2.1 hsha) hversion hrevision
              (Json.ofString_injOn ha.2.2 hb.2.2 hcatalog) htime hzone
          · simp only [Json.wellFormed, wellFormedMembers_cons, Json.wellFormed_ofString,
              Rfc3339.wellFormed_marshalTime hi]
            rfl
          · simp only [Json.wellFormed, wellFormedMembers_cons, Json.wellFormed_ofString,
              Rfc3339.wellFormed_marshalTime hj]
            rfl

/-- Only the time of a state can keep it from being written. -/
theorem State.marshal_iff {state : State} :
    (∃ data, state.marshal = .ok data) ↔
      ∃ issuedAt, Rfc3339.marshalTime state.zone state.lastIssuedAt = .ok issuedAt := by
  unfold State.marshal
  cases Rfc3339.marshalTime state.zone state.lastIssuedAt with
  | error e => exact ⟨fun ⟨_, h⟩ => (by cases h), fun ⟨_, h⟩ => (by cases h)⟩
  | ok issuedAt => exact ⟨fun _ => ⟨_, rfl⟩, fun _ => ⟨_, rfl⟩⟩

theorem State.marshal_ne_nil {state : State} {data : Bytes} (h : state.marshal = .ok data) :
    data ≠ [] := by
  unfold State.marshal at h
  cases htime : Rfc3339.marshalTime state.zone state.lastIssuedAt with
  | error e =>
      rw [htime] at h
      cases h
  | ok issuedAt =>
      rw [htime] at h
      obtain rfl := Except.ok.inj h
      simp

def validate (state : State) (allowLegacy : Bool) : Except Error Unit :=
  if state.keyID = [] ∨ state.lastVersion = 0 ∨ state.catalogRevision = 0 ∨
      Time.isZero state.lastIssuedAt = true then
    .error (.new "issuer state is incomplete")
  else if validSHA256Digest state.catalogSHA256 = false then
    .error (.new "issuer state catalog digest is invalid")
  else if (state.keyEpoch = 0 ∧ state.policyVersion = 0 ∧ state.policySHA256 = []) ∧
      allowLegacy = true then .ok ()
  else if state.keyEpoch = 0 ∨ state.policyVersion = 0 ∨ state.policySHA256 = [] then
    .error (.new "issuer state key policy fields are incomplete")
  else if validSHA256Digest state.policySHA256 = false then
    .error (.new "issuer state key policy digest is invalid")
  else .ok ()

def decodeStrict (data : Bytes) : Except Error State :=
  match rt.decodeState data with
  | .error e => .error e
  | .ok (state, rest) =>
      match rt.decodeAny rest with
      | .eof => .ok state
      | .error e => .error e
      | .value => .error (.new "issuer state contains multiple JSON values")

/-- The JSON that `Save` writes is read back as the state it was made from, if the texts of the
state are UTF-8. -/
def ReadsStates : Prop :=
  ∀ (state : State) (data : Bytes), state.Utf8 → state.marshal = .ok data →
    decodeStrict rt data = .ok state

/-! ## Files -/

/-- What `os.Stat` says of a directory or `Stat` of an open file. -/
structure Info where
  /-- a directory where one is expected, a regular file where one is expected -/
  expectedKind : Bool
  perm : ℕ
  deriving DecidableEq

def checkDirectory (stat : Except Error Info) : Except Error Unit :=
  match stat with
  | .error e => .error (.wrap "stat issuer state directory: %w" [] e)
  | .ok info =>
      if info.expectedKind = false then
        .error (.new "issuer state parent must be a directory")
      else if info.perm &&& 0o022 ≠ 0 then
        .error (.new "issuer state directory must not be writable by group or others")
      else .ok ()

structure LoadAnswers where
  directory : Except Error Info
  opened : Except Error Unit
  info : Except Error Info
  data : Except Error Bytes

/-- `Load`; `none` when there is no file. -/
def load (path : Bytes) (answers : LoadAnswers) : Except Error (Option State) :=
  if path = [] then .error (.new "issuer state path is required")
  else match checkDirectory answers.directory with
    | .error e => if e.isNotExist = false then .error e else afterDirectory answers
    | .ok () => afterDirectory answers
where
  afterDirectory (answers : LoadAnswers) : Except Error (Option State) :=
    match answers.opened with
    | .error e =>
        if e.isNotExist = true then .ok none else .error (.wrap "open issuer state: %w" [] e)
    | .ok () =>
        match answers.info with
        | .error e => .error (.wrap "stat issuer state: %w" [] e)
        | .ok info =>
            if info.expectedKind = false then .error (.new "issuer state must be a regular file")
            else if info.perm &&& 0o077 ≠ 0 then
              .error (.new "issuer state permissions must not allow group or other access")
            else match answers.data with
              | .error e => .error (.wrap "read issuer state: %w" [] e)
              | .ok data => decodeData data
  decodeData (data : Bytes) : Except Error (Option State) :=
    if data.length = 0 ∨ maxStateBytes < data.length then
      .error (.new "issuer state size is invalid")
    else match decodeStrict rt data with
      | .error e => .error (.wrap "decode issuer state: %w" [] e)
      | .ok state =>
          match validate state true with
          | .error e => .error e
          | .ok () => .ok (some state)

inductive SaveOp where
  | mkdirAll | checkDirectory | createTemp | chmod | encode | sync | close | rename
  | openDirectory | syncDirectory
  deriving DecidableEq

def saveOps : List SaveOp :=
  [.mkdirAll, .checkDirectory, .createTemp, .chmod, .encode, .sync, .close, .rename, .openDirectory,
    .syncDirectory]

/-- The error `Save` returns when an operation fails. -/
def SaveOp.failure : SaveOp → Error → Error
  | .mkdirAll, e => .wrap "create issuer state directory: %w" [] e
  | .checkDirectory, e => e
  | .createTemp, e => .wrap "create temporary issuer state: %w" [] e
  | .chmod, e => .wrap "restrict temporary issuer state: %w" [] e
  | .encode, e => .wrap "encode issuer state: %w" [] e
  | .sync, e => .wrap "sync issuer state: %w" [] e
  | .close, e => .wrap "close issuer state: %w" [] e
  | .rename, e => .wrap "replace issuer state: %w" [] e
  | .openDirectory, e => .wrap "open issuer state directory: %w" [] e
  | .syncDirectory, e => .wrap "sync issuer state directory: %w" [] e

def checkSave (path : Bytes) (state : State) : Except Error Unit :=
  if path = [] then .error (.new "issuer state path is required") else validate state false

/-- The state path on disk: the content now, and the contents a power failure may bring back. -/
structure Disk where
  current : Option Bytes
  unsynced : List (Option Bytes)

namespace Disk

def candidates (disk : Disk) : List (Option Bytes) := disk.current :: disk.unsynced

/-- The effect of a successful operation of a `Save`. A state that has no JSON never gets past the
encoder. -/
def perform (disk : Disk) (state : State) : SaveOp → Option Disk
  | .encode =>
      match state.marshal with
      | .error _ => none
      | .ok _ => some disk
  | .rename =>
      match state.marshal with
      | .error _ => none
      | .ok data => some ⟨some data, disk.candidates⟩
  | .syncDirectory => some { disk with unsynced := [] }
  | _ => some disk

/-- The answers fit the content: a missing file is never opened, and a file that is there is opened
or refused for another reason, and read up to one byte past the limit. -/
def fits (disk : Disk) (answers : LoadAnswers) : Bool :=
  match disk.current, answers.opened with
  | none, .error _ => true
  | none, .ok _ => false
  | some _, .error e => !e.isNotExist
  | some data, .ok _ =>
      match answers.data with
      | .error _ => true
      | .ok d => d == data.take (maxStateBytes + 1)

end Disk

def Holds (content : Option Bytes) (state : State) : Prop :=
  ∃ data, content = some data ∧ decodeStrict rt data = .ok state

variable {rt}

structure Loadable (rt : Runtime) (data : Bytes) (state : State) : Prop where
  nonempty : data ≠ []
  size : data.length ≤ maxStateBytes
  decode : decodeStrict rt data = .ok state
  valid : validate state true = .ok ()

theorem decodeData_eq_ok {data : Bytes} {found : Option State}
    (h : load.decodeData rt data = .ok found) :
    ∃ state, found = some state ∧ Loadable rt data state := by
  unfold load.decodeData at h
  cases hdecode : decodeStrict rt data with
  | error e =>
      simp only [hdecode] at h
      split_ifs at h
  | ok state =>
      cases hvalid : validate state true with
      | error e =>
          simp only [hdecode, hvalid] at h
          split_ifs at h
      | ok u =>
          simp only [hdecode, hvalid] at h
          split_ifs at h with hsize
          rw [not_or, not_lt, List.length_eq_zero_iff] at hsize
          exact ⟨state, (Except.ok.inj h).symm, hsize.1, hsize.2, hdecode, hvalid⟩

structure Healthy (disk : Disk) (answers : LoadAnswers) : Prop where
  directory : checkDirectory answers.directory = .ok ()
  absent : disk.current = none → answers.opened = .error .notExist
  present : ∀ data, disk.current = some data → answers.opened = .ok () ∧
    (∃ info, answers.info = .ok info ∧ info.expectedKind = true ∧ info.perm &&& 0o077 = 0) ∧
    answers.data = .ok (data.take (maxStateBytes + 1))

theorem load_absent {path : Bytes} {disk : Disk} {answers : LoadAnswers} (hpath : path ≠ [])
    (h : Healthy disk answers) (hcurrent : disk.current = none) :
    load rt path answers = .ok none := by
  simp [load, hpath, h.directory, load.afterDirectory, h.absent hcurrent, Error.isNotExist]

theorem load_present {path : Bytes} {disk : Disk} {answers : LoadAnswers} (hpath : path ≠ [])
    (h : Healthy disk answers) {data : Bytes} (hcurrent : disk.current = some data) {state : State}
    (hdata : Loadable rt data state) : load rt path answers = .ok (some state) := by
  obtain ⟨hopened, ⟨info, hinfo, hkind, hperm⟩, hread⟩ := h.present data hcurrent
  have hall : data.take (maxStateBytes + 1) = data :=
    List.take_of_length_le (Nat.le_succ_of_le hdata.size)
  have hlength : data.length ≠ 0 := fun hz => hdata.nonempty (List.length_eq_zero_iff.mp hz)
  rw [hall] at hread
  simp [load, hpath, h.directory, load.afterDirectory, hopened, hinfo, hkind, hperm, hread,
    load.decodeData, hlength, hdata.size.not_gt, hdata.decode, hdata.valid]

/-- The fields of a state that do not depend on the policy. -/
structure Recorded (state : State) : Prop where
  key : state.keyID ≠ []
  version : state.lastVersion ≠ 0
  revision : state.catalogRevision ≠ 0
  issuedAt : Time.isZero state.lastIssuedAt = false
  catalog : validSHA256Digest state.catalogSHA256 = true

theorem validate_eq_ok {state : State} {allowLegacy : Bool} :
    validate state allowLegacy = .ok () ↔ Recorded state ∧
      (((state.keyEpoch = 0 ∧ state.policyVersion = 0 ∧ state.policySHA256 = []) ∧
          allowLegacy = true) ∨
        (state.keyEpoch ≠ 0 ∧ state.policyVersion ≠ 0 ∧ state.policySHA256 ≠ []) ∧
          validSHA256Digest state.policySHA256 = true) := by
  unfold validate
  constructor
  · intro h
    split_ifs at h with hincomplete hcatalog hlegacy hpolicy hdigest
    all_goals
      rw [not_or, not_or, not_or, Bool.not_eq_true] at hincomplete
      rw [Bool.not_eq_false] at hcatalog
      refine ⟨⟨hincomplete.1, hincomplete.2.1, hincomplete.2.2.1, hincomplete.2.2.2, hcatalog⟩, ?_⟩
    · exact Or.inl hlegacy
    · rw [not_or, not_or] at hpolicy
      exact Or.inr ⟨hpolicy, (Bool.not_eq_false _).mp hdigest⟩
  · rintro ⟨hr, hcases⟩
    rw [if_neg (by simp [hr.key, hr.version, hr.revision, hr.issuedAt]),
      if_neg (by simp [hr.catalog])]
    rcases hcases with hlegacy | ⟨⟨hepoch, hversion, hdigest⟩, hvalid⟩
    · rw [if_pos hlegacy]
    · rw [if_neg fun h => hepoch h.1.1, if_neg (by simp [hepoch, hversion, hdigest]),
        if_neg (by simp [hvalid])]

/-- A state that `Save` lets through is one that `Load` lets through. -/
theorem validate_of_strict {state : State} (h : validate state false = .ok ()) :
    validate state true = .ok () := by
  obtain ⟨hr, ⟨_, hfalse⟩ | hcomplete⟩ := validate_eq_ok.mp h
  · cases hfalse
  · exact validate_eq_ok.mpr ⟨hr, Or.inr hcomplete⟩

/-- A `Load` that succeeds has found what is at the path. -/
theorem load_loadable {path : Bytes} {disk : Disk} {answers : LoadAnswers} {found : Option State}
    (hfits : disk.fits answers = true) (h : load rt path answers = .ok found) :
    (found = none ∧ disk.current = none) ∨
      ∃ state data, found = some state ∧ disk.current = some data ∧ Loadable rt data state := by
  have hafter : load.afterDirectory rt answers = .ok found := by
    unfold load at h
    cases hdirectory : checkDirectory answers.directory with
    | error e =>
        simp only [hdirectory] at h
        split_ifs at h
        exact h
    | ok u =>
        simp only [hdirectory] at h
        split_ifs at h
        exact h
  obtain ⟨current, unsynced⟩ := disk
  obtain ⟨directory, opened, info, data⟩ := answers
  unfold load.afterDirectory at hafter
  cases opened with
  | error e =>
      simp only at hafter
      split_ifs at hafter with hmissing
      refine Or.inl ⟨(Except.ok.inj hafter).symm, ?_⟩
      cases current with
      | none => rfl
      | some content => simp [Disk.fits, hmissing] at hfits
  | ok u =>
      cases info with
      | error e => cases hafter
      | ok info =>
          cases data with
          | error e =>
              simp only at hafter
              split_ifs at hafter
          | ok data =>
              simp only at hafter
              split_ifs at hafter
              obtain ⟨state, hfound, hdata⟩ := decodeData_eq_ok hafter
              cases current with
              | none => cases hfits
              | some content =>
                  obtain rfl : data = content.take (maxStateBytes + 1) := by
                    simpa [Disk.fits] using hfits
                  have hall : content.take (maxStateBytes + 1) = content := by
                    have hsize := hdata.size
                    rw [List.length_take] at hsize
                    exact List.take_of_length_le (by omega)
                  exact Or.inr ⟨state, content, hfound, rfl, hall ▸ hdata⟩

theorem load_fits {path : Bytes} {disk : Disk} {answers : LoadAnswers} {found : Option State}
    (hfits : disk.fits answers = true) (h : load rt path answers = .ok found) :
    (found = none ∧ disk.current = none) ∨
      ∃ state, found = some state ∧ Holds rt disk.current state := by
  rcases load_loadable hfits h with hnone | ⟨state, data, hfound, hcurrent, hdata⟩
  · exact Or.inl hnone
  · exact Or.inr ⟨state, hfound, data, hcurrent, hdata.decode⟩

namespace Disk

variable {disk disk' : Disk} {state : State} {op : SaveOp}

theorem perform_rename (h : disk.perform state .rename = some disk') :
    ∃ data, state.marshal = .ok data ∧ disk' = ⟨some data, disk.candidates⟩ := by
  unfold perform at h
  cases hm : state.marshal with
  | error e => simp [hm] at h
  | ok data =>
      simp only [hm, Option.some.injEq] at h
      exact ⟨data, rfl, h.symm⟩

/-- A state that has a JSON text does not stop a save. -/
theorem exists_perform (disk : Disk) {data : Bytes} (hdata : state.marshal = .ok data)
    (op : SaveOp) : ∃ disk', disk.perform state op = some disk' := by
  unfold perform
  rw [hdata]
  cases op <;> exact ⟨_, rfl⟩

/-- Apart from the rename, no operation brings a new content in. -/
theorem perform_other (h : disk.perform state op = some disk') (hop : op ≠ .rename) :
    disk'.current = disk.current ∧ ∀ content ∈ disk'.candidates, content ∈ disk.candidates := by
  cases op with
  | rename => exact absurd rfl hop
  | encode =>
      unfold perform at h
      cases hm : state.marshal with
      | error e => simp [hm] at h
      | ok data =>
          simp only [hm, Option.some.injEq] at h
          subst h
          exact ⟨rfl, fun _ hc => hc⟩
  | syncDirectory =>
      obtain rfl := Option.some.inj h
      refine ⟨rfl, fun content hc => ?_⟩
      rw [candidates, List.mem_singleton] at hc
      exact hc ▸ List.mem_cons_self
  | _ =>
      obtain rfl := Option.some.inj h
      exact ⟨rfl, fun _ hc => hc⟩

theorem perform_candidates (h : disk.perform state op = some disk') :
    ∀ content ∈ disk'.candidates, content ∈ disk.candidates ∨
      ∃ data, state.marshal = .ok data ∧ content = some data := by
  intro content hc
  by_cases hop : op = .rename
  · subst hop
    obtain ⟨data, hdata, rfl⟩ := perform_rename h
    rcases List.mem_cons.mp hc with rfl | hc
    · exact Or.inr ⟨data, hdata, rfl⟩
    · exact Or.inl hc
  · exact Or.inl ((perform_other h hop).2 content hc)

/-- A `Save` of the state has the operations left: once the rename is done, the state is at the
path. -/
def Underway (disk : Disk) (state : State) (ops : List SaveOp) : Prop :=
  (∃ done, done ++ ops = saveOps) ∧
    (SaveOp.rename ∉ ops → ∃ data, state.marshal = .ok data ∧ disk.current = some data)

theorem underway_saveOps (disk : Disk) (state : State) : disk.Underway state saveOps :=
  ⟨⟨[], rfl⟩, fun h => absurd (by decide) h⟩

theorem Underway.perform {ops : List SaveOp} (h : disk.Underway state (op :: ops))
    (hp : disk.perform state op = some disk') : disk'.Underway state ops := by
  obtain ⟨⟨done, hdone⟩, hcurrent⟩ := h
  refine ⟨⟨done ++ [op], by rw [List.append_assoc]; exact hdone⟩, fun hops => ?_⟩
  by_cases hop : op = .rename
  · subst hop
    obtain ⟨data, hdata, rfl⟩ := perform_rename hp
    exact ⟨data, hdata, rfl⟩
  · rw [(perform_other hp hop).1]
    exact hcurrent fun hmem => hops ((List.mem_cons.mp hmem).resolve_left fun he => hop he.symm)

/-- There is one rename in a `Save`. -/
theorem Underway.rename_notMem {ops : List SaveOp} (h : disk.Underway state (.rename :: ops)) :
    SaveOp.rename ∉ ops := by
  obtain ⟨done, hdone⟩ := h.1
  have hnodup : (done ++ SaveOp.rename :: ops).Nodup := by
    rw [hdone]
    decide
  exact (List.nodup_cons.mp (List.nodup_append.mp hnodup).2.1).1

/-- While the rename is to come, the path keeps its content. -/
theorem Underway.current_eq {ops : List SaveOp} (h : disk.Underway state (op :: ops))
    (hrename : SaveOp.rename ∈ ops) (hp : disk.perform state op = some disk') :
    disk'.current = disk.current := by
  refine (perform_other hp ?_).1
  rintro rfl
  exact h.rename_notMem hrename

/-- After its last operation a `Save` is durable. -/
theorem Underway.durable (h : disk.Underway state [op])
    (hp : disk.perform state op = some disk') :
    ∃ data, state.marshal = .ok data ∧ disk'.candidates = [some data] := by
  obtain ⟨data, hdata, hcurrent⟩ := (h.perform hp).2 List.not_mem_nil
  refine ⟨data, hdata, ?_⟩
  obtain ⟨done, hdone⟩ := h.1
  have hlast : op = .syncDirectory := by
    have hl := congrArg List.getLast? hdone
    rw [List.getLast?_append_of_ne_nil _ (List.cons_ne_nil _ _)] at hl
    exact Option.some.inj hl
  subst hlast
  obtain rfl := Option.some.inj hp
  exact congrArg (· :: []) hcurrent

end Disk

structure LockAnswers where
  mkdirAll : Except Error Unit
  directory : Except Error Info
  openRoot : Except Error Unit
  openDirectory : Except Error Unit
  openat : Except Error Unit
  info : Except Error Info
  flock : Except Error Unit

def acquireProcessLock (path : Bytes) (answers : LockAnswers) : Except Error Unit :=
  if path = [] then .error (.new "issuer state path is required")
  else match answers.mkdirAll with
    | .error e => .error (.wrap "create issuer state directory: %w" [] e)
    | .ok () =>
        match checkDirectory answers.directory with
        | .error e => .error e
        | .ok () =>
            match answers.openRoot with
            | .error e => .error (.wrap "open issuer state directory: %w" [] e)
            | .ok () =>
                match answers.openDirectory with
                | .error e => .error (.wrap "open issuer state directory handle: %w" [] e)
                | .ok () => openLock answers
where
  openLock (answers : LockAnswers) : Except Error Unit :=
    match answers.openat with
    | .error e => .error (.wrap "open issuer process lock: %w" [] e)
    | .ok () =>
        match answers.info with
        | .error e => .error (.wrap "stat issuer process lock: %w" [] e)
        | .ok info =>
            if info.expectedKind = false ∨ info.perm &&& 0o077 ≠ 0 then
              .error (.new "issuer process lock must be a private regular file")
            else match answers.flock with
              | .error e =>
                  .error (.wrap "lock issuer state (another issuer may be active): %w" [] e)
              | .ok () => .ok ()

end CloudHelp.Issuance
