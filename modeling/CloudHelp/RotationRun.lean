import CloudHelp.Continuity
import CloudHelp.Rotation

/-!
# Runs of an issuer through its rotations

`Reaches r k s`: the system `s` is reached from a path without a state file by issuers that load
the policies of the rotation `r` in their order, the last one loaded being that with the index
`k`. A policy may be loaded for the first time while the durable version is at most its cut.
Whatever may be on disk then fits the policy (`RunFits`), so that `NewIssuer` accepts exactly the
key that the policy grants the next version (`rotation_accepts_iff`).
-/

namespace CloudHelp.Service

open Manifest Issuance

variable {rt : Runtime}

/-! ## The size of a state file -/

theorem length_marshal {state : State} {a b c data : Bytes} (hkey : state.keyID = rt.digest a)
    (hpolicy : state.policySHA256 = rt.digest b) (hcatalog : state.catalogSHA256 = rt.digest c)
    (h : state.marshal = .ok data) : data ≠ [] ∧ data.length ≤ maxStateBytes := by
  unfold State.marshal at h
  cases htime : Rfc3339.marshalTime state.zone state.lastIssuedAt with
  | error e =>
      rw [htime] at h
      cases h
  | ok issuedAt =>
      rw [htime] at h
      obtain rfl := Except.ok.inj h
      have hissued : issuedAt.encode.length ≤ 37 := by
        obtain ⟨-, -, rfl⟩ := Rfc3339.marshalTime_eq_ok.mp htime
        have hformat := Rfc3339.length_format_le state.zone state.lastIssuedAt
        simp only [Json.encode, List.length_cons, List.length_append, List.length_nil]
        omega
      have hnames : (str "key_id").length = 6 ∧ (str "key_epoch").length = 9 ∧
          (str "policy_version").length = 14 ∧ (str "policy_sha256").length = 13 ∧
          (str "last_version").length = 12 ∧ (str "catalog_revision").length = 16 ∧
          (str "catalog_sha256").length = 14 ∧ (str "last_issued_at").length = 14 := by decide
      obtain ⟨h1, h2, h3, h4, h5, h6, h7, h8⟩ := hnames
      have hepoch := length_formatInt_le state.keyEpoch
      have hversion := length_formatInt_le state.policyVersion
      have hlast := length_formatInt_le state.lastVersion
      have hrevision := length_formatInt_le state.catalogRevision
      refine ⟨by simp, ?_⟩
      rw [hkey, hpolicy, hcatalog]
      simp only [Runtime.digest, ofString_encodeToString, Json.encode, Json.encodeMember,
        Json.encodeMembers, List.length_append, List.length_cons, List.length_nil,
        Base64Url.length_encodeToString, Vector.length_toList, h1, h2, h3, h4, h5, h6, h7, h8,
        Base64Url.encodedLen, maxStateBytes]
      omega

theorem Publication.Publishes.loadable {origin : Publication} {envelope : Envelope}
    (h : origin.Publishes rt envelope) (hreads : ReadsStates rt)
    (hvalid : validate origin.state false = .ok ()) {data : Bytes}
    (hdata : origin.state.marshal = .ok data) : Loadable rt data origin.state := by
  obtain ⟨hnonempty, hsize⟩ := length_marshal h.key.symm
    (validateKeyPolicy_eq_ok.mp h.policy).2.symm (catalogDigest_eq_ok.mp h.catalogDigest).2.symm
    hdata
  exact ⟨hnonempty, hsize, hreads _ _ h.utf8 hdata, validate_of_strict hvalid⟩

/-! ## Runs -/

def durableVersion (rt : Runtime) : Option Bytes → UInt64
  | none => 0
  | some data =>
      match Issuance.decodeStrict rt data with
      | .error _ => 0
      | .ok state => state.lastVersion

theorem durableVersion_of_holds {content : Option Bytes} {state : State}
    (h : Holds rt content state) : durableVersion rt content = state.lastVersion := by
  obtain ⟨data, rfl, hdecode⟩ := h
  rw [durableVersion, hdecode]

/-- What may happen while the policy `k` is the last one loaded: an issuer starts with it or with
the next one, and none but the last loaded is loaded. -/
def Rotation.Keeps (r : Rotation rt) (k : ℕ) (s : System) : Action → Prop
  | .start _ options _ => ∃ j, (j = k ∨ j = k + 1) ∧ j < r.count ∧ options.keyPolicy = r.policy j
  | .load p _ => ∀ options policyDigest, s.procs p = .locked options policyDigest →
      options.keyPolicy = r.policy k
  | _ => True

inductive Reaches (rt : Runtime) (path : Bytes) (r : Rotation rt) : ℕ → System → Prop where
  | initial (h : 0 < r.count) : Reaches rt path r 0 (.initial none)
  | keep {k : ℕ} {s s' : System} (h : Reaches rt path r k s) (action : Action)
      (hkeeps : r.Keeps k s action) (hstep : step rt path s action = some s') :
      Reaches rt path r k s'
  /-- the first load of the next policy -/
  | advance {k : ℕ} {s s' : System} (h : Reaches rt path r k s) {p : ℕ} {options : IssuerOptions}
      {policyDigest : Bytes} (hproc : s.procs p = .locked options policyDigest)
      (hnext : k + 1 < r.count) (hpolicy : options.keyPolicy = r.policy (k + 1))
      (hcut : durableVersion rt s.disk.current ≤ r.cut k) (answers : LoadAnswers)
      (hstep : step rt path s (.load p answers) = some s') :
      Reaches rt path r (k + 1) s'

/-! ## What is on disk fits -/

section Fits

variable (r : Rotation rt) (path : Bytes) (k : ℕ)

structure DiskFits (disk : Disk) : Prop where
  stored : ∀ data, some data ∈ disk.candidates → ∃ state, Loadable rt data state ∧ r.Fits k state
  newest : ∀ content ∈ disk.candidates,
    durableVersion rt content ≤ durableVersion rt disk.current

/-- The issuer works under the policy, at most one version behind the disk. -/
def IssuerFits (disk : Disk) (issuer : Issuer) : Prop :=
  issuer.keyPolicy = r.policy k ∧
    (durableVersion rt disk.current).toNat ≤ issuer.state.lastVersion.toNat + 1

def ProcFits (disk : Disk) : Process → Prop
  | .idle => True
  | .locked options _ => ∃ j, (j = k ∨ j = k + 1) ∧ j < r.count ∧ options.keyPolicy = r.policy j
  | .migrating _ _ _ _ => False
  | .ready issuer => issuer.closed = true ∨ IssuerFits r k disk issuer
  | .saving issuer _ _ next _ => IssuerFits r k disk issuer ∧ checkSave path next = .ok ()

structure RunFits (s : System) : Prop where
  index : k < r.count
  disk : DiskFits r k s.disk
  procs : ∀ p, ProcFits r path k s.disk (s.procs p)

end Fits

variable {r : Rotation rt} {path : Bytes} {k : ℕ} {O : IssuerOptions → Prop} {C : Catalog → Prop}
  {pub : Envelope → Publication} {s s' : System} {p : ℕ}

theorem procFits_of_quiet {disk : Disk} {process : Process} (h : process.Quiet) :
    ProcFits r path k disk process := by
  cases process with
  | idle => trivial
  | ready issuer => exact Or.inl h
  | _ => exact h.elim

namespace DiskFits

variable {disk disk' : Disk}

theorem advance (h : DiskFits r k disk) (hk : k + 1 < r.count)
    (hcut : durableVersion rt disk.current ≤ r.cut k) : DiskFits r (k + 1) disk := by
  refine ⟨fun data hdata => ?_, h.newest⟩
  obtain ⟨state, hload, hfits⟩ := h.stored data hdata
  have hversion := durableVersion_of_holds ⟨data, rfl, hload.decode⟩
  have hle : state.lastVersion ≤ r.cut k :=
    hversion ▸ UInt64.le_trans (h.newest _ hdata) hcut
  exact ⟨state, hload, hfits.advance hk hle⟩

/-- Every content that may be left stands alone. -/
theorem of_candidate (h : DiskFits r k disk) {content : Option Bytes}
    (hc : content ∈ disk.candidates) : DiskFits r k ⟨content, []⟩ := by
  refine ⟨fun data hdata => ?_, fun other ho => ?_⟩
  · exact h.stored data (List.mem_singleton.mp hdata ▸ hc)
  · rw [List.mem_singleton.mp ho]
    exact UInt64.le_refl _

theorem perform (h : DiskFits r k disk) {next : State} {op : SaveOp}
    (hload : ∀ data, next.marshal = .ok data → Loadable rt data next) (hfits : r.Fits k next)
    (hle : durableVersion rt disk.current ≤ next.lastVersion)
    (hperform : disk.perform next op = some disk') : DiskFits r k disk' := by
  by_cases hop : op = .rename
  · subst hop
    obtain ⟨data, hdata, rfl⟩ := Disk.perform_rename hperform
    have hversion : durableVersion rt (some data) = next.lastVersion :=
      durableVersion_of_holds ⟨data, rfl, (hload data hdata).decode⟩
    refine ⟨fun other ho => ?_, fun content hc => ?_⟩
    · rcases List.mem_cons.mp ho with he | ho
      · obtain rfl := Option.some.inj he
        exact ⟨next, hload other hdata, hfits⟩
      · exact h.stored other ho
    · change durableVersion rt content ≤ durableVersion rt (some data)
      rw [hversion]
      rcases List.mem_cons.mp hc with rfl | hc
      · exact UInt64.le_of_eq hversion
      · exact UInt64.le_trans (h.newest content hc) hle
  · obtain ⟨hcurrent, hsub⟩ := Disk.perform_other hperform hop
    refine ⟨fun data hdata => h.stored data (hsub _ hdata), fun content hc => ?_⟩
    rw [hcurrent]
    exact h.newest content (hsub content hc)

end DiskFits

/-! ## One step -/

/-- A failed refresh changes nothing that matters here. -/
theorem ProcFits.failed {disk : Disk} {issuer : Issuer}
    (h : ProcFits r path k disk (.ready issuer)) (now : ℤ) (e : Error) :
    ProcFits r path k disk (.ready (issuer.failed now e).1) := by
  obtain ⟨⟨lastError, retryAt, cacheUntil, hfst⟩, _⟩ := issuer.failed_spec now e
  rw [hfst]
  exact h

/-- What is published under a policy of the rotation fits it. -/
theorem Publication.Publishes.fits {origin : Publication} {envelope : Envelope}
    (h : origin.Publishes rt envelope) (hpolicy : origin.options.keyPolicy = r.policy k) :
    r.Fits k origin.state := by
  obtain ⟨g, raw, hgrant, hepoch⟩ := h.granted
  refine ⟨⟨k, le_rfl, ?_, ?_⟩, g, raw, hpolicy ▸ hgrant, hepoch⟩
  · rw [← h.policyVersion, hpolicy]
  · rw [← (validateKeyPolicy_eq_ok.mp h.policy).2, hpolicy]

namespace RunFits

theorem proc (h : RunFits r path k s) {process : Process} (hproc : s.procs p = process) :
    ProcFits r path k s.disk process := hproc ▸ h.procs p

theorem of_quiet (h : RunFits r path k s) (hquiet : ∀ q ≠ p, (s.procs q).Quiet) {process : Process}
    (hprocs : s'.procs = Function.update s.procs p process) (hdisk : DiskFits r k s'.disk)
    (hprocess : ProcFits r path k s'.disk process) : RunFits r path k s' :=
  ⟨h.index, hdisk, forall_procs (R := fun _ => ProcFits r path k s'.disk)
    (fun _ _ => procFits_of_quiet) hquiet hprocs hprocess⟩

/-- As long as the disk stays, each process is for itself. -/
theorem of_update (h : RunFits r path k s) {process : Process}
    (hprocs : s'.procs = Function.update s.procs p process) (hdisk : s'.disk = s.disk)
    (hprocess : ProcFits r path k s.disk process) : RunFits r path k s' := by
  refine ⟨h.index, hdisk ▸ h.disk, ?_⟩
  rw [hdisk]
  exact forall_procs_update (R := fun _ => ProcFits r path k s.disk) (fun q _ => h.procs q) hprocs
    hprocess

/-- The state that a load finds fits. -/
theorem found_fits (h : RunFits r path k s) {answers : LoadAnswers} {found : Option State}
    (hfits : s.disk.fits answers = true) (hload : load rt path answers = .ok found) :
    (∀ state, found = some state → r.Fits k state) ∧
      durableVersion rt s.disk.current = (found.getD .empty).lastVersion := by
  rcases load_fits hfits hload with ⟨rfl, hnone⟩ | ⟨state, rfl, data, hcurrent, hdecode⟩
  · refine ⟨fun state hs => (by cases hs), ?_⟩
    rw [hnone]
    rfl
  · refine ⟨fun other ho => ?_, durableVersion_of_holds ⟨data, hcurrent, hdecode⟩⟩
    obtain rfl := Option.some.inj ho
    obtain ⟨other, hother, hfits⟩ := h.disk.stored data (hcurrent ▸ List.mem_cons_self)
    obtain rfl := Except.ok.inj (hother.decode.symm.trans hdecode)
    exact hfits

theorem issuerFits_of_newIssuer (h : RunFits r path k s) {answers : LoadAnswers}
    {found : Option State} (hfits : s.disk.fits answers = true)
    (hload : load rt path answers = .ok found) {options : IssuerOptions}
    (hpolicy : options.keyPolicy = r.policy k) {save : State → Except Error Unit} {issuer : Issuer}
    (hnew : newIssuer rt options (.ok ()) (.ok found) save = .ok issuer) :
    IssuerFits r k s.disk issuer := by
  obtain ⟨_, hoptions, _, hstate⟩ := newIssuer_sound hnew
  obtain ⟨hfound, hversion⟩ := h.found_fits hfits hload
  refine ⟨(congrArg IssuerOptions.keyPolicy hoptions).trans hpolicy, ?_⟩
  rw [hstate fun state hs => (hfound state hs).policyVersion_ne_zero h.index, hversion]
  exact Nat.le_succ _

/-- What an issuer is saving: a loadable state that fits, one version ahead. -/
theorem saving_next (hreads : ReadsStates rt) (hinv : Inv rt O C pub s) (h : RunFits r path k s)
    {issuer : Issuer} {clock : ℤ} {loaded : Except Error Catalog} {next : State} {ops : List SaveOp}
    (hproc : s.procs p = .saving issuer clock loaded next ops) :
    r.Fits k next ∧ (∀ data, next.marshal = .ok data → Loadable rt data next) ∧
      durableVersion rt s.disk.current ≤ next.lastVersion ∧
      next.lastVersion.toNat ≤ issuer.state.lastVersion.toNat + 1 := by
  obtain ⟨_, hi, hpending, _, _⟩ := hinv.proc hproc
  obtain ⟨⟨hpolicy, hdurable⟩, hsave⟩ := h.proc hproc
  obtain ⟨envelope, _, hplan, _⟩ := issue_of_pending hpending
  obtain ⟨catalog, _, hpublishes⟩ := hi.sound.publishes hplan
  have hahead := UInt64.lt_iff_toNat_lt.mp (hi.sound.ahead hplan).1
  have hvalid : validate next false = .ok () := by
    unfold checkSave at hsave
    split_ifs at hsave
    exact hsave
  refine ⟨hpublishes.fits hpolicy, fun data hdata => hpublishes.loadable hreads hvalid hdata, ?_,
    ?_⟩
  · rw [UInt64.le_iff_toNat_le]
    omega
  · obtain ⟨_, _, _, _, _, _, rfl⟩ := plan_eq_ok.mp hplan
    rw [UInt64.toNat_add]
    exact Nat.mod_le _ _

theorem saving_step (hreads : ReadsStates rt) (hinv : Inv rt O C pub s) (h : RunFits r path k s)
    {issuer : Issuer} {clock : ℤ} {loaded : Except Error Catalog} {next : State} {op : SaveOp}
    {ops : List SaveOp} {disk : Disk}
    (hproc : s.procs p = .saving issuer clock loaded next (op :: ops))
    (hperform : s.disk.perform next op = some disk) :
    DiskFits r k disk ∧ IssuerFits r k disk issuer := by
  obtain ⟨hfits, hload, hle, hnext⟩ := saving_next hreads hinv h hproc
  obtain ⟨⟨hpolicy, hdurable⟩, _⟩ := h.proc hproc
  refine ⟨h.disk.perform hload hfits hle hperform, hpolicy, ?_⟩
  by_cases hop : op = .rename
  · subst hop
    obtain ⟨data, hdata, rfl⟩ := Disk.perform_rename hperform
    have hversion : durableVersion rt (some data) = next.lastVersion :=
      durableVersion_of_holds ⟨data, rfl, (hload data hdata).decode⟩
    exact hversion ▸ hnext
  · rw [(Disk.perform_other hperform hop).1]
    exact hdurable

theorem step_saved (hreads : ReadsStates rt) (hinv : Inv rt O C pub s) (h : RunFits r path k s)
    {issuer : Issuer} {clock : ℤ} {loaded : Except Error Catalog} {next : State} {op : SaveOp}
    {disk : Disk} (hproc : s.procs p = .saving issuer clock loaded next [op])
    (hperform : s.disk.perform next op = some disk) :
    RunFits r path k ({ s with disk := disk }.issueReturns p
      (issuer.issue rt clock loaded fun _ => .ok ())) := by
  obtain ⟨hp, _, hpending, _, hunderway⟩ := hinv.proc hproc
  obtain ⟨envelope, _, _, hissue⟩ := issue_of_pending hpending
  obtain ⟨hdisk, hissuer⟩ := saving_step hreads hinv h hproc hperform
  obtain ⟨_, hload, _, _⟩ := saving_next hreads hinv h hproc
  obtain ⟨data, hdata, hcandidates⟩ := hunderway.durable hperform
  have hcurrent : disk.current = some data := (List.cons.inj hcandidates).1
  have hversion : durableVersion rt disk.current = next.lastVersion :=
    durableVersion_of_holds ⟨data, hcurrent, (hload data hdata).decode⟩
  rw [hissue]
  refine h.of_quiet (hinv.quiet (Or.inr hp)) rfl hdisk (Or.inr ⟨hissuer.1, ?_⟩)
  exact (congrArg UInt64.toNat hversion).trans_le (Nat.le_succ _)

theorem step (hreads : ReadsStates rt) (hinv : Inv rt O C pub s) (h : RunFits r path k s)
    {action : Action} (hkeeps : r.Keeps k s action) (hs : step rt path s action = some s') :
    RunFits r path k s' := by
  cases step_effect hs with
  | refused p options answers => exact h
  | acquired hoptions hfree => exact h.of_update rfl rfl hkeeps
  | notLoaded hproc e => exact h.of_update rfl rfl trivial
  | @started p answers options policyDigest found hproc hfits hload save =>
      cases hnew : newIssuer rt options (.ok ()) (.ok found) save with
      | error e => exact h.of_update rfl rfl trivial
      | ok issuer =>
          exact h.of_update rfl rfl
            (Or.inr (h.issuerFits_of_newIssuer hfits hload (hkeeps _ _ hproc) hnew))
  | @migrates p answers options policyDigest found migrated hproc hfits hload hmigrate =>
      obtain ⟨hfound, _⟩ := h.found_fits hfits hload
      cases found with
      | none => cases hmigrate
      | some state =>
          rw [migrate, if_pos ((hfound state rfl).policyVersion_ne_zero h.index)] at hmigrate
          cases hmigrate
  | migrationStopped hproc outcome save => exact (h.proc hproc).elim
  | migrated hproc outcome disk save => exact (h.proc hproc).elim
  | migrating hproc outcome disk rest => exact (h.proc hproc).elim
  | saveStopped hproc outcome e =>
      obtain ⟨_, _, hpending, _⟩ := hinv.proc hproc
      obtain ⟨envelope, _, _, hissue⟩ := issue_of_pending hpending
      rw [hissue]
      exact h.of_update rfl rfl (ProcFits.failed (Or.inr (h.proc hproc).1) _ _)
  | saved hproc hperform outcome => exact h.step_saved hreads hinv hproc hperform
  | saving hproc hperform outcome =>
      obtain ⟨hdisk, hissuer⟩ := saving_step hreads hinv h hproc hperform
      exact h.of_quiet (hinv.quiet (Or.inr (hinv.proc hproc).1)) rfl hdisk
        ⟨hissuer, (h.proc hproc).2⟩
  | answered hproc hpending =>
      rcases issue_of_pending_none hpending fun _ => .ok () with ⟨answer, _, hissue⟩ | ⟨e, hissue⟩
      · rw [hissue]
        exact h.of_update rfl rfl (h.proc hproc)
      · rw [hissue]
        exact h.of_update rfl rfl (ProcFits.failed (h.proc hproc) _ _)
  | unsaved hproc hpending e =>
      obtain ⟨envelope, _, _, hissue⟩ := issue_of_pending hpending
      rw [hissue]
      exact h.of_update rfl rfl (ProcFits.failed (h.proc hproc) _ _)
  | saves hproc hpending hsave =>
      exact h.of_update rfl rfl
        ⟨(h.proc hproc).resolve_left (Issuer.not_closed_of_pending hpending), hsave⟩
  | closed hproc => exact h.of_update rfl rfl (Or.inl (Issuer.closed_close _))
  | crashed p => exact h.of_update rfl rfl trivial
  | lostPower hc => exact ⟨h.index, h.disk.of_candidate hc, fun _ => trivial⟩

/-- The first load of the next policy finds a disk that fits it. -/
theorem advance (hinv : Inv rt O C pub s) (h : RunFits r path k s) {options : IssuerOptions}
    {policyDigest : Bytes} (hproc : s.procs p = .locked options policyDigest)
    (hnext : k + 1 < r.count) (hpolicy : options.keyPolicy = r.policy (k + 1))
    (hcut : durableVersion rt s.disk.current ≤ r.cut k) : RunFits r path (k + 1) s := by
  have hprocs : s.procs = Function.update s.procs p (.locked options policyDigest) := by
    rw [← hproc, Function.update_eq_self]
  exact ⟨hnext, h.disk.advance hnext hcut,
    forall_procs (R := fun _ => ProcFits r path (k + 1) s.disk)
    (fun _ _ => procFits_of_quiet) (hinv.quiet (Or.inr (hinv.proc hproc).1)) hprocs
    ⟨k + 1, Or.inl rfl, hnext, hpolicy⟩⟩

end RunFits

/-! ## Whole runs -/

theorem reaches_fits (hreads : ReadsStates rt) (h : Reaches rt path r k s) :
    (∃ pub, Inv rt (fun _ => True) (fun _ => True) pub s) ∧ RunFits r path k s := by
  induction h with
  | initial hcount =>
      refine ⟨inv_start none, hcount, ⟨fun data hdata => ?_, fun content hc => ?_⟩,
        fun _ => trivial⟩
      · cases List.mem_singleton.mp hdata
      · rw [List.mem_singleton.mp hc]
        exact UInt64.le_refl _
  | keep _ action hkeeps hstep ih =>
      obtain ⟨⟨pub, hinv⟩, hfits⟩ := ih
      exact ⟨hinv.step hreads (Action.allowed_true action) hstep,
        hfits.step hreads hinv hkeeps hstep⟩
  | advance _ hproc hnext hpolicy hcut answers hstep ih =>
      obtain ⟨⟨pub, hinv⟩, hfits⟩ := ih
      refine ⟨hinv.step hreads (Action.allowed_true _) hstep, ?_⟩
      refine (hfits.advance hinv hproc hnext hpolicy hcut).step hreads hinv ?_ hstep
      intro options policyDigest hlocked
      rw [hproc] at hlocked
      obtain ⟨rfl, _⟩ := Process.locked.inj hlocked
      exact hpolicy

/-- At every point of a run through a rotation, with the current policy or the next one:
`NewIssuer` accepts exactly the key that the policy grants the version after the durable one,
there is exactly one such key, and each rotation changes hands at the version after its cut. -/
theorem rotation_accepts_iff (hreads : ReadsStates rt) (hpath : path ≠ [])
    (h : Reaches rt path r k s) {j : ℕ}
    (hj : j = k ∨ j = k + 1 ∧ durableVersion rt s.disk.current ≤ r.cut k) (hcount : j < r.count)
    (hlast : durableVersion rt s.disk.current ≠ maxUint64) {answers : LoadAnswers}
    (hanswers : Healthy s.disk answers) :
    (∀ (options : IssuerOptions) (policyDigest : Bytes) (save : State → Except Error Unit),
      options.keyPolicy = r.policy j → checkOptions rt options = .ok policyDigest →
      ((∃ issuer, newIssuer rt options (.ok ()) (load rt path answers) save = .ok issuer) ↔
        Authorized (r.policy j) (keyID rt (publicKey options.privateKey))
          (durableVersion rt s.disk.current + 1))) ∧
    (∃! key, Authorized (r.policy j) key (durableVersion rt s.disk.current + 1)) ∧
    ∀ i key v, i + 1 < r.count →
      (v ≤ r.cut i → (Authorized (r.policy (i + 1)) key v ↔ Authorized (r.policy i) key v)) ∧
      (r.cut i < v → (Authorized (r.policy (i + 1)) key v ↔ key = (r.fresh i).keyID)) := by
  obtain ⟨_, hfits⟩ := reaches_fits hreads h
  have hdisk : DiskFits r j s.disk := by
    rcases hj with rfl | ⟨rfl, hcut⟩
    · exact hfits.disk
    · exact hfits.disk.advance hcount hcut
  refine ⟨fun options policyDigest save hpolicy hoptions => ?_, ?_, fun i key v hi => ?_⟩
  · cases hcurrent : s.disk.current with
    | none =>
        rw [load_absent hpath hanswers hcurrent]
        exact Rotation.accepts_none_iff hpolicy hoptions save
    | some data =>
        obtain ⟨state, hload, hstate⟩ := hdisk.stored data (hcurrent ▸ List.mem_cons_self)
        have hversion := durableVersion_of_holds ⟨data, rfl, hload.decode⟩
        rw [load_present hpath hanswers hcurrent hload, hversion]
        refine Rotation.accepts_iff hcount hstate ?_ hpolicy hoptions save
        rwa [← hversion, ← hcurrent]
  · refine (r.shape hcount).existsUnique_authorized fun hzero => ?_
    have hsucc := toNat_add_one hlast
    rw [hzero] at hsucc
    cases hsucc
  · exact (r.rotates i hi).authorized_iff (r.shape (by omega)) (r.shape hi) key v

/-- A run whose issuers all have the first policy stays at it. -/
theorem reaches_run (hreads : ReadsStates rt) (hcount : 0 < r.count) {actions : List Action}
    (hstarts : ∀ p options answers, Action.start p options answers ∈ actions →
      options.keyPolicy = r.policy 0)
    (h : run rt path (.initial none) actions = some s) : Reaches rt path r 0 s := by
  refine (runs_invariant (P := fun s => Reaches rt path r 0 s ∧
    ∃ pub, Inv rt (fun options => options.keyPolicy = r.policy 0) (fun _ => True) pub s)
    (fun action ha s s' hs hstep => ?_) ⟨.initial hcount, inv_start none⟩ h).1
  obtain ⟨hreaches, pub, hinv⟩ := hs
  have hallowed : action.Allowed (fun options => options.keyPolicy = r.policy 0)
      fun _ => True := by
    cases action with
    | start p options answers => exact hstarts p options answers ha
    | issue p clock loaded => exact fun _ _ => trivial
    | _ => trivial
  have hkeeps : r.Keeps 0 s action := by
    cases action with
    | start p options answers => exact ⟨0, Or.inl rfl, hcount, hstarts p options answers ha⟩
    | load p answers => exact fun options policyDigest hproc => (hinv.proc hproc).2
    | _ => trivial
  exact ⟨.keep hreaches action hkeeps hstep, hinv.step hreads hallowed hstep⟩

namespace Sample

open Manifest.Sample

theorem rotates_handover : Rotates single handover 1 (grant 2 2 2 0) where
  version := by decide
  keys := List.Perm.refl _
  freshKey := by decide
  freshEpoch := by decide
  freshStart := rfl
  freshOpen := rfl

noncomputable def rotation : Rotation handing where
  root := Manifest.Sample.root
  count := 2
  policy i := if i = 0 then single else handover
  cut _ := 1
  fresh _ := grant 2 2 2 0
  valid := by
    intro i _
    by_cases hi : i = 0
    · rw [if_pos hi]
      exact exists_of_isOk (by decide +kernel)
    · rw [if_neg hi]
      exact exists_of_isOk (by decide +kernel)
  rotates := by
    intro i hi
    obtain rfl : i = 0 := by omega
    exact rotates_handover

def published : List Action :=
  [.start 1 (options single 1) lockAnswers, .load 1 missing] ++
    issuing 1 today Manifest.Sample.catalog

theorem started_published {p : ℕ} {given : IssuerOptions} {answers : LockAnswers}
    (h : Action.start p given answers ∈ published) : given.keyPolicy = single := by
  simp only [published, issuing, saveOps, List.map_cons, List.map_nil, List.cons_append,
    List.nil_append, List.mem_cons, List.not_mem_nil, or_false, Action.start.injEq, reduceCtorEq]
    at h
  rw [h.2.1]
  rfl

/-- The run leaves the recorded state on disk. -/
theorem run_published : ∃ s data, run handing statePath (.initial none) published = some s ∧
    s.disk.current = some data ∧ (recorded single 1 1 1).marshal = .ok data ∧
    data.length ≤ maxStateBytes ∧ durableVersion handing s.disk.current = 1 := by
  have hdisk : (run handing statePath (.initial none) published).map (·.disk.current) =
      some (recorded single 1 1 1).marshal.toOption := by decide +kernel
  obtain ⟨s, hrun, hcurrent⟩ := Option.map_eq_some_iff.mp hdisk
  obtain ⟨data, hdata⟩ := exists_of_isOk
    (by decide : (recorded single 1 1 1).marshal.isOk = true)
  rw [hdata] at hcurrent
  refine ⟨s, data, hrun, hcurrent, hdata, (length_marshal rfl rfl rfl hdata).2, ?_⟩
  have hread := readsStates_handing _ _ (utf8_recorded single 1 1 1) hdata
  exact durableVersion_of_holds ⟨data, hcurrent, hread⟩

end Sample

/-- At the cut itself the next policy is loaded and its fresh key starts the issuer. -/
theorem rotation_accepts_iff_published : ∃ s,
    run Sample.handing Sample.statePath (.initial none) Sample.published = some s ∧
      durableVersion Sample.handing s.disk.current = 1 ∧
      ∃ issuer, newIssuer Sample.handing (Sample.options Sample.handover 2) (.ok ())
        (load Sample.handing Sample.statePath
          (Sample.present (Sample.recorded Manifest.Sample.single 1 1 1))) (fun _ => .ok ()) =
        .ok issuer := by
  obtain ⟨s, data, hrun, hcurrent, hdata, hsize, hversion⟩ := Sample.run_published
  have hreaches : Reaches Sample.handing Sample.statePath Sample.rotation 0 s :=
    reaches_run Sample.readsStates_handing (by decide)
      (fun p options answers => Sample.started_published) hrun
  have hanswers : Healthy s.disk
      (Sample.present (Sample.recorded Manifest.Sample.single 1 1 1)) := by
    refine ⟨by decide, fun hnone => ?_, fun other ho => ⟨rfl, ⟨⟨true, 0o600⟩, rfl, rfl, by decide⟩,
      ?_⟩⟩
    · rw [hcurrent] at hnone
      cases hnone
    · obtain rfl := Option.some.inj (hcurrent.symm.trans ho)
      rw [List.take_of_length_le (Nat.le_succ_of_le hsize)]
      exact hdata
  have hauthorized : Authorized Sample.handover (keyID Sample.handing (List.replicate 32 2)) 2 :=
    exists_of_isOk (by decide)
  obtain ⟨policyDigest, hoptions⟩ := exists_of_isOk (by decide +kernel :
    (checkOptions Sample.handing (Sample.options Sample.handover 2)).isOk = true)
  have haccepts := (rotation_accepts_iff Sample.readsStates_handing (by decide) hreaches
    (j := 1) (Or.inr ⟨rfl, by rw [hversion]; exact UInt64.le_refl 1⟩) (by decide)
    (by rw [hversion]; decide) hanswers).1 _ policyDigest (fun _ => .ok ()) rfl hoptions
  refine ⟨s, hrun, hversion, haccepts.mpr ?_⟩
  rw [hversion]
  exact hauthorized

end CloudHelp.Service
