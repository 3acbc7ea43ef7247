import CloudHelp.IssuerInvariant
import CloudHelp.RoundTrip

/-!
# Safety of the issuer over whole runs

Every step of every process keeps the invariant, so any two envelopes that were ever returned are
the same or the later one is ahead of the earlier in each respect the durable state records.
-/

namespace CloudHelp.Service

open Manifest Issuance

variable {rt : Runtime} {path : Bytes} {O : IssuerOptions → Prop} {C : Catalog → Prop}
  {pub : Envelope → Publication} {s s' : System} {p : ℕ}

def Action.Allowed (O : IssuerOptions → Prop) (C : Catalog → Prop) : Action → Prop
  | .start _ options _ => O options
  | .issue _ _ loaded => ∀ catalog, loaded = .ok catalog → C catalog
  | _ => True

theorem Action.allowed_true (action : Action) :
    action.Allowed (fun _ => True) fun _ => True := by
  cases action with
  | issue p clock loaded => exact fun _ _ => trivial
  | _ => trivial

/-! ## One step -/

/-- While nothing is published the disk may hold anything. -/
theorem historyInv_nil (disk : Disk) {history : List Envelope} (hnil : history = []) :
    HistoryInv rt O C pub disk history := by
  subst hnil
  exact ⟨fun _ he => (List.not_mem_nil he).elim, List.Pairwise.nil,
    fun _ _ _ he => (List.not_mem_nil he).elim⟩

/-- An operation of a save brings in at most the state that is saved. -/
theorem HistoryInv.perform {disk disk' : Disk} {history : List Envelope}
    (h : HistoryInv rt O C pub disk history) {next : State}
    (hread : ∀ data, next.marshal = .ok data → Issuance.decodeStrict rt data = .ok next)
    (hbefore : ∀ e ∈ history, Before (pub e).state next) {op : SaveOp}
    (hperform : disk.perform next op = some disk') : HistoryInv rt O C pub disk' history := by
  refine ⟨h.publishes, h.ordered, fun content hc e he => ?_⟩
  rcases Disk.perform_candidates hperform content hc with hold | ⟨data, hdata, rfl⟩
  · exact h.durable content hold e he
  · exact ⟨next, ⟨data, rfl, hread data hdata⟩, (hbefore e he).1⟩

namespace Inv

theorem proc (h : Inv rt O C pub s) {process : Process} (hproc : s.procs p = process) :
    ProcInv rt O C pub s p process := hproc ▸ h.procs p

/-- What a start finds is not behind anything published. -/
theorem found_ahead (h : Inv rt O C pub s) {answers : LoadAnswers} {found : Option State}
    (hfits : s.disk.fits answers = true) (hload : load rt path answers = .ok found) :
    ∀ e ∈ s.history, ∃ state, found = some state ∧ Behind (pub e).state state := by
  intro e he
  obtain ⟨state, ⟨data, hcurrent, hdecode⟩, hbehind⟩ :=
    h.published.durable s.disk.current List.mem_cons_self e he
  rcases load_fits hfits hload with ⟨_, hnone⟩ | ⟨other, hfound, data', hcurrent', hdecode'⟩
  · rw [hnone] at hcurrent
    cases hcurrent
  · obtain rfl : data = data' := Option.some.inj (hcurrent.symm.trans hcurrent')
    obtain rfl : state = other := Except.ok.inj (hdecode.symm.trans hdecode')
    exact ⟨state, hfound, hbehind⟩

/-- Only a state older than every publication lacks a policy. -/
theorem history_nil_of_migrate (h : Inv rt O C pub s) {options : IssuerOptions}
    {policyDigest : Bytes} {found : Option State} {migrated : State}
    (hfound : ∀ e ∈ s.history, ∃ state, found = some state ∧ Behind (pub e).state state)
    (hmigrate : migrate options policyDigest found = .ok (some migrated)) : s.history = [] := by
  refine List.eq_nil_iff_forall_not_mem.mpr fun e he => ?_
  obtain ⟨state, rfl, hbehind⟩ := hfound e he
  refine (h.published.publishes e he).1.policyVersion_ne_zero
    (UInt64.le_antisymm ?_ (UInt64.zero_le))
  by_cases hz : state.policyVersion = 0
  · exact hz ▸ hbehind.policyVersion
  · rw [migrate, if_pos hz] at hmigrate
    cases hmigrate

theorem issue_ready (h : Inv rt O C pub s) {issuer : Issuer} {clock : ℤ}
    {loaded : Except Error Catalog} (hproc : s.procs p = .ready issuer)
    (hpending : issuer.pending rt clock loaded = none) (save : State → Except Error Unit) :
    Inv rt O C pub (s.issueReturns p (issuer.issue rt clock loaded save)) := by
  rcases h.proc hproc with hclosed | ⟨hp, hi⟩
  · have hserve := Issuer.serve_closed (Time.truncateSecond clock) hclosed
    simp only [Issuer.issue, hserve]
    exact h.setProc_quiet hclosed
  · rcases issue_of_pending_none hpending save with ⟨answer, hserve, hissue⟩ | ⟨e, hissue⟩
    · rw [hissue]
      refine (h.owned hp).issueReturns hi fun e he => ?_
      subst he
      exact Issuer.serve_ok hserve
    · rw [hissue]
      exact (h.owned hp).issueFailed hi _ _

theorem ready_of_pending (h : Inv rt O C pub s) {issuer : Issuer} {clock : ℤ}
    {loaded : Except Error Catalog} {next : State} (hproc : s.procs p = .ready issuer)
    (hpending : issuer.pending rt clock loaded = some next) :
    s.holder = some p ∧ IssuerInv rt O pub s.history issuer :=
  (h.proc hproc).resolve_left (Issuer.not_closed_of_pending hpending)

theorem issue_saving (hreads : ReadsStates rt) (h : Inv rt O C pub s) {issuer : Issuer} {clock : ℤ}
    {loaded : Except Error Catalog} {next : State} {op : SaveOp} {ops : List SaveOp} {disk : Disk}
    (hproc : s.procs p = .saving issuer clock loaded next (op :: ops))
    (hperform : s.disk.perform next op = some disk) :
    Inv rt O C pub ({ s with disk := disk }.setProc p (.saving issuer clock loaded next ops)) := by
  obtain ⟨hp, hi, hpending, hC, hunderway⟩ := h.proc hproc
  obtain ⟨envelope, _, hplan, _⟩ := issue_of_pending hpending
  obtain ⟨catalog, _, hpublishes⟩ := hi.sound.publishes hplan
  have hhistory := h.published.perform (fun data hdata => hreads next data hpublishes.utf8 hdata)
    (hi.before h.published hplan) hperform
  exact ((h.owned hp).withDisk hhistory).setProc
    ⟨hp, hi, hpending, hC, hunderway.perform hperform⟩

theorem issue_saved (hreads : ReadsStates rt) (h : Inv rt O C pub s) {issuer : Issuer} {clock : ℤ}
    {loaded : Except Error Catalog} {next : State} {op : SaveOp} {disk : Disk}
    (hproc : s.procs p = .saving issuer clock loaded next [op])
    (hperform : s.disk.perform next op = some disk) :
    ∃ pub', Inv rt O C pub' ({ s with disk := disk }.issueReturns p
      (issuer.issue rt clock loaded fun _ => .ok ())) := by
  obtain ⟨hp, hi, hpending, hC, hunderway⟩ := h.proc hproc
  obtain ⟨envelope, _, hplan, hissue⟩ := issue_of_pending hpending
  obtain ⟨data, hdata, hdisk⟩ := hunderway.durable hperform
  rw [hissue]
  exact (h.owned hp).issuePublished hreads hi hC hplan hdata hdisk

theorem close (h : Inv rt O C pub s) {issuer : Issuer} (hproc : s.procs p = .ready issuer) :
    Inv rt O C pub { s.setProc p (.ready issuer.close.1) with
      holder := if issuer.close.2 = true then none else s.holder } := by
  by_cases hclosed : issuer.closed = true
  · rw [Issuer.close, if_pos hclosed]
    exact h.setProc_quiet hclosed
  · rw [Issuer.close, if_neg hclosed]
    exact (h.owned ((h.proc hproc).resolve_left hclosed).1).release rfl

theorem crash (h : Inv rt O C pub s) (p : ℕ) :
    Inv rt O C pub
      { s.setProc p .idle with holder := if s.holder = some p then none else s.holder } := by
  by_cases hp : s.holder = some p
  · rw [if_pos hp]
    exact (h.owned hp).release trivial
  · rw [if_neg hp]
    exact h.setProc_quiet trivial

theorem powerLoss (h : Inv rt O C pub s) {content : Option Bytes}
    (hc : content ∈ s.disk.candidates) :
    Inv rt O C pub ⟨⟨content, []⟩, none, fun _ => .idle, s.history⟩ where
  published := by
    refine ⟨h.published.publishes, h.published.ordered, fun other ho e he => ?_⟩
    obtain rfl := List.mem_singleton.mp ho
    exact h.published.durable other hc e he
  procs := fun _ => trivial

/-- The invariant survives every step; only a publication adds an origin. -/
theorem step (hreads : ReadsStates rt) (h : Inv rt O C pub s) {action : Action}
    (hallowed : action.Allowed O C) (hs : step rt path s action = some s') :
    ∃ pub', Inv rt O C pub' s' := by
  cases step_effect hs with
  | refused p options answers => exact ⟨pub, h⟩
  | acquired hoptions hfree =>
      exact ⟨pub, of_quiet (h.quiet (Or.inl hfree)) rfl h.published ⟨rfl, hallowed⟩⟩
  | notLoaded hproc e =>
      exact ⟨pub, (h.owned (h.proc hproc).1).startReturns fun issuer hi => by cases hi⟩
  | started hproc hfits hload save =>
      obtain ⟨hp, hO⟩ := h.proc hproc
      exact ⟨pub, (h.owned hp).startReturns fun issuer hi =>
        IssuerInv.of_newIssuer h.published hO (h.found_ahead hfits hload) hi⟩
  | migrates hproc hfits hload hmigrate =>
      obtain ⟨hp, hO⟩ := h.proc hproc
      exact ⟨pub, (h.owned hp).setProc
        ⟨hp, hO, h.history_nil_of_migrate (h.found_ahead hfits hload) hmigrate⟩⟩
  | migrationStopped hproc outcome save =>
      obtain ⟨hp, hO, hnil⟩ := h.proc hproc
      exact ⟨pub, (h.owned hp).startReturns fun issuer hi => IssuerInv.of_newIssuer h.published hO
        (fun e he => (List.not_mem_nil (hnil ▸ he)).elim) hi⟩
  | migrated hproc outcome disk save =>
      obtain ⟨hp, hO, hnil⟩ := h.proc hproc
      exact ⟨pub, ((h.owned hp).withDisk (historyInv_nil disk hnil)).startReturns fun issuer hi =>
        IssuerInv.of_newIssuer h.published hO (fun e he => (List.not_mem_nil (hnil ▸ he)).elim) hi⟩
  | migrating hproc outcome disk rest =>
      obtain ⟨hp, hO, hnil⟩ := h.proc hproc
      exact ⟨pub, ((h.owned hp).withDisk (historyInv_nil disk hnil)).setProc ⟨hp, hO, hnil⟩⟩
  | saveStopped hproc outcome e =>
      obtain ⟨hp, hi, hpending, _⟩ := h.proc hproc
      obtain ⟨envelope, _, _, hissue⟩ := issue_of_pending hpending
      rw [hissue]
      exact ⟨pub, (h.owned hp).issueFailed hi _ _⟩
  | saved hproc hperform outcome => exact h.issue_saved hreads hproc hperform
  | saving hproc hperform outcome => exact ⟨pub, h.issue_saving hreads hproc hperform⟩
  | answered hproc hpending => exact ⟨pub, h.issue_ready hproc hpending _⟩
  | unsaved hproc hpending e =>
      obtain ⟨hp, hi⟩ := h.ready_of_pending hproc hpending
      obtain ⟨envelope, _, _, hissue⟩ := issue_of_pending hpending
      rw [hissue]
      exact ⟨pub, (h.owned hp).issueFailed hi _ _⟩
  | saves hproc hpending hsave =>
      obtain ⟨hp, hi⟩ := h.ready_of_pending hproc hpending
      exact ⟨pub, (h.owned hp).setProc ⟨hp, hi, hpending, hallowed, Disk.underway_saveOps _ _⟩⟩
  | closed hproc => exact ⟨pub, h.close hproc⟩
  | crashed p => exact ⟨pub, h.crash p⟩
  | lostPower hc => exact ⟨pub, h.powerLoss hc⟩

end Inv

theorem inv_start (content : Option Bytes) : ∃ pub, Inv rt O C pub (.initial content) :=
  ⟨fun _ => ⟨⟨[], 0, 0, [], [], ⟨0, [], [], []⟩⟩, ⟨0, [], []⟩, .empty⟩, inv_initial content⟩

theorem inv_run (hreads : ReadsStates rt) {content : Option Bytes} {actions : List Action}
    (hallowed : ∀ action ∈ actions, action.Allowed O C)
    (h : run rt path (.initial content) actions = some s) : ∃ pub, Inv rt O C pub s :=
  runs_invariant (P := fun s => ∃ pub, Inv rt O C pub s)
    (fun action ha _ _ ⟨_, hinv⟩ hs => hinv.step hreads (hallowed action ha) hs)
    (inv_start content) h

/-! ## What is published -/

/-- The envelope carries the document, with the digests of its catalog and policy and the epoch of
the key that signed it. -/
structure Carries (rt : Runtime) (envelope : Envelope) (document : Document)
    (catalogSHA policySHA : Bytes) (epoch : UInt64) : Prop where
  payload : ∃ payload, document.marshal = .ok payload ∧
    envelope.payload = Base64Url.encodeToString payload
  catalog : catalogDigest rt ⟨document.catalogRevision, document.discovery, document.nodes⟩ =
    .ok catalogSHA
  policy : ∃ root, validateKeyPolicy rt document.keyPolicy root = .ok policySHA
  signer : ∃ grant raw,
    keyPolicyGrant document.keyPolicy envelope.keyID document.version = .ok (grant, raw) ∧
      grant.epoch = epoch

namespace Publication.Publishes

variable {origin : Publication} {envelope : Envelope}

theorem keyID_eq (h : origin.Publishes rt envelope) : envelope.keyID = origin.state.keyID := by
  obtain ⟨payload, _, rfl⟩ := issue_eq_ok.mp h.issued
  exact h.key

theorem catalogRevision_eq (h : origin.Publishes rt envelope) :
    (origin.document rt).catalogRevision = origin.state.catalogRevision := h.revision

theorem issuedAt_eq (h : origin.Publishes rt envelope) :
    (origin.document rt).issuedAt = origin.state.lastIssuedAt := h.truncated

theorem policyVersion_eq (h : origin.Publishes rt envelope) :
    (origin.document rt).keyPolicy.version = origin.state.policyVersion := h.policyVersion

theorem shape (h : origin.Publishes rt envelope) : Shape rt origin.options.keyPolicy := by
  obtain ⟨⟨signature, hsigned⟩, _⟩ := validateKeyPolicy_eq_ok.mp h.policy
  exact shape_of_ok hsigned.shape

/-- The epoch that the state records is that of the grant for the version. -/
theorem granted (h : origin.Publishes rt envelope) :
    ∃ grant raw, keyPolicyGrant origin.options.keyPolicy origin.state.keyID
      origin.state.lastVersion = .ok (grant, raw) ∧ grant.epoch = origin.state.keyEpoch := by
  obtain ⟨payload, hs, _⟩ := issue_eq_ok.mp h.issued
  obtain ⟨⟨grant, raw⟩, hgrant⟩ := hs.grant
  rw [h.key] at hgrant
  obtain ⟨g, hg, hid, hepoch⟩ := h.grant
  obtain ⟨hmem, hkey, _⟩ := h.shape.grant_eq_ok.mp hgrant
  obtain rfl : grant = g := h.shape.eq_of_keyID hmem hg (hkey.trans hid.symm)
  exact ⟨grant, raw, hgrant, hepoch⟩

/-- It is also that of the grant the document shows. -/
theorem signer (h : origin.Publishes rt envelope) :
    ∃ grant raw, keyPolicyGrant (origin.document rt).keyPolicy envelope.keyID
      (origin.document rt).version = .ok (grant, raw) ∧ grant.epoch = origin.state.keyEpoch := by
  obtain ⟨grant, raw, hgrant, hepoch⟩ := h.granted
  refine ⟨grant, raw, ?_, hepoch⟩
  rw [h.keyID_eq]
  exact (h.shape.grant_canonical _ _).trans hgrant

theorem carries (h : origin.Publishes rt envelope) :
    Carries rt envelope (origin.document rt) origin.state.catalogSHA256 origin.state.policySHA256
      origin.state.keyEpoch := by
  obtain ⟨payload, hs, he⟩ := issue_eq_ok.mp h.issued
  refine ⟨⟨payload, hs.encoded, he ▸ rfl⟩, ?_, ⟨_, validateKeyPolicy_canonical h.policy⟩, h.signer⟩
  exact catalogDigest_of_reordered (reordered_canonicalCatalog origin.catalog) h.catalogDigest

end Publication.Publishes

/-- Over any number of processes on one state path, any interleaving of their steps, any failures
of their saves, crashes and power failures: of two different envelopes that `Issue` has returned,
the later has the higher version, and is not behind in its catalog, its time, its policy or its
signing key. -/
theorem issuer_safe (hreads : ReadsStates rt) {content : Option Bytes} {actions : List Action}
    (h : run rt path (.initial content) actions = some s) :
    ∃ (document : Envelope → Document) (catalogSHA policySHA : Envelope → Bytes)
      (epoch : Envelope → UInt64),
      (∀ e ∈ s.history, Carries rt e (document e) (catalogSHA e) (policySHA e) (epoch e)) ∧
      (s.history.Pairwise fun e e' => e ≠ e' →
        (document e).version < (document e').version ∧
        (document e).catalogRevision ≤ (document e').catalogRevision ∧
        ((document e).catalogRevision = (document e').catalogRevision →
          catalogSHA e = catalogSHA e') ∧
        (document e).issuedAt ≤ (document e').issuedAt ∧
        (document e).keyPolicy.version ≤ (document e').keyPolicy.version ∧
        ((document e).keyPolicy.version = (document e').keyPolicy.version →
          policySHA e = policySHA e') ∧
        epoch e ≤ epoch e' ∧ (e.keyID ≠ e'.keyID → epoch e < epoch e')) ∧
      (∀ e ∈ s.history, ∀ e' ∈ s.history, (document e).version = (document e').version →
        e = e') := by
  obtain ⟨pub, hinv⟩ := inv_run (O := fun _ => True) (C := fun _ => True) hreads
    (fun action _ => action.allowed_true) h
  have hpublishes : ∀ e ∈ s.history, (pub e).Publishes rt e :=
    fun e he => (hinv.published.publishes e he).1
  refine ⟨fun e => (pub e).document rt, fun e => (pub e).state.catalogSHA256,
    fun e => (pub e).state.policySHA256, fun e => (pub e).state.keyEpoch,
    fun e he => (hpublishes e he).carries, ?_, ?_⟩
  · refine hinv.published.ordered.imp_of_mem fun {e e'} he he' hr hne => ?_
    obtain ⟨hbehind, hlt⟩ := hr.resolve_left hne
    have hp := hpublishes e he
    have hp' := hpublishes e' he'
    simp only [hp.catalogRevision_eq, hp'.catalogRevision_eq, hp.issuedAt_eq, hp'.issuedAt_eq,
      hp.policyVersion_eq, hp'.policyVersion_eq, hp.keyID_eq, hp'.keyID_eq]
    exact ⟨hlt, hbehind.revision, hbehind.catalog, hbehind.issuedAt, hbehind.policyVersion,
      hbehind.policy, hbehind.epoch, hbehind.key⟩
  · intro e he e' he' hversion
    by_contra hne
    have hversion' : (pub e).state.lastVersion = (pub e').state.lastVersion := hversion
    rcases pairwise_cases hinv.published.ordered he he' with rfl | hr | hr
    · exact hne rfl
    · exact UInt64.lt_irrefl _ (hversion' ▸ (hr.resolve_left hne).2)
    · exact UInt64.lt_irrefl _ (hversion' ▸ (hr.resolve_left (Ne.symm hne)).2)

namespace Sample

open Manifest.Sample Classical in
noncomputable def durable : Runtime :=
  { inverting with
    decodeState := fun data =>
      if h : ∃ state : State, state.Utf8 ∧ state.marshal = .ok data then .ok (h.choose, [])
      else .error (.library "invalid character") }

theorem readsStates_durable : ReadsStates durable := by
  intro state data hutf8 hdata
  have hex : ∃ state : State, state.Utf8 ∧ state.marshal = .ok data := ⟨state, hutf8, hdata⟩
  have hdecode : durable.decodeState data = .ok (hex.choose, []) := dif_pos hex
  have hchoose : hex.choose = state :=
    State.marshal_injOn hex.choose_spec.1 hutf8 hex.choose_spec.2 hdata
  rw [Issuance.decodeStrict, hdecode, hchoose]
  rfl

def statePath : Bytes := str "/state"

def options (policy : KeyPolicy) (seed : UInt8) : IssuerOptions :=
  ⟨statePath, Duration.hour, 30 * Duration.minute, List.replicate 64 seed, Manifest.Sample.root,
    policy⟩

def lockAnswers : LockAnswers :=
  ⟨.ok (), .ok ⟨true, 0o700⟩, .ok (), .ok (), .ok (), .ok ⟨true, 0o600⟩, .ok ()⟩

def missing : LoadAnswers := ⟨.ok ⟨true, 0o700⟩, .error .notExist, .ok ⟨true, 0o600⟩, .ok []⟩

def issuing (p : ℕ) (clock : ℤ) (catalog : Catalog) : List Action :=
  .issue p clock (.ok catalog) :: saveOps.map fun _ => .fileOp p (.ok ())

def retried : List Action :=
  [.start 1 (options Manifest.Sample.rotated 1) lockAnswers, .load 1 missing] ++
    issuing 1 Manifest.Sample.today Manifest.Sample.catalog ++
    (issuing 1 (Manifest.Sample.today + Duration.hour) Manifest.Sample.catalog).dropLast ++
    [.fileOp 1 (.error (.library "input/output error"))] ++
    issuing 1 (Manifest.Sample.today + 2 * Duration.hour) Manifest.Sample.catalog

theorem run_retried : ∃ s, run durable statePath (.initial none) retried = some s ∧
    s.history.length = 2 := by
  have hlength : (run durable statePath (.initial none) retried).map (·.history.length) =
      some 2 := by
    decide +kernel
  exact Option.map_eq_some_iff.mp hlength

end Sample

theorem issuer_safe_retried : ∃ s,
    run Sample.durable Sample.statePath (.initial none) Sample.retried = some s ∧
    s.history.length = 2 ∧ ∃ document : Envelope → Document,
      s.history.Pairwise fun e e' => e ≠ e' → (document e).version < (document e').version := by
  obtain ⟨s, hrun, hlength⟩ := Sample.run_retried
  obtain ⟨document, _, _, _, _, hpairwise, _⟩ := issuer_safe Sample.readsStates_durable hrun
  exact ⟨s, hrun, hlength, document, hpairwise.imp fun h hne => (h hne).1⟩

end CloudHelp.Service
