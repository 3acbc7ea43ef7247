import CloudHelp.IssuerSpec

/-!
# The invariant of the processes over a state path

Only the holder of the lock can change the disk or publish, so the other processes do not matter
(`Process.Quiet`). Whatever a power failure may leave on disk, and whatever the holder has in
memory, is a state that no published envelope is ahead of. The invariant is kept by every step
(`Inv.step`), and so by every run (`inv_run`).

`O` and `C` restrict the options of the issuers and the catalogs they load; `pub` gives the origin
of each envelope.
-/

namespace CloudHelp.Service

open Manifest Issuance

variable {rt : Runtime}

/-! ## Origins -/

namespace Publication.Publishes

variable {pub pub' : Publication} {envelope : Envelope}

theorem utf8 (h : pub.Publishes rt envelope) : pub.state.Utf8 := by
  refine ⟨?_, ?_, ?_⟩
  · rw [← h.key]
    exact utf8_digest _
  · rw [← (validateKeyPolicy_eq_ok.mp h.policy).2]
    exact utf8_digest _
  · rw [← (catalogDigest_eq_ok.mp h.catalogDigest).2]
    exact utf8_digest _

theorem version_ne_zero (h : pub.Publishes rt envelope) : pub.state.lastVersion ≠ 0 := by
  obtain ⟨_, hs, _⟩ := issue_eq_ok.mp h.issued
  exact hs.positive

theorem policyVersion_ne_zero (h : pub.Publishes rt envelope) : pub.state.policyVersion ≠ 0 := by
  obtain ⟨⟨_, hs⟩, _⟩ := validateKeyPolicy_eq_ok.mp h.policy
  rw [← h.policyVersion]
  exact (shape_of_ok hs.shape).version

/-- An envelope has one version. -/
theorem version_eq (h : pub.Publishes rt envelope) (h' : pub'.Publishes rt envelope) :
    pub.state.lastVersion = pub'.state.lastVersion := by
  obtain ⟨payload, hs, he⟩ := issue_eq_ok.mp h.issued
  obtain ⟨payload', hs', he'⟩ := issue_eq_ok.mp h'.issued
  have hpayload : payload = payload' :=
    Base64Url.encodeToString_injective (congrArg Envelope.payload (he.trans he'.symm))
  exact Document.version_eq_of_marshal hs.encoded (hpayload ▸ hs'.encoded)

end Publication.Publishes

/-! ## What the calls return -/

namespace Issuer

variable {issuer : Issuer} {now : ℤ}

/-- The deadlines of the cache do not matter to the durable state. -/
theorem Sound.withDeadlines (h : issuer.Sound rt) (lastError : Option Error)
    (retryAt cacheUntil : ℤ) :
    Sound rt
      { issuer with lastError := lastError, retryAt := retryAt, cacheUntil := cacheUntil } :=
  ⟨h.key, h.policy, h.grant, h.policyVersion, h.policyDigest, h.sameKey, h.otherKey⟩

theorem serve_closed (now : ℤ) (h : issuer.closed = true) :
    issuer.serve now = some (.error (.new "issuer: closed")) := if_pos h

/-- A closed issuer has nothing to save. -/
theorem not_closed_of_pending {clock : ℤ} {loaded : Except Error Catalog} {next : State}
    (h : issuer.pending rt clock loaded = some next) : ¬issuer.closed = true := by
  intro hclosed
  obtain ⟨_, hserve, _⟩ := issue_of_pending h
  rw [serve_closed _ hclosed] at hserve
  cases hserve

/-- `Close` leaves a closed issuer. -/
theorem closed_close (issuer : Issuer) : issuer.close.1.closed = true := by
  unfold close
  by_cases hclosed : issuer.closed = true
  · rw [if_pos hclosed]
    exact hclosed
  · rw [if_neg hclosed]

theorem serve_ok {envelope : Envelope} (h : issuer.serve now = some (.ok envelope)) :
    envelope = issuer.cached ∧ issuer.cached.payload ≠ [] := by
  unfold serve at h
  cases herror : issuer.lastError with
  | none =>
      simp only [herror] at h
      split_ifs at h with hclosed hclock hcached
      · cases h
      · cases h
      · exact ⟨(Except.ok.inj (Option.some.inj h)).symm, hcached.1⟩
  | some e =>
      simp only [herror] at h
      split_ifs at h with hclosed hclock hcached hretry hvalid
      · cases h
      · cases h
      · exact ⟨(Except.ok.inj (Option.some.inj h)).symm, hcached.1⟩
      · exact ⟨(Except.ok.inj (Option.some.inj h)).symm, hvalid.1⟩
      · cases h

/-- A failed refresh touches only the fields of the cache. -/
theorem failed_spec (issuer : Issuer) (now : ℤ) (e : Error) :
    (∃ lastError retryAt cacheUntil, (issuer.failed now e).1 =
        { issuer with lastError := lastError, retryAt := retryAt, cacheUntil := cacheUntil }) ∧
      ∀ envelope, (issuer.failed now e).2 = .ok envelope →
        envelope = issuer.cached ∧ issuer.cached.payload ≠ [] := by
  unfold failed
  by_cases hcached : issuer.cached.payload ≠ [] ∧ now < issuer.validUntil
  · rw [if_pos hcached]
    exact ⟨⟨_, _, _, rfl⟩, fun envelope h => ⟨(Except.ok.inj h).symm, hcached.1⟩⟩
  · rw [if_neg hcached]
    exact ⟨⟨_, _, issuer.cacheUntil, rfl⟩, fun envelope h => by cases h⟩

theorem failed_state (issuer : Issuer) (now : ℤ) (e : Error) :
    (issuer.failed now e).1.state = issuer.state ∧
      (issuer.failed now e).1.closed = issuer.closed := by
  obtain ⟨⟨_, _, _, hfields⟩, _⟩ := failed_spec issuer now e
  rw [hfields]
  exact ⟨rfl, rfl⟩

end Issuer

/-! ## The invariant -/

/-- A process that can no longer do anything to the disk or the history. -/
def Process.Quiet : Process → Prop
  | .idle => True
  | .ready issuer => issuer.closed = true
  | _ => False

/-- What holds of the other processes and of the one that takes a step holds of all. -/
theorem forall_procs_update {R : ℕ → Process → Prop} {s s' : System} {p : ℕ} {process : Process}
    (hothers : ∀ q, q ≠ p → R q (s.procs q))
    (hprocs : s'.procs = Function.update s.procs p process) (hprocess : R p process) (q : ℕ) :
    R q (s'.procs q) := by
  rw [hprocs]
  exact (Function.forall_update_iff s.procs R).mpr ⟨hprocess, hothers⟩ q

theorem forall_procs {R : ℕ → Process → Prop} {s s' : System} {p : ℕ} {process : Process}
    (hR : ∀ q process, process.Quiet → R q process) (hquiet : ∀ q ≠ p, (s.procs q).Quiet)
    (hprocs : s'.procs = Function.update s.procs p process) (hprocess : R p process) (q : ℕ) :
    R q (s'.procs q) :=
  forall_procs_update (fun q hq => hR q _ (hquiet q hq)) hprocs hprocess q

section Invariant

variable (rt : Runtime) (O : IssuerOptions → Prop) (C : Catalog → Prop)
  (pub : Envelope → Publication)

structure IssuerInv (history : List Envelope) (issuer : Issuer) : Prop where
  sound : issuer.Sound rt
  allowed : O issuer.options
  bound : ∀ e ∈ history, Behind (pub e).state issuer.state
  cached : issuer.cached.payload ≠ [] → issuer.cached ∈ history ∧
    ∀ e ∈ history, e = issuer.cached ∨ Before (pub e).state (pub issuer.cached).state

def ProcInv (s : System) (p : ℕ) : Process → Prop
  | .idle => True
  | .locked options _ => s.holder = some p ∧ O options
  | .migrating options _ _ _ => s.holder = some p ∧ O options ∧ s.history = []
  | .ready issuer =>
      issuer.closed = true ∨ (s.holder = some p ∧ IssuerInv rt O pub s.history issuer)
  | .saving issuer clock loaded next ops =>
      s.holder = some p ∧ IssuerInv rt O pub s.history issuer ∧
        issuer.pending rt clock loaded = some next ∧ (∀ catalog, loaded = .ok catalog → C catalog) ∧
        s.disk.Underway next ops

/-- What is published, and that nothing which may be on disk is behind it. -/
structure HistoryInv (disk : Disk) (history : List Envelope) : Prop where
  publishes : ∀ e ∈ history, (pub e).Publishes rt e ∧ O (pub e).options ∧ C (pub e).catalog
  ordered : history.Pairwise fun e e' => e = e' ∨ Before (pub e).state (pub e').state
  durable : ∀ content ∈ disk.candidates, ∀ e ∈ history,
    ∃ state, Holds rt content state ∧ Behind (pub e).state state

structure Inv (s : System) : Prop where
  published : HistoryInv rt O C pub s.disk s.history
  procs : ∀ p, ProcInv rt O C pub s p (s.procs p)

end Invariant

variable {O : IssuerOptions → Prop} {C : Catalog → Prop} {pub : Envelope → Publication}
  {s : System} {p : ℕ}

theorem inv_initial (content : Option Bytes) : Inv rt O C pub (.initial content) where
  published := ⟨fun _ he => (List.not_mem_nil he).elim, List.Pairwise.nil,
    fun _ _ _ he => (List.not_mem_nil he).elim⟩
  procs := fun _ => trivial

theorem procInv_of_quiet {process : Process} (h : process.Quiet) :
    ProcInv rt O C pub s p process := by
  cases process with
  | idle => trivial
  | ready issuer => exact Or.inl h
  | _ => exact h.elim

theorem ProcInv.quiet_or_holder {process : Process} (h : ProcInv rt O C pub s p process) :
    process.Quiet ∨ s.holder = some p := by
  cases process with
  | idle => exact Or.inl trivial
  | locked options policyDigest => exact Or.inr h.1
  | migrating options found migrated ops => exact Or.inr h.1
  | ready issuer => exact h.imp_right And.left
  | saving issuer clock loaded next ops => exact Or.inr h.1

namespace Inv

/-- While the lock is free or held by `p`, the other processes are quiet. -/
theorem quiet (h : Inv rt O C pub s) (hp : s.holder = none ∨ s.holder = some p) :
    ∀ q ≠ p, (s.procs q).Quiet := by
  intro q hq
  refine (h.procs q).quiet_or_holder.resolve_right fun hholder => ?_
  rcases hp with hp | hp
  · rw [hp] at hholder
    cases hholder
  · rw [hp] at hholder
    exact hq (Option.some.inj hholder).symm

/-- A step of `p` while the other processes are quiet. -/
theorem of_quiet {process : Process} {s' : System} (hquiet : ∀ q ≠ p, (s.procs q).Quiet)
    (hprocs : s'.procs = Function.update s.procs p process)
    (hpublished : HistoryInv rt O C pub s'.disk s'.history)
    (hprocess : ProcInv rt O C pub s' p process) : Inv rt O C pub s' :=
  ⟨hpublished, forall_procs (fun _ _ => procInv_of_quiet) hquiet hprocs hprocess⟩

/-- A process that falls quiet without the lock changes nothing for the others. -/
theorem setProc_quiet (h : Inv rt O C pub s) {process : Process} (hprocess : process.Quiet) :
    Inv rt O C pub (s.setProc p process) := by
  refine ⟨h.published, fun q => ?_⟩
  by_cases hq : q = p
  · have hself : (s.setProc p process).procs q = process := by
      rw [hq]
      exact Function.update_self ..
    rw [hself]
    exact procInv_of_quiet hprocess
  · have hother : (s.setProc p process).procs q = s.procs q := Function.update_of_ne hq ..
    rw [hother]
    have hproc := h.procs q
    cases hprocq : s.procs q with
    | idle => trivial
    | locked options policyDigest => exact hprocq ▸ hproc
    | migrating options found migrated ops => exact hprocq ▸ hproc
    | ready issuer => exact hprocq ▸ hproc
    | saving issuer clock loaded next ops => exact hprocq ▸ hproc

end Inv

/-- The invariant apart from the process that holds the lock. -/
structure Owned (rt : Runtime) (O : IssuerOptions → Prop) (C : Catalog → Prop)
    (pub : Envelope → Publication) (s : System) (p : ℕ) : Prop where
  holder : s.holder = some p
  published : HistoryInv rt O C pub s.disk s.history
  quiet : ∀ q ≠ p, (s.procs q).Quiet

theorem Inv.owned (h : Inv rt O C pub s) (hp : s.holder = some p) : Owned rt O C pub s p :=
  ⟨hp, h.published, h.quiet (Or.inr hp)⟩

namespace Owned

theorem withDisk (h : Owned rt O C pub s p) {disk : Disk}
    (hdisk : HistoryInv rt O C pub disk s.history) :
    Owned rt O C pub { s with disk := disk } p :=
  ⟨h.holder, hdisk, h.quiet⟩

/-- The holder gives up the lock. -/
theorem release (h : Owned rt O C pub s p) {process : Process} (hprocess : process.Quiet) :
    Inv rt O C pub { s.setProc p process with holder := none } :=
  Inv.of_quiet h.quiet rfl h.published (procInv_of_quiet hprocess)

/-- The holder goes on. -/
theorem setProc (h : Owned rt O C pub s p) {process : Process}
    (hprocess : ProcInv rt O C pub (s.setProc p process) p process) :
    Inv rt O C pub (s.setProc p process) :=
  Inv.of_quiet h.quiet rfl h.published hprocess

end Owned

/-! ## Returning from a call -/

namespace HistoryInv

variable {disk disk' : Disk} {history : List Envelope} {envelope : Envelope} {origin : Publication}
  {pub' : Envelope → Publication}

/-- An envelope sealed from a state ahead of the history is new, so it can be given its origin. -/
theorem exists_origin (h : HistoryInv rt O C pub disk history)
    (hpublishes : origin.Publishes rt envelope)
    (hbefore : ∀ e ∈ history, Before (pub e).state origin.state) :
    ∃ pub' : Envelope → Publication, pub' envelope = origin ∧ ∀ e ∈ history, pub' e = pub e := by
  refine ⟨Function.update pub envelope origin, Function.update_self .., fun e he => ?_⟩
  refine Function.update_of_ne ?_ ..
  rintro rfl
  have hlt := (hbefore e he).2
  rw [(h.publishes e he).1.version_eq hpublishes] at hlt
  exact UInt64.lt_irrefl _ hlt

theorem snoc (h : HistoryInv rt O C pub disk history) (hself : pub' envelope = origin)
    (hold : ∀ e ∈ history, pub' e = pub e) (hpublishes : origin.Publishes rt envelope)
    (hO : O origin.options) (hC : C origin.catalog)
    (hbefore : ∀ e ∈ history, Before (pub e).state origin.state)
    (hdurable : ∀ content ∈ disk'.candidates, Holds rt content origin.state) :
    HistoryInv rt O C pub' disk' (history ++ [envelope]) := by
  refine ⟨fun e he => ?_, ?_, fun content hc e he => ⟨origin.state, hdurable content hc, ?_⟩⟩
  · rcases List.mem_append.mp he with he | he
    · rw [hold e he]
      exact h.publishes e he
    · rw [List.mem_singleton.mp he, hself]
      exact ⟨hpublishes, hO, hC⟩
  · refine List.pairwise_append.mpr ⟨?_, List.pairwise_singleton _ _, fun e he e' he' => ?_⟩
    · refine h.ordered.imp_of_mem fun he he' hr => ?_
      rw [hold _ he, hold _ he']
      exact hr
    · rw [List.mem_singleton.mp he', hself, hold e he]
      exact Or.inr (hbefore e he)
  · rcases List.mem_append.mp he with he | he
    · rw [hold e he]
      exact (hbefore e he).1
    · rw [List.mem_singleton.mp he, hself]
      exact Behind.refl _

end HistoryInv

namespace IssuerInv

variable {history : List Envelope} {issuer : Issuer}

theorem retry (h : IssuerInv rt O pub history issuer) (lastError : Option Error)
    (retryAt cacheUntil : ℤ) :
    IssuerInv rt O pub history
      { issuer with lastError := lastError, retryAt := retryAt, cacheUntil := cacheUntil } :=
  ⟨h.sound.withDeadlines lastError retryAt cacheUntil, h.allowed, h.bound, h.cached⟩

/-- The state of the next publication is ahead of everything published. -/
theorem before (h : IssuerInv rt O pub history issuer) {disk : Disk}
    (hh : HistoryInv rt O C pub disk history) {now : ℤ} {loaded : Except Error Catalog}
    {envelope : Envelope} {next : State}
    (hplan : issuer.plan rt now loaded = .ok (envelope, next)) :
    ∀ e ∈ history, Before (pub e).state next := by
  intro e he
  obtain ⟨hlt, hbehind⟩ := h.sound.ahead hplan
  have hbound := h.bound e he
  have hzero : issuer.state.lastVersion ≠ 0 := by
    intro hz
    refine (hh.publishes e he).1.version_ne_zero (UInt64.le_antisymm ?_ (UInt64.zero_le))
    exact hz ▸ hbound.version
  exact ⟨hbound.trans (hbehind hzero), UInt64.lt_of_le_of_lt hbound.version hlt⟩

/-- A new issuer over a state that nothing published is ahead of. -/
theorem of_newIssuer {disk : Disk} (hh : HistoryInv rt O C pub disk history)
    {options : IssuerOptions} (hO : O options) {found : Option State}
    (hfound : ∀ e ∈ history, ∃ state, found = some state ∧ Behind (pub e).state state)
    {save : State → Except Error Unit}
    (h : newIssuer rt options (.ok ()) (.ok found) save = .ok issuer) :
    IssuerInv rt O pub history issuer := by
  obtain ⟨hsound, hoptions, hcached, hstate⟩ := newIssuer_sound h
  refine ⟨hsound, hoptions ▸ hO, fun e he => ?_, fun hne => absurd hcached hne⟩
  obtain ⟨state, rfl, hbehind⟩ := hfound e he
  rw [hstate]
  · exact hbehind
  · intro other ho
    obtain rfl := Option.some.inj ho
    intro hz
    refine (hh.publishes e he).1.policyVersion_ne_zero (UInt64.le_antisymm ?_ (UInt64.zero_le))
    exact hz ▸ hbehind.policyVersion

end IssuerInv

namespace Owned

theorem startReturns (h : Owned rt O C pub s p) {result : Except Error Issuer}
    (hresult : ∀ issuer, result = .ok issuer → IssuerInv rt O pub s.history issuer) :
    Inv rt O C pub (s.startReturns p result) := by
  cases result with
  | error e => exact h.release trivial
  | ok issuer => exact h.setProc (Or.inr ⟨h.holder, hresult issuer rfl⟩)

/-- An `Issue` that returns an error or what it has cached. -/
theorem issueReturns (h : Owned rt O C pub s p) {issuer : Issuer}
    (hi : IssuerInv rt O pub s.history issuer) {result : Except Error Envelope}
    (hresult : ∀ e, result = .ok e → e = issuer.cached ∧ issuer.cached.payload ≠ []) :
    Inv rt O C pub (s.issueReturns p (issuer, result)) := by
  cases result with
  | error e => exact h.setProc (Or.inr ⟨h.holder, hi⟩)
  | ok envelope =>
      obtain ⟨rfl, hne⟩ := hresult envelope rfl
      obtain ⟨hmem, hlast⟩ := hi.cached hne
      -- the history only repeats an envelope
      have hsub : ∀ e ∈ s.history ++ [issuer.cached], e ∈ s.history := by
        intro e he
        rcases List.mem_append.mp he with he | he
        · exact he
        · exact (List.mem_singleton.mp he) ▸ hmem
      refine Inv.of_quiet h.quiet rfl ⟨?_, ?_, ?_⟩ (Or.inr ⟨h.holder, hi.sound, hi.allowed, ?_, ?_⟩)
      · exact fun e he => h.published.publishes e (hsub e he)
      · refine List.pairwise_append.mpr ⟨h.published.ordered, List.pairwise_singleton _ _, ?_⟩
        intro e he e' he'
        rw [List.mem_singleton.mp he']
        exact hlast e he
      · exact fun content hc e he => h.published.durable content hc e (hsub e he)
      · exact fun e he => hi.bound e (hsub e he)
      · exact fun _ => ⟨List.mem_append_left _ hmem, fun e he => hlast e (hsub e he)⟩

theorem issueFailed (h : Owned rt O C pub s p) {issuer : Issuer}
    (hi : IssuerInv rt O pub s.history issuer) (now : ℤ) (e : Error) :
    Inv rt O C pub (s.issueReturns p (issuer.failed now e)) := by
  obtain ⟨⟨lastError, retryAt, cacheUntil, hfst⟩, hsnd⟩ := issuer.failed_spec now e
  have hpair : issuer.failed now e = ({ issuer with
      lastError := lastError, retryAt := retryAt, cacheUntil := cacheUntil },
      (issuer.failed now e).2) := Prod.ext hfst rfl
  rw [hpair]
  exact h.issueReturns (hi.retry lastError retryAt cacheUntil) hsnd

/-- An `Issue` that publishes, once its state is durable. -/
theorem issuePublished (hreads : ReadsStates rt) (h : Owned rt O C pub s p)
    {issuer : Issuer} (hi : IssuerInv rt O pub s.history issuer) {clock : ℤ}
    {loaded : Except Error Catalog} (hC : ∀ catalog, loaded = .ok catalog → C catalog)
    {envelope : Envelope} {next : State}
    (hplan : issuer.plan rt (Time.truncateSecond clock) loaded = .ok (envelope, next))
    {disk : Disk} {data : Bytes} (hdata : next.marshal = .ok data)
    (hdisk : disk.candidates = [some data]) :
    ∃ pub', Inv rt O C pub' ({ s with disk := disk }.issueReturns p
      (issuer.published (Time.truncateSecond clock) envelope next)) := by
  obtain ⟨catalog, hloaded, hpublishes⟩ := hi.sound.publishes hplan
  have hbefore := hi.before h.published hplan
  obtain ⟨pub', hself, hold⟩ := h.published.exists_origin hpublishes hbefore
  have hdurable : ∀ content ∈ disk.candidates, Holds rt content next := by
    intro content hc
    rw [hdisk] at hc
    rw [List.mem_singleton.mp hc]
    exact ⟨data, rfl, hreads next data hpublishes.utf8 hdata⟩
  have hahead : ∀ e ∈ s.history ++ [envelope], e = envelope ∨ Before (pub' e).state next := by
    intro e he
    rcases List.mem_append.mp he with he | he
    · refine Or.inr ?_
      rw [hold e he]
      exact hbefore e he
    · exact Or.inl (List.mem_singleton.mp he)
  have hhistory : HistoryInv rt O C pub' disk (s.history ++ [envelope]) :=
    h.published.snoc hself hold hpublishes hi.allowed (hC catalog hloaded) hbefore hdurable
  refine ⟨pub', Inv.of_quiet h.quiet rfl hhistory
    (Or.inr ⟨h.holder, hi.sound.of_published hplan, hi.allowed, fun e he => ?_, fun _ => ⟨?_, ?_⟩⟩)⟩
  · rcases hahead e he with rfl | hb
    · rw [hself]
      exact Behind.refl next
    · exact hb.1
  · exact List.mem_append_right _ List.mem_cons_self
  · intro e he
    refine (hahead e he).imp_right fun hb => ?_
    rw [Issuer.published, hself]
    exact hb

end Owned

end CloudHelp.Service
