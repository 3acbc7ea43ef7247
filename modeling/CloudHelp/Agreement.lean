import CloudHelp.Continuity
import CloudHelp.DiscoveryFallback
import CloudHelp.ManifestDecoding

/-!
# Issuers, mirrors and clients together

The issuers of one state file run as in `IssuerSystem`, with any interleaving of their steps,
crashes and power failures. Between those steps any number of clients call `Fetch`, each with its
own settings and the state that its last success returned. What the mirrors answer is not
restricted, except that they forge no signatures (`Unforged`): neither the root's on a policy, nor
that of a key the root has granted on a payload. A mirror may hold envelopes back, serve old ones,
or write the same payload in another spelling.

All that clients accept then lies on the one line of the issuers' publications: two clients never
accept different documents of one version, and no client is ahead of what is on disk.
-/

namespace CloudHelp.Agreement

open Manifest Issuance Service Discovery

variable {rt : Runtime}

/-! ## What a `Fetch` returns -/

/-- A loop that returns a document has asked a mirror that verifies. -/
theorem verifies_of_attempts {world : World} {client : Client} {trusted : TrustedState}
    {ctx : Context} {index : ℕ} {elapsed : ℤ} {failures : List Error}
    {sources : List DiscoveryEndpoint} {result : Discovery.Result}
    (h : (attempts rt world client trusted ctx index elapsed failures sources).2 = .ok result) :
    ∃ source now,
      Verifies rt world client trusted source now result.document result.trusted := by
  induction sources generalizing index elapsed failures with
  | nil => cases h
  | cons source rest ih =>
      rw [attempts] at h
      dsimp only at h
      by_cases hbudget : attemptBudget client ctx elapsed (rest.length + 1) ≤ 0
      · rw [if_pos hbudget] at h
        cases h
      · rw [if_neg hbudget] at h
        cases hone : fetchOne rt world client trusted source (world.clock index) with
        | ok found =>
            obtain ⟨document, nextState⟩ := found
            simp only [hone] at h
            obtain rfl := Except.ok.inj h
            exact ⟨source, _, fetchOne_eq_ok.mp hone⟩
        | error e =>
            simp only [hone] at h
            split_ifs at h
            exact ih h

theorem verifies_of_fetch {world : World} {client : Client} {trusted : TrustedState} {ctx : Context}
    {sources : List DiscoveryEndpoint} {result : Discovery.Result}
    (h : (fetch rt world client trusted ctx sources).2 = .ok result) :
    ∃ source now,
      Verifies rt world client trusted source now result.document result.trusted := by
  unfold fetch at h
  cases hprepare : prepare rt client sources with
  | error e =>
      rw [hprepare] at h
      cases h
  | ok selected =>
      rw [hprepare] at h
      exact verifies_of_attempts h

/-! ## The network -/

structure Network where
  issuers : System
  /-- the state each client keeps for its next call -/
  clients : ℕ → TrustedState
  /-- what clients have accepted, the last first -/
  accepted : List (ℕ × Document)

def Network.initial (content : Option Bytes) : Network := ⟨.initial content, fun _ => .empty, []⟩

inductive Event where
  | issuer (action : Action)
  | fetch (c : ℕ) (client : Client) (world : World) (ctx : Context)
      (sources : List DiscoveryEndpoint)

/-- A client keeps the returned state after a success and its own after a failure. -/
def Network.fetched (n : Network) (c : ℕ) : Except Failure Discovery.Result → Network
  | .error _ => n
  | .ok result =>
      { n with
        clients := Function.update n.clients c result.trusted
        accepted := (c, result.document) :: n.accepted }

def Network.step (rt : Runtime) (path : Bytes) (n : Network) : Event → Option Network
  | .issuer action => (Service.step rt path n.issuers action).map fun s => { n with issuers := s }
  | .fetch c client world ctx sources =>
      some (n.fetched c (Discovery.fetch rt world client (n.clients c) ctx sources).2)

def Published (history : List Envelope) (payload : Bytes) : Prop :=
  ∃ e ∈ history, Base64Url.decodeString e.payload = some payload

def Serves (rt : Runtime) (world : World) (envelope : Envelope) : Prop :=
  ∃ source response, (world.exchange source).answer = .ok response ∧
    decodeEnvelope rt response.body = .ok envelope

/-- The signatures in the mirrors' answers are no forgeries. The root's are on policies with keys
that it has granted, and those of granted keys are on payloads that have been published. -/
structure Unforged (rt : Runtime) (granted : Bytes → Prop) (history : List Envelope)
    (root : Bytes) (world : World) : Prop where
  policy : ∀ envelope payload document signature, Serves rt world envelope →
    Base64Url.decodeString envelope.payload = some payload →
    decodeStrict rt rt.decodeDocument payload = .ok document →
    Base64Url.decodeString document.keyPolicy.signature = some signature →
    rt.verify root (keyPolicySigningBytes rt document.keyPolicy) signature = true →
      ∀ grant ∈ document.keyPolicy.keys, ∀ key, grantKey rt grant = some key → granted key
  payload : ∀ envelope payload signature key, Serves rt world envelope →
    Base64Url.decodeString envelope.payload = some payload →
    Base64Url.decodeString envelope.signature = some signature → granted key →
    rt.verify key payload signature = true → Published history payload

/-- The catalogs that issuers load are text, and mirrors do not forge. -/
def Event.Admissible (rt : Runtime) (n : Network) : Event → Prop
  | .issuer action => action.Allowed (fun _ => True) Catalog.Utf8
  | .fetch _ client world _ _ =>
      ∃ granted, Unforged rt granted n.issuers.history client.rootKey world

inductive Reachable (rt : Runtime) (path : Bytes) (content : Option Bytes) : Network → Prop where
  | initial : Reachable rt path content (.initial content)
  | step {n n' : Network} (event : Event) (hn : Reachable rt path content n)
      (hevent : event.Admissible rt n) (hstep : n.step rt path event = some n') :
      Reachable rt path content n'

/-! ## What is kept -/

/-- The history only grows. -/
theorem history_step {path : Bytes} {s s' : System} {action : Action}
    (h : Service.step rt path s action = some s') : s.history ⊆ s'.history := by
  have hreturns (s : System) (p : ℕ) (result : Issuer × Except Error Envelope) :
      s.history ⊆ (s.issueReturns p result).history := by
    obtain ⟨issuer, answer⟩ := result
    cases answer with
    | error e => exact fun _ h => h
    | ok envelope => exact List.subset_append_left _ _
  have hstarts (s : System) (p : ℕ) (result : Except Error Issuer) :
      s.history ⊆ (s.startReturns p result).history := by
    cases result with
    | error e => exact fun _ h => h
    | ok issuer => exact fun _ h => h
  cases step_effect h with
  | refused | acquired | migrates | migrating | saving | saves | closed | crashed | lostPower =>
      exact fun _ h => h
  | notLoaded | started | migrationStopped => exact hstarts _ _ _
  | migrated hproc outcome disk => exact hstarts { s with disk := disk } _ _
  | saveStopped | answered | unsaved => exact hreturns _ _ _
  | @saved p issuer clock loaded next op disk => exact hreturns { s with disk := disk } _ _

/-- What passes the checks of `Verify` was published: the policy in the document leads from the root
to the key, and the key to the payload. -/
theorem Unforged.published {granted : Bytes → Prop} {history : List Envelope} {root : Bytes}
    {world : World} (h : Unforged rt granted history root world) {envelope : Envelope} {now : ℤ}
    {o : Opened} (hserves : Serves rt world envelope) (ho : Authentic rt envelope root now o) :
    Published history o.payload := by
  obtain ⟨⟨signature, hsigned⟩, _⟩ := validateKeyPolicy_eq_ok.mp ho.policy
  obtain ⟨hmem, _, _, hkey⟩ := ho.grant_spec
  have hgranted := h.policy envelope o.payload o.document signature hserves ho.payload ho.document
    hsigned.decode hsigned.verify o.grant hmem o.key hkey
  exact h.payload envelope o.payload o.signature o.key hserves ho.payload ho.signature hgranted
    ho.verified

structure Opens (rt : Runtime) (history : List Envelope) (o : Opened) : Prop where
  authentic : ∃ envelope root now, Authentic rt envelope root now o
  published : Published history o.payload

theorem Opens.mono {history history' : List Envelope} {o : Opened} (h : Opens rt history o)
    (hsub : history ⊆ history') : Opens rt history' o := by
  obtain ⟨hauthentic, e, he, hpayload⟩ := h
  exact ⟨hauthentic, e, hsub he, hpayload⟩

/-- Every document a client accepted and every state a client keeps comes from a publication. -/
structure Follows (rt : Runtime) (n : Network) : Prop where
  clients : ∀ c, n.clients c = .empty ∨
    ∃ o, Opens rt n.issuers.history o ∧ n.clients c = o.candidate rt
  accepted : ∀ a ∈ n.accepted, ∃ o, Opens rt n.issuers.history o ∧ a.2 = o.document

/-- One call: the state stays as it was or is that of a published payload. -/
theorem Follows.fetch {n : Network} (h : Follows rt n) {c : ℕ} {client : Client} {world : World}
    {ctx : Context} {sources : List DiscoveryEndpoint}
    {granted : Bytes → Prop} (hworld : Unforged rt granted n.issuers.history client.rootKey world) :
    Follows rt (n.fetched c (Discovery.fetch rt world client (n.clients c) ctx sources).2) := by
  cases hfetch : (Discovery.fetch rt world client (n.clients c) ctx sources).2 with
  | error failure => exact h
  | ok result =>
      obtain ⟨source, now, parsed, response, envelope, _, _, hanswer, _, _, _, hdecode, hverify⟩ :=
        verifies_of_fetch hfetch
      have hok : (verify rt envelope client.rootKey now (n.clients c)).1 = .ok result.document := by
        rw [hverify]
      obtain ⟨o, ho, hdocument, -, hstate⟩ := verify_ok hok
      have hopens : Opens rt n.issuers.history o :=
        ⟨⟨envelope, client.rootKey, now, ho⟩,
          hworld.published ⟨_, response, hanswer, hdecode⟩ ho⟩
      rw [hverify] at hstate
      replace hstate : result.trusted =
        if (n.clients c).version = result.document.version then n.clients c
        else o.candidate rt := hstate
      constructor
      · intro d
        change Function.update n.clients c result.trusted d = .empty ∨
          ∃ o, Opens rt n.issuers.history o ∧
            Function.update n.clients c result.trusted d = o.candidate rt
        by_cases hd : d = c
        · subst hd
          rw [Function.update_self, hstate]
          by_cases hversion : (n.clients d).version = result.document.version
          · rw [if_pos hversion]
            exact h.clients d
          · rw [if_neg hversion]
            exact Or.inr ⟨o, hopens, rfl⟩
        · rw [Function.update_of_ne hd]
          exact h.clients d
      · intro a ha
        rcases List.mem_cons.mp ha with rfl | ha
        · exact ⟨o, hopens, hdocument.symm⟩
        · exact h.accepted a ha

theorem Follows.issuer {n : Network} (h : Follows rt n) {path : Bytes} {action : Action}
    {s : System} (hstep : Service.step rt path n.issuers action = some s) :
    Follows rt { n with issuers := s } := by
  have hsub := history_step hstep
  constructor
  · intro c
    rcases h.clients c with hempty | ⟨o, ho, hstate⟩
    · exact Or.inl hempty
    · exact Or.inr ⟨o, ho.mono hsub, hstate⟩
  · intro a ha
    obtain ⟨o, ho, hdocument⟩ := h.accepted a ha
    exact ⟨o, ho.mono hsub, hdocument⟩

/-- The invariant of the issuers and that of the clients, over whole runs of the network. -/
theorem Reachable.invariant {path : Bytes} {content : Option Bytes} {n : Network}
    (hreads : ReadsStates rt) (h : Reachable rt path content n) :
    (∃ pub, Inv rt (fun _ => True) Catalog.Utf8 pub n.issuers) ∧ Follows rt n := by
  induction h with
  | initial =>
      refine ⟨inv_start content, fun _ => Or.inl rfl, fun a ha => ?_⟩
      exact absurd ha List.not_mem_nil
  | @step n n' event hn hevent hstep ih =>
      obtain ⟨⟨pub, hinv⟩, hfollows⟩ := ih
      cases event with
      | issuer action =>
          obtain ⟨s, hs, rfl⟩ := Option.map_eq_some_iff.mp hstep
          exact ⟨hinv.step hreads hevent hs, hfollows.issuer hs⟩
      | fetch c client world ctx sources =>
          obtain rfl := Option.some.inj hstep
          obtain ⟨granted, hworld⟩ := hevent
          refine ⟨⟨pub, ?_⟩, hfollows.fetch hworld⟩
          cases (Discovery.fetch rt world client (n.clients c) ctx sources).2 with
          | error failure => exact hinv
          | ok result => exact hinv

/-! ## The line of publications -/

/-- Whoever opened a published payload, in whatever spelling, holds what the publication recorded.
-/
theorem mirrors_of_payload {origin : Publication} {e : Envelope} (h : origin.Publishes rt e)
    (hdocuments : rt.ReadsDocuments) (hutf8 : origin.catalog.Utf8) {envelope : Envelope}
    {root : Bytes} {now : ℤ} {o : Opened} (ho : Authentic rt envelope root now o)
    (hpayload : Base64Url.decodeString e.payload = some o.payload) :
    o.document = origin.document rt ∧ Mirrors origin.state (o.candidate rt) := by
  obtain ⟨payload, hs, rfl⟩ := issue_eq_ok.mp h.issued
  have hsame : o.payload = payload :=
    Option.some.inj (hpayload.symm.trans (Base64Url.decodeString_encodeToString payload))
  have hschema : -2 ^ 63 ≤ schemaVersion ∧ schemaVersion < 2 ^ 63 := by decide
  have hread := hdocuments (origin.document rt) payload (utf8_issuedDocument hutf8 h.policy)
    hschema hs.encoded
  have hdocument : o.document = origin.document rt := by
    have hopened := ho.document
    rw [hsame, hread] at hopened
    exact (Except.ok.inj hopened).symm
  obtain ⟨grant, raw, hgrant, hepoch⟩ := h.signer
  -- no other key of the policy may sign the version, so the envelope names the issuer's key
  obtain ⟨hmem, hkey, hcovers, _⟩ := ho.grant_spec
  have hshape : Shape rt (origin.document rt).keyPolicy := hdocument ▸ ho.shape
  obtain ⟨hmem', hkey', hcovers', _⟩ := hshape.grant_eq_ok.mp hgrant
  have hgrants : o.grant = grant := by
    rw [hdocument] at hmem hcovers
    exact hshape.covers_unique hmem hmem' hcovers hcovers'
  have hdigest : o.policyDigest = origin.state.policySHA256 := by
    rw [← ho.policyDigest_eq, hdocument]
    exact (validateKeyPolicy_eq_ok.mp (validateKeyPolicy_canonical h.policy)).2
  refine ⟨hdocument, ?_, ?_, ?_, hdigest, ?_, ?_⟩
  · exact congrArg Document.version hdocument
  · exact (congrArg Document.issuedAt hdocument).trans h.issuedAt_eq
  · exact (congrArg (·.keyPolicy.version) hdocument).trans h.policyVersion_eq
  · exact (congrArg KeyGrant.keyID hgrants).trans (hkey'.trans h.keyID_eq)
  · exact (congrArg KeyGrant.epoch hgrants).trans hepoch

section Line

variable {O : IssuerOptions → Prop} {pub : Envelope → Publication} {disk : Disk}
  {history : List Envelope}

/-- What was opened is the document of a publication, and its state. -/
theorem Opens.origin (hhistory : HistoryInv rt O Catalog.Utf8 pub disk history)
    (hdocuments : rt.ReadsDocuments) {o : Opened} (h : Opens rt history o) :
    ∃ e ∈ history, (pub e).Publishes rt e ∧ o.document = (pub e).document rt ∧
      Mirrors (pub e).state (o.candidate rt) := by
  obtain ⟨⟨envelope, root, now, ho⟩, e, he, hpayload⟩ := h
  obtain ⟨hpublishes, _, hutf8⟩ := hhistory.publishes e he
  exact ⟨e, he, hpublishes, mirrors_of_payload hpublishes hdocuments hutf8 ho hpayload⟩

/-- Of two publications the one with the lower version is behind. -/
theorem behind_of_version (hhistory : HistoryInv rt O Catalog.Utf8 pub disk history)
    {e e' : Envelope} (he : e ∈ history) (he' : e' ∈ history)
    (h : (pub e).state.lastVersion ≤ (pub e').state.lastVersion) :
    e = e' ∨ Before (pub e).state (pub e').state := by
  rcases pairwise_cases hhistory.ordered he he' with rfl | hr | hr
  · exact Or.inl rfl
  · exact hr
  · rcases hr with rfl | hbefore
    · exact Or.inl rfl
    · exact absurd (UInt64.lt_of_lt_of_le hbefore.2 h) (UInt64.lt_irrefl _)

end Line

/-- `d` is not behind `d'` in the order of publications: `d'` is the same document, or has a higher
version and is not older in its catalog, its time or its policy. -/
def NotAfter (rt : Runtime) (d d' : Document) : Prop :=
  d = d' ∨ d.version < d'.version ∧ d.catalogRevision ≤ d'.catalogRevision ∧
    (d.catalogRevision = d'.catalogRevision →
      catalogDigest rt ⟨d.catalogRevision, d.discovery, d.nodes⟩ =
        catalogDigest rt ⟨d'.catalogRevision, d'.discovery, d'.nodes⟩) ∧
    d.issuedAt ≤ d'.issuedAt ∧ d.keyPolicy.version ≤ d'.keyPolicy.version

theorem notAfter_of_before {first second : Publication} {e e' : Envelope}
    (hfirst : first.Publishes rt e) (hsecond : second.Publishes rt e')
    (h : Before first.state second.state) :
    NotAfter rt (first.document rt) (second.document rt) := by
  right
  refine ⟨h.2, ?_, fun he => ?_, ?_, ?_⟩
  · rw [hfirst.catalogRevision_eq, hsecond.catalogRevision_eq]
    exact h.1.revision
  · rw [hfirst.catalogRevision_eq, hsecond.catalogRevision_eq] at he
    rw [hfirst.carries.catalog, hsecond.carries.catalog, h.1.catalog he]
  · rw [hfirst.issuedAt_eq, hsecond.issuedAt_eq]
    exact h.1.issuedAt
  · rw [hfirst.policyVersion_eq, hsecond.policyVersion_eq]
    exact h.1.policyVersion

/-- In every reachable state of the network, whatever the issuers' failures and the mirrors' answers
were: what clients have accepted was published, all of it lies on one line of versions on which the
later is not older in any respect, and no client is ahead of the state on disk. -/
theorem clients_agree {path : Bytes} {content : Option Bytes} {n : Network}
    (hreads : ReadsStates rt) (hdocuments : rt.ReadsDocuments)
    (h : Reachable rt path content n) :
    (∀ a ∈ n.accepted, ∃ e ∈ n.issuers.history, ∃ payload, a.2.marshal = .ok payload ∧
      e.payload = Base64Url.encodeToString payload) ∧
    (∀ a ∈ n.accepted, ∀ b ∈ n.accepted, NotAfter rt a.2 b.2 ∨ NotAfter rt b.2 a.2) ∧
    ∀ c, n.clients c ≠ .empty → ∃ state, Holds rt n.issuers.disk.current state ∧
      (n.clients c).version ≤ state.lastVersion ∧ (n.clients c).issuedAt ≤ state.lastIssuedAt ∧
      (n.clients c).policyVersion ≤ state.policyVersion ∧
      (n.clients c).signingKeyEpoch ≤ state.keyEpoch := by
  obtain ⟨⟨pub, hinv⟩, hfollows⟩ := h.invariant hreads
  have hhistory := hinv.published
  have horigin : ∀ a ∈ n.accepted, ∃ e ∈ n.issuers.history, (pub e).Publishes rt e ∧
      a.2 = (pub e).document rt := by
    intro a ha
    obtain ⟨o, ho, hdocument⟩ := hfollows.accepted a ha
    obtain ⟨e, he, hpublishes, hopened, _⟩ := ho.origin hhistory hdocuments
    exact ⟨e, he, hpublishes, hdocument.trans hopened⟩
  refine ⟨fun a ha => ?_, fun a ha b hb => ?_, fun c hc => ?_⟩
  · obtain ⟨e, he, hpublishes, hdocument⟩ := horigin a ha
    obtain ⟨payload, hmarshal, hpayload⟩ := hpublishes.carries.payload
    exact ⟨e, he, payload, hdocument ▸ hmarshal, hpayload⟩
  · obtain ⟨e, he, hpublishes, hdocument⟩ := horigin a ha
    obtain ⟨e', he', hpublishes', hdocument'⟩ := horigin b hb
    rw [hdocument, hdocument']
    rcases UInt64.le_total (pub e).state.lastVersion (pub e').state.lastVersion with hle | hle
    · left
      rcases behind_of_version hhistory he he' hle with rfl | hbefore
      · exact Or.inl rfl
      · exact notAfter_of_before hpublishes hpublishes' hbefore
    · right
      rcases behind_of_version hhistory he' he hle with rfl | hbefore
      · exact Or.inl rfl
      · exact notAfter_of_before hpublishes' hpublishes hbefore
  · obtain ⟨o, ho, hstate⟩ := (hfollows.clients c).resolve_left hc
    obtain ⟨e, he, _, _, hmirrors⟩ := ho.origin hhistory hdocuments
    obtain ⟨state, hholds, hbehind⟩ :=
      hhistory.durable n.issuers.disk.current List.mem_cons_self e he
    refine ⟨state, hholds, ?_⟩
    rw [hstate, hmirrors.version, hmirrors.issuedAt, hmirrors.policyVersion,
      hmirrors.signingKeyEpoch]
    exact ⟨hbehind.version, hbehind.issuedAt, hbehind.policyVersion, hbehind.epoch⟩

theorem Reachable.issuers {path : Bytes} {content : Option Bytes} {actions : List Action}
    {n : Network} {s : System} (hn : Reachable rt path content n)
    (hallowed : ∀ action ∈ actions, action.Allowed (fun _ => True) Catalog.Utf8)
    (hrun : Service.run rt path n.issuers actions = some s) :
    Reachable rt path content { n with issuers := s } := by
  apply runs_invariant (P := fun s => Reachable rt path content { n with issuers := s }) ?_ hn hrun
  intro action haction s s' hs hstep
  exact hs.step (.issuer action) (hallowed action haction)
    (Option.map_eq_some_iff.mpr ⟨s', hstep, rfl⟩)

namespace Sample

open Service.Sample Discovery.Sample
open Manifest.Sample (decoding today)

def publishing : List Action :=
  [.start 1 (options Manifest.Sample.single 1) lockAnswers, .load 1 missing] ++
    issuing 1 today Manifest.Sample.catalog ++
    issuing 1 (today + Duration.hour) Manifest.Sample.catalog

/-- The first mirror cannot be reached, the second one answers with something else, and the third
one serves the envelope. -/
def mirroring (envelope : Envelope) (now : ℤ) : World :=
  { serving with
    exchange := fun source =>
      if source.id = str "c" then ⟨none, .error (.library "i/o timeout")⟩
      else ⟨none, .ok ⟨some ⟨str "https", false, str "mirror", [], []⟩, 200, str "application/json",
        ⟨if source.id = str "a" then [1] else encodeEnvelope envelope, none⟩⟩⟩
    clock := fun _ => now }

theorem allowed_publishing : ∀ action ∈ publishing,
    action.Allowed (fun _ => True) Catalog.Utf8 := by
  simp [publishing, issuing, saveOps, Action.Allowed, Manifest.Sample.utf8_catalog]

/-- All that a mirror serves is what was published. -/
theorem unforged_mirroring {history : List Envelope} {root : Bytes} {envelope : Envelope} {now : ℤ}
    (hdecode : decodeEnvelope decoding ⟨encodeEnvelope envelope, none⟩ = .ok envelope)
    (h : envelope ∈ history) :
    Unforged decoding (fun _ => True) history root (mirroring envelope now) where
  policy := fun _ _ _ _ _ _ _ _ _ _ _ _ _ => trivial
  payload := by
    rintro served payload signature key ⟨source, response, hanswer, hserved⟩ hpayload _ _ _
    have hnothing : (decodeEnvelope decoding ⟨[1], none⟩).isOk = false := by decide
    simp only [mirroring] at hanswer
    split_ifs at hanswer with hfirst hsecond
    · obtain rfl := Except.ok.inj hanswer
      rw [hserved] at hnothing
      cases hnothing
    · obtain rfl := Except.ok.inj hanswer
      obtain rfl := Except.ok.inj (hdecode.symm.trans hserved)
      exact ⟨envelope, h, hpayload⟩

def met (s : System) (first second : Envelope) : Network :=
  let n : Network := ⟨s, fun _ => .empty, []⟩
  let n := n.fetched 0 (fetch decoding (mirroring first today) defaults
    (n.clients 0) .background mirrors).2
  n.fetched 1 (fetch decoding (mirroring second (today + Duration.hour)) defaults
    (n.clients 1) .background mirrors).2

theorem reachable_met {s : System} {first second : Envelope}
    (hrun : run decoding statePath (.initial none) publishing = some s)
    (hdecode : ∀ envelope ∈ s.history,
      decodeEnvelope decoding ⟨encodeEnvelope envelope, none⟩ = .ok envelope)
    (hfirst : first ∈ s.history) (hsecond : second ∈ s.history) :
    Reachable decoding statePath none (met s first second) := by
  have hissued : Reachable decoding statePath none ⟨s, fun _ => .empty, []⟩ :=
    Reachable.initial.issuers allowed_publishing hrun
  have hfetched := hissued.step (.fetch 0 defaults (mirroring first today)
    .background mirrors) ⟨_, unforged_mirroring (hdecode first hfirst) hfirst⟩ rfl
  refine hfetched.step (.fetch 1 defaults (mirroring second (today + Duration.hour))
    .background mirrors) ⟨_, unforged_mirroring (hdecode second hsecond) ?_⟩ rfl
  cases (fetch decoding (mirroring first today) defaults .empty .background
      mirrors).2 with
  | error failure => exact hsecond
  | ok result => exact hsecond

def seen (s : System) : Bool :=
  match s.history with
  | [first, second] =>
      decide (∀ envelope ∈ s.history,
        decodeEnvelope decoding ⟨encodeEnvelope envelope, none⟩ = .ok envelope) &&
      decide ((met s first second).accepted.map (fun a => (a.1, a.2.version)) = [(1, 2), (0, 1)])
  | _ => false

end Sample

open Agreement.Sample Manifest.Sample in
theorem clients_agree_met :
    ∃ s first second, Service.run decoding Service.Sample.statePath (.initial none) publishing =
        some s ∧ s.history = [first, second] ∧
      (met s first second).accepted.map (fun a => (a.1, a.2.version)) = [(1, 2), (0, 1)] ∧
      ∀ a ∈ (met s first second).accepted, ∀ b ∈ (met s first second).accepted,
        NotAfter decoding a.2 b.2 ∨ NotAfter decoding b.2 a.2 := by
  have hseen : (Service.run decoding Service.Sample.statePath (.initial none) publishing).map seen =
      some true := by
    decide +kernel
  obtain ⟨s, hrun, hs⟩ := Option.map_eq_some_iff.mp hseen
  unfold seen at hs
  split at hs
  · rename_i first second hhistory
    obtain ⟨hdecode, haccepted⟩ := Bool.and_eq_true_iff.mp hs
    have hreachable := reachable_met hrun (of_decide_eq_true hdecode)
      (by simp [hhistory] : first ∈ s.history) (by simp [hhistory] : second ∈ s.history)
    exact ⟨s, first, second, hrun, hhistory, of_decide_eq_true haccepted,
      (clients_agree (Issuance.readsStates_withJson _ _) (readsDocuments_withJson _ _)
        hreachable).2.1⟩
  · cases hs

end CloudHelp.Agreement
