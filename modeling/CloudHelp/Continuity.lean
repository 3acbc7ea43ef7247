import CloudHelp.ClientSafety
import CloudHelp.IssuerSafety

/-!
# The clients of an issuer

The issuer compares each publication with the one before it, a client compares whatever it accepts
with whatever it accepted last. A client that has accepted one envelope of an issuer's history
holds what the issuer's durable state recorded then (`Mirrors`), and of a later envelope it
accepts everything, except that a signing key may not come back with another epoch.
-/

namespace CloudHelp.Service

open Manifest Issuance

variable {rt : Runtime}

structure Mirrors (state : State) (t : TrustedState) : Prop where
  version : t.version = state.lastVersion
  issuedAt : t.issuedAt = state.lastIssuedAt
  policyVersion : t.policyVersion = state.policyVersion
  policySHA256 : t.policySHA256 = state.policySHA256
  signingKeyID : t.signingKeyID = state.keyID
  signingKeyEpoch : t.signingKeyEpoch = state.keyEpoch

/-- Of the client's rules only one is not a rule between publications. -/
theorem succeeds_iff {a b : State} {t c : TrustedState} (ht : Mirrors a t) (hc : Mirrors b c)
    (h : Before a b) : Succeeds t c ↔ (a.keyID = b.keyID → a.keyEpoch = b.keyEpoch) := by
  obtain ⟨hbehind, hlt⟩ := h
  have hne : c.version ≠ t.version := by
    rw [ht.version, hc.version]
    exact fun he => UInt64.lt_irrefl _ (he ▸ hlt)
  constructor
  · intro hs hkey
    have hepoch := hs.sameKey hne (by rw [ht.signingKeyID, hc.signingKeyID, hkey])
    rw [ht.signingKeyEpoch, hc.signingKeyEpoch] at hepoch
    exact hepoch.symm
  · intro hkey
    refine ⟨?_, fun he => ?_, ?_, fun he => absurd he hne, ?_, fun _ => ?_, fun _ he => ?_,
      fun _ he => ?_⟩
    · rw [ht.policyVersion, hc.policyVersion]
      exact hbehind.policyVersion
    · rw [ht.policyVersion, hc.policyVersion] at he
      rw [ht.policySHA256, hc.policySHA256]
      exact (hbehind.policy he.symm).symm
    · rw [ht.version, hc.version]
      exact hbehind.version
    · rw [ht.issuedAt, hc.issuedAt]
      exact hbehind.issuedAt
    · rw [ht.signingKeyEpoch, hc.signingKeyEpoch]
      exact hbehind.epoch
    · rw [ht.signingKeyID, hc.signingKeyID] at he
      rw [ht.signingKeyEpoch, hc.signingKeyEpoch]
      exact (hkey he.symm).symm
    · rw [ht.signingKeyID, hc.signingKeyID] at he
      rw [ht.signingKeyEpoch, hc.signingKeyEpoch]
      exact hbehind.key (Ne.symm he)

/-- Whoever accepts a published envelope holds what its publication recorded. -/
theorem Publication.Publishes.mirrors {origin : Publication} {envelope : Envelope}
    (h : origin.Publishes rt envelope) (hdocuments : rt.ReadsDocuments)
    (hutf8 : origin.catalog.Utf8)
    {root : Bytes} {clock : ℤ} {o : Opened} (ho : Authentic rt envelope root clock o) :
    o.document = origin.document rt ∧ Mirrors origin.state (o.candidate rt) := by
  obtain ⟨payload, hs, he⟩ := issue_eq_ok.mp h.issued
  obtain ⟨_, hdocument⟩ := hs.opened hdocuments hutf8 (he ▸ ho)
  replace hdocument : o.document = origin.document rt := hdocument
  obtain ⟨grant, raw, hgrant, hepoch⟩ := h.signer
  have hsame : o.grant = grant := by
    have hopened := ho.grant
    rw [hdocument, hgrant] at hopened
    exact (congrArg Prod.fst (Except.ok.inj hopened)).symm
  have hdigest : o.policyDigest = origin.state.policySHA256 := by
    rw [← ho.policyDigest_eq, hdocument]
    exact (validateKeyPolicy_eq_ok.mp (validateKeyPolicy_canonical h.policy)).2
  refine ⟨hdocument, ?_, ?_, ?_, hdigest, ho.grant_spec.2.1.trans h.keyID_eq,
    (congrArg KeyGrant.epoch hsame).trans hepoch⟩
  · exact congrArg Document.version hdocument
  · exact (congrArg Document.issuedAt hdocument).trans h.issuedAt_eq
  · exact (congrArg (·.keyPolicy.version) hdocument).trans h.policyVersion_eq

/-- A published envelope is authentic at every clock reading inside its document's validity. -/
theorem Publication.Publishes.authentic {origin : Publication} {envelope : Envelope}
    (h : origin.Publishes rt envelope) (hdocuments : rt.ReadsDocuments) (hsign : rt.VerifiesSigned)
    (hutf8 : origin.catalog.Utf8)
    (hkeys : rt.CollisionFreeOn
      (insert (publicKey origin.options.privateKey) (policyKeys origin.options.keyPolicy)))
    {clock : ℤ} (hbegun : (origin.document rt).issuedAt - allowedClockSkew ≤ clock)
    (hcurrent : clock < (origin.document rt).expiresAt) :
    ∃ o : Opened, Authentic rt envelope origin.options.rootKey clock o := by
  obtain ⟨payload, hs, rfl⟩ := issue_eq_ok.mp h.issued
  obtain ⟨o, ho, _⟩ := hs.authentic hdocuments hsign hutf8 hkeys hbegun hcurrent
  exact ⟨o, ho⟩

def startedKeys (actions : List Action) : Set Bytes :=
  {raw | ∃ p options answers, Action.start p options answers ∈ actions ∧
    raw ∈ insert (publicKey options.privateKey) (policyKeys options.keyPolicy)}

/-- The verdict of a client that holds an earlier publication, at a clock reading inside the later
document's validity. -/
theorem verify_later {first second : Publication} {e e' : Envelope}
    (hfirst : first.Publishes rt e) (hsecond : second.Publishes rt e')
    (horder : e = e' ∨ Before first.state second.state)
    (hdocuments : rt.ReadsDocuments) (hutf8 : first.catalog.Utf8) (hutf8' : second.catalog.Utf8)
    {root root' : Bytes} {now clock : ℤ} {o o' : Opened} (ho : Authentic rt e root now o)
    (ho' : Authentic rt e' root' clock o') :
    (verify rt e' root' clock (o.candidate rt)).1 = .ok o'.document ↔
      (e.keyID = e'.keyID → o.grant.epoch = o'.grant.epoch) := by
  have hm := (hfirst.mirrors hdocuments hutf8 ho).2
  have hm' := (hsecond.mirrors hdocuments hutf8' ho').2
  have hverdict : (verify rt e' root' clock (o.candidate rt)).1 = .ok o'.document ↔
      Succeeds (o.candidate rt) (o'.candidate rt) := by
    rw [← transition_complete ho.complete]
    constructor
    · intro h
      obtain ⟨other, hother, _, htransition, _⟩ := verify_ok h
      have hpayload : other.payload = o'.payload :=
        Option.some.inj (hother.payload.symm.trans ho'.payload)
      rwa [(hother.eq_of_payload ho' hpayload).2.1] at htransition
    · intro htransition
      rw [verify_of_authentic ho' htransition]
  have hepoch : o.grant.epoch = first.state.keyEpoch := hm.signingKeyEpoch
  have hepoch' : o'.grant.epoch = second.state.keyEpoch := hm'.signingKeyEpoch
  rw [hverdict, hepoch, hepoch', hfirst.keyID_eq, hsecond.keyID_eq]
  rcases horder with rfl | hbefore
  · -- the same envelope again: the state is the candidate
    have hpayload : o.payload = o'.payload := Option.some.inj (ho.payload.symm.trans ho'.payload)
    have hsame := (ho.eq_of_payload ho' hpayload).2.1
    rw [← hepoch, ← hepoch', ← hsame]
    refine ⟨fun _ _ => congrArg TrustedState.signingKeyEpoch hsame, fun _ => ?_⟩
    exact ⟨UInt64.le_refl _, fun _ => rfl, UInt64.le_refl _, fun _ => ⟨rfl, rfl⟩, le_rfl,
      fun _ => UInt64.le_refl _, fun _ _ => rfl, fun _ hne => absurd rfl hne⟩
  · exact succeeds_iff hm hm' hbefore

/-- A client that has accepted one envelope of an issuer's history, and maybe others before, accepts
a later one at every time of its validity exactly if the two are not signed by one key under two
epochs. -/
theorem client_continuity {path : Bytes} (hreads : ReadsStates rt) (hdocuments : rt.ReadsDocuments)
    (hsign : rt.VerifiesSigned) {content : Option Bytes} {actions : List Action} {s : System}
    (hrun : run rt path (.initial content) actions = some s) {root : Bytes}
    (hroot : ∀ p options answers, Action.start p options answers ∈ actions →
      options.rootKey = root)
    (hutf8 : ∀ p clock catalog, Action.issue p clock (.ok catalog) ∈ actions → catalog.Utf8)
    (hkeys : rt.CollisionFreeOn (startedKeys actions))
    {i j : ℕ} (hij : i < j) {e e' : Envelope} (hi : s.history[i]? = some e)
    (hj : s.history[j]? = some e') {calls : List Call}
    (hpayloads : rt.CollisionFreeOn (payloads calls)) {r : Reply}
    (hr : r ∈ session rt .empty calls) (henvelope : r.call.envelope = e) {d : Document}
    (hresult : r.result = .ok d) :
    ∃ (d' : Document) (g g' : KeyGrant) (raw raw' : Bytes),
      (∃ payload, d'.marshal = .ok payload ∧ e'.payload = Base64Url.encodeToString payload) ∧
      keyPolicyGrant d.keyPolicy e.keyID d.version = .ok (g, raw) ∧
      keyPolicyGrant d'.keyPolicy e'.keyID d'.version = .ok (g', raw') ∧
      ∀ clock, d'.issuedAt - allowedClockSkew ≤ clock → clock < d'.expiresAt →
        ((verify rt e' root clock r.after).1 = .ok d' ↔
          (e.keyID = e'.keyID → g.epoch = g'.epoch)) := by
  obtain ⟨pub, hinv⟩ := inv_run
    (O := fun options => ∃ p answers, .start p options answers ∈ actions)
    (C := fun catalog => ∃ p clock, .issue p clock (.ok catalog) ∈ actions) hreads
    (fun action ha => by
      cases action with
      | start p options answers => exact ⟨p, answers, ha⟩
      | issue p clock loaded => exact fun catalog hl => ⟨p, clock, hl ▸ ha⟩
      | _ => trivial) hrun
  obtain ⟨hi', rfl⟩ := List.getElem?_eq_some_iff.mp hi
  obtain ⟨hj', rfl⟩ := List.getElem?_eq_some_iff.mp hj
  obtain ⟨hfirst, _, _, _, hc⟩ := hinv.published.publishes _ (List.getElem_mem hi')
  obtain ⟨hsecond, ⟨p, answers, hstart⟩, _, _, hc'⟩ :=
    hinv.published.publishes _ (List.getElem_mem hj')
  have horder := List.pairwise_iff_getElem.mp hinv.published.ordered i j hi' hj' hij
  have hcatalog := hutf8 _ _ _ hc
  have hcatalog' := hutf8 _ _ _ hc'
  obtain ⟨o, ho, rfl, hafter⟩ := after_of_accepted hpayloads hr hresult
  rw [henvelope] at ho
  obtain ⟨grant, raw, hgrant, hepoch⟩ := hsecond.signer
  obtain ⟨payload, hs, he⟩ := issue_eq_ok.mp hsecond.issued
  refine ⟨(pub s.history[j]).document rt, o.grant, grant, o.key, raw,
    ⟨payload, hs.encoded, he ▸ rfl⟩, ho.grant, hgrant, fun clock hbegun hcurrent => ?_⟩
  have hkeys' : rt.CollisionFreeOn (insert (publicKey (pub s.history[j]).options.privateKey)
      (policyKeys (pub s.history[j]).options.keyPolicy)) := by
    refine Set.InjOn.mono ?_ hkeys
    exact fun key hkey => ⟨p, _, answers, hstart, hkey⟩
  obtain ⟨o', ho'⟩ := hsecond.authentic hdocuments hsign hcatalog' hkeys' hbegun hcurrent
  rw [hroot _ _ _ hstart] at ho'
  obtain ⟨hdocument, hmirrors⟩ := hsecond.mirrors hdocuments hcatalog' ho'
  have hverdict := verify_later hfirst hsecond horder hdocuments hcatalog hcatalog' ho ho'
  rw [hafter, ← hdocument, hverdict, hepoch, ← hmirrors.signingKeyEpoch]
  exact Iff.rfl

/-! ## A key that comes back -/

namespace Sample

open Manifest.Sample

/-- The runtime looks the texts it is to read up in two lists before it searches for them. -/
noncomputable def remembering (documents : List Document) (states : List State) : Runtime :=
  { durable with
    decodeDocument := fun b =>
      match documents.find? fun d => decide (d.marshal = .ok b) with
      | some d => .ok (d, [])
      | none => durable.decodeDocument b
    decodeState := fun b =>
      match states.find? fun state => decide (state.marshal = .ok b) with
      | some state => .ok (state, [])
      | none => durable.decodeState b }

theorem readsDocuments_remembering {documents : List Document} {states : List State}
    (hutf8 : ∀ d ∈ documents, d.Utf8) : (remembering documents states).ReadsDocuments := by
  intro d b hd hschema hb
  cases hfind : documents.find? fun d => decide (d.marshal = .ok b) with
  | none =>
      have hread := readsDocuments_inverting d b hd hschema hb
      unfold Manifest.decodeStrict at hread ⊢
      have hdecode : (remembering documents states).decodeDocument b =
          inverting.decodeDocument b := by
        simp only [remembering, hfind]
        rfl
      rw [hdecode]
      exact hread
  | some other =>
      have hother : other.marshal = .ok b := by simpa using List.find?_some hfind
      obtain rfl : other = d :=
        Document.marshal_injOn (hutf8 other (List.mem_of_find?_eq_some hfind)) hd hother hb
      have hdecode : (remembering documents states).decodeDocument b = .ok (other, []) := by
        simp only [remembering, hfind]
      rw [Manifest.decodeStrict, hdecode]
      rfl

theorem readsStates_remembering {documents : List Document} {states : List State}
    (hutf8 : ∀ state ∈ states, state.Utf8) : ReadsStates (remembering documents states) := by
  intro state data hstate hdata
  cases hfind : states.find? fun state => decide (state.marshal = .ok data) with
  | none =>
      have hread := readsStates_durable state data hstate hdata
      unfold Issuance.decodeStrict at hread ⊢
      have hdecode : (remembering documents states).decodeState data =
          durable.decodeState data := by
        simp only [remembering, hfind]
      rw [hdecode]
      exact hread
  | some other =>
      have hother : other.marshal = .ok data := by simpa using List.find?_some hfind
      obtain rfl : other = state :=
        State.marshal_injOn (hutf8 other (List.mem_of_find?_eq_some hfind)) hstate hother hdata
      have hdecode : (remembering documents states).decodeState data = .ok (other, []) := by
        simp only [remembering, hfind]
      rw [Issuance.decodeStrict, hdecode]
      rfl

def handover : KeyPolicy := signed 2 [grant 1 1 1 1, grant 2 2 2 0]

/-- The second key hands back to the first, which has to leave the first epoch to a third key. -/
def handback : KeyPolicy := signed 3 [grant 3 1 1 1, grant 2 2 2 2, grant 1 3 3 0]

def recorded (policy : KeyPolicy) (seed : UInt8) (epoch version : UInt64) : State :=
  ⟨keyID .toy (List.replicate 32 seed), epoch, policy.version,
    Runtime.toy.digest (canonicalPolicyText .toy policy), version, Manifest.Sample.catalog.revision,
    Runtime.toy.digest (canonicalCatalog .toy Manifest.Sample.catalog).marshal, today, 0⟩

theorem utf8_recorded (policy : KeyPolicy) (seed : UInt8) (epoch version : UInt64) :
    (recorded policy seed epoch version).Utf8 := by
  simp only [State.Utf8, recorded, keyID, utf8_digest, and_self]

def present (state : State) : LoadAnswers :=
  ⟨.ok ⟨true, 0o700⟩, .ok (), .ok ⟨true, 0o600⟩, state.marshal⟩

def sealedDocument (policy : KeyPolicy) (version : UInt64) : Document :=
  issuedDocument .toy Manifest.Sample.catalog version policy today Duration.hour

noncomputable def handing : Runtime :=
  remembering [sealedDocument single 1, sealedDocument handback 3]
    [recorded single 1 1 1, recorded handover 2 2 2]

def handed : List Action :=
  [.start 1 (options single 1) lockAnswers, .load 1 missing] ++
    issuing 1 today Manifest.Sample.catalog ++
    [.crash 1, .start 2 (options handover 2) lockAnswers,
      .load 2 (present (recorded single 1 1 1))] ++
    issuing 2 today Manifest.Sample.catalog ++
    [.crash 2, .start 3 (options handback 1) lockAnswers,
      .load 3 (present (recorded handover 2 2 2))] ++
    issuing 3 today Manifest.Sample.catalog

theorem readsDocuments_handing : handing.ReadsDocuments := by
  refine readsDocuments_remembering fun d hd => ?_
  rcases List.mem_pair.mp hd with rfl | rfl
  · obtain ⟨digest, hpolicy⟩ := exists_of_isOk (α := Bytes)
      (by decide +kernel : (validateKeyPolicy .toy single Manifest.Sample.root).isOk = true)
    exact utf8_issuedDocument utf8_catalog hpolicy
  · obtain ⟨digest, hpolicy⟩ := exists_of_isOk (α := Bytes)
      (by decide +kernel : (validateKeyPolicy .toy handback Manifest.Sample.root).isOk = true)
    exact utf8_issuedDocument utf8_catalog hpolicy

theorem readsStates_handing : ReadsStates handing := by
  refine readsStates_remembering fun state hs => ?_
  rcases List.mem_pair.mp hs with rfl | rfl <;> exact utf8_recorded ..

theorem started_handed {p : ℕ} {given : IssuerOptions} {answers : LockAnswers}
    (h : Action.start p given answers ∈ handed) :
    given = options single 1 ∨ given = options handover 2 ∨ given = options handback 1 := by
  simp only [handed, issuing, saveOps, List.map_cons, List.map_nil, List.cons_append,
    List.nil_append, List.mem_cons, List.not_mem_nil, or_false, Action.start.injEq, reduceCtorEq,
    false_or] at h
  rcases h with h | h | h
  · exact Or.inl h.2.1
  · exact Or.inr (Or.inl h.2.1)
  · exact Or.inr (Or.inr h.2.1)

theorem utf8_handed {p : ℕ} {clock : ℤ} {catalog : Catalog}
    (h : Action.issue p clock (.ok catalog) ∈ handed) : catalog.Utf8 := by
  simp only [handed, issuing, saveOps, List.map_cons, List.map_nil, List.cons_append,
    List.nil_append, List.mem_cons, List.not_mem_nil, or_false, Action.issue.injEq, reduceCtorEq,
    false_or, Except.ok.injEq] at h
  rcases h with h | h | h
  · exact h.2.2 ▸ utf8_catalog
  · exact h.2.2 ▸ utf8_catalog
  · exact h.2.2 ▸ utf8_catalog

theorem collisionFree_handed : handing.CollisionFreeOn (startedKeys handed) := by
  refine Runtime.collisionFreeOn_of_nodup
    [List.replicate 32 1, List.replicate 32 2, List.replicate 32 3] ?_ (by decide)
  have hkeys : ∀ given ∈ [options single 1, options handover 2, options handback 1],
      publicKey given.privateKey ∈
        [List.replicate 32 1, List.replicate 32 2, List.replicate 32 3] ∧
      ∀ g ∈ given.keyPolicy.keys, Base64Url.decodeString g.publicKey ∈
        [some (List.replicate 32 1), some (List.replicate 32 2), some (List.replicate 32 3)] := by
    decide
  rintro raw ⟨p, given, answers, hstart, hraw⟩
  have hgiven := hkeys given (by simpa using started_handed hstart)
  rcases hraw with rfl | ⟨g, hg, hdecode⟩
  · exact hgiven.1
  · have hmem := hgiven.2 g hg
    rw [hdecode] at hmem
    simpa using hmem

/-- How three verifications end: the first envelope from the empty state, the third from the empty
state, and the third from the state after the first. -/
noncomputable def verdicts (s : System) :
    Option (Except Error Unit × Except Error Unit × Except Error Unit) :=
  s.history[0]?.bind fun first =>
    s.history[2]?.map fun third =>
      ((verify handing first Manifest.Sample.root today .empty).1.map fun _ => (),
        (verify handing third Manifest.Sample.root today .empty).1.map fun _ => (),
        (verify handing third Manifest.Sample.root today
          (verify handing first Manifest.Sample.root today .empty).2).1.map fun _ => ())

theorem verdicts_handed : (run handing statePath (.initial none) handed).bind verdicts =
    some (.ok (), .ok (),
      .error (.new "manifest: signing key epoch changed without changing the key")) := by
  decide +kernel

theorem rootKey_handed {p : ℕ} {given : IssuerOptions} {answers : LockAnswers}
    (h : Action.start p given answers ∈ handed) : given.rootKey = Manifest.Sample.root := by
  rcases started_handed h with rfl | rfl | rfl
  · rfl
  · rfl
  · rfl

theorem map_ok {result : Except Error Document} (h : result.map (fun _ => ()) = .ok ()) :
    ∃ d, result = .ok d := by
  cases result with
  | error e => cases h
  | ok d => exact ⟨d, rfl⟩

end Sample

/-- A client that accepts version 1 and misses version 2 does not accept version 3, at any of the
times that it would as a new client. -/
theorem client_stranded :
    (ReadsStates Sample.handing ∧ Sample.handing.ReadsDocuments ∧ Sample.handing.VerifiesSigned ∧
      Sample.handing.CollisionFreeOn (startedKeys Sample.handed)) ∧
    (∀ p options answers, Action.start p options answers ∈ Sample.handed →
      options.rootKey = Manifest.Sample.root) ∧
    ∃ (s : System) (e e' : Envelope) (d d' : Document) (t : TrustedState),
      run Sample.handing Sample.statePath (.initial none) Sample.handed = some s ∧
      s.history[0]? = some e ∧ s.history[2]? = some e' ∧
      verify Sample.handing e Manifest.Sample.root Manifest.Sample.today .empty = (.ok d, t) ∧
      (verify Sample.handing e' Manifest.Sample.root Manifest.Sample.today .empty).1 = .ok d' ∧
      (d'.issuedAt - allowedClockSkew ≤ Manifest.Sample.today ∧
        Manifest.Sample.today < d'.expiresAt) ∧
      (verify Sample.handing e' Manifest.Sample.root Manifest.Sample.today t).1 =
        .error (.new "manifest: signing key epoch changed without changing the key") := by
  refine ⟨⟨Sample.readsStates_handing, Sample.readsDocuments_handing,
    fun _ _ _ => decide_eq_true rfl,
    Sample.collisionFree_handed⟩, fun p options answers => Sample.rootKey_handed, ?_⟩
  obtain ⟨s, hrun, hverdicts⟩ := Option.bind_eq_some_iff.mp Sample.verdicts_handed
  obtain ⟨e, he, hverdicts⟩ := Option.bind_eq_some_iff.mp hverdicts
  obtain ⟨e', he', hverdicts⟩ := Option.map_eq_some_iff.mp hverdicts
  obtain ⟨hfirst, hrest⟩ := Prod.mk.inj hverdicts
  obtain ⟨hnew, hthird⟩ := Prod.mk.inj hrest
  obtain ⟨d, hd⟩ := Sample.map_ok hfirst
  obtain ⟨d', hd'⟩ := Sample.map_ok hnew
  obtain ⟨o, ho, rfl, _⟩ := verify_ok hd'
  refine ⟨s, e, e', d, o.document, _, hrun, he, he', Prod.ext hd rfl, hd', ⟨ho.begun, ho.current⟩,
    ?_⟩
  cases hresult : (verify Sample.handing e' Manifest.Sample.root Manifest.Sample.today
      (verify Sample.handing e Manifest.Sample.root Manifest.Sample.today .empty).2).1 with
  | error error =>
      rw [hresult] at hthird
      exact congrArg Except.error (Except.error.inj hthird)
  | ok d'' =>
      rw [hresult] at hthird
      cases hthird

theorem collisionFree_single (call : Call) : rt.CollisionFreeOn (payloads [call]) := by
  rintro a ⟨c, hc, ha⟩ b ⟨c', hc', hb⟩ _
  rw [List.mem_singleton.mp hc] at ha
  rw [List.mem_singleton.mp hc'] at hb
  exact Option.some.inj (ha.symm.trans hb)

theorem client_continuity_handed :
    ∃ (s : System) (e e' : Envelope) (r : Reply) (d' : Document) (g g' : KeyGrant),
      run Sample.handing Sample.statePath (.initial none) Sample.handed = some s ∧
      s.history[0]? = some e ∧ s.history[2]? = some e' ∧
      ∀ clock, d'.issuedAt - allowedClockSkew ≤ clock → clock < d'.expiresAt →
        ((verify Sample.handing e' Manifest.Sample.root clock r.after).1 = .ok d' ↔
          (e.keyID = e'.keyID → g.epoch = g'.epoch)) := by
  obtain ⟨s, hrun, hverdicts⟩ := Option.bind_eq_some_iff.mp Sample.verdicts_handed
  obtain ⟨e, he, hverdicts⟩ := Option.bind_eq_some_iff.mp hverdicts
  obtain ⟨e', he', hverdicts⟩ := Option.map_eq_some_iff.mp hverdicts
  obtain ⟨d, hd⟩ := Sample.map_ok (Prod.mk.inj hverdicts).1
  have hr : Reply.mk ⟨e, Manifest.Sample.root, Manifest.Sample.today⟩ .empty (.ok d)
      (verify Sample.handing e Manifest.Sample.root Manifest.Sample.today .empty).2 ∈
        session Sample.handing .empty [⟨e, Manifest.Sample.root, Manifest.Sample.today⟩] := by
    rw [session_cons, ← hd]
    exact List.mem_cons_self
  obtain ⟨d', g, g', raw, raw', _, _, _, hverdict⟩ := client_continuity Sample.readsStates_handing
    Sample.readsDocuments_handing (fun _ _ _ => decide_eq_true rfl) hrun
    (fun p options answers => Sample.rootKey_handed) (fun p clock catalog => Sample.utf8_handed)
    Sample.collisionFree_handed (by decide : 0 < 2) he he' (collisionFree_single _) hr rfl rfl
  exact ⟨s, e, e', _, d', g, g', hrun, he, he', hverdict⟩

end CloudHelp.Service
