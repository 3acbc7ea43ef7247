import CloudHelp.ApiRuns
import CloudHelp.ManifestDecoding

/-!
# Clients of the public API

A client asks for `/v1/manifest` again and again, each time after it has the answer to its last
request, and verifies each answer with the state it keeps. Meanwhile the server answers any number
of other requests, refreshes, fails to refresh, and is closed. Whatever a client without a state
would accept at that time, the client with its state accepts, too; it never sees a version go
back.
-/

namespace CloudHelp.ManifestAPI

open Manifest Service Issuance

variable {K : Type} {h : Handler K} {rt : Runtime} {C : Catalog → Prop} {options : IssuerOptions}
  {start : Issuer} {x : Server K}

/-! ## Answers and publications -/

/-- The body of answer `i` is a manifest. -/
def Delivers (x : Server K) (i : ℕ) (body : Bytes) : Prop :=
  ∃ s, x.served[i]? = some s ∧ s.visit.request.route = .manifest ∧
    s.visit.request.method = PilotAPI.methodGet ∧ s.response.status = 200 ∧ s.response.body = body

/-- The request of answer `j` came in after answer `i` had been written. -/
def After (x : Server K) (i j : ℕ) : Prop := ∃ s, x.served[j]? = some s ∧ i < s.visit.started

/-- A manifest is the envelope of the call that its answer rests on. -/
theorem Delivers.entry (hx : Tracks h rt C start x) {i : ℕ} {body : Bytes}
    (hdelivers : Delivers x i body) :
    ∃ s index e envelope, x.served[i]? = some s ∧ s.index = some index ∧ s.visit.mark ≤ index ∧
      x.issuer.log[index]? = some e ∧ e.result = .issued (.ok envelope) ∧
      body = encodeEnvelope envelope := by
  obtain ⟨s, hs, hroute, hmethod, hstatus, rfl⟩ := hdelivers
  obtain ⟨hrests, _⟩ := hx.served s (List.mem_of_getElem? hs)
  unfold Served.Rests at hrests
  cases hindex : s.index with
  | none =>
      simp only [hindex] at hrests
      exact absurd hstatus (hrests hroute)
  | some index =>
      simp only [hindex] at hrests
      obtain ⟨answer, ⟨hmark, e, he, hresult⟩, hresponse⟩ := hrests
      rw [hresponse hroute] at hstatus ⊢
      cases answer with
      | error err => exact absurd hstatus (by change 503 ≠ 200; decide)
      | ok envelope =>
          refine ⟨s, index, e, envelope, hs, hindex, hmark, he, hresult, ?_⟩
          change (if s.visit.request.method = methodHead then [] else encodeEnvelope envelope) = _
          rw [hmethod, if_neg (by decide)]

def InOrder (rt : Runtime) (C : Catalog → Prop) (options : IssuerOptions)
    (e e' : Envelope) : Prop :=
  ∃ pub pub' : Publication, pub.Publishes rt e ∧ pub'.Publishes rt e' ∧ pub.options = options ∧
    pub'.options = options ∧ C pub.catalog ∧ C pub'.catalog ∧
    (e = e' ∨ Before pub.state pub'.state)

theorem calls_inOrder {T : Type} {log : List (Monitor.Entry T Method Input Result)}
    {issuer : Issuer} (hstart : start.Tended rt C options)
    (hserial : (issuerMonitor rt).Serial (Input.Loads C) start log issuer) :
    log.Pairwise fun a b => ∀ e e', a.result = .issued (.ok e) → b.result = .issued (.ok e') →
      InOrder rt C options e e' := by
  have hissue : ∀ {s s' : Issuer} {a : Monitor.Entry T Method Input Result} {e : Envelope},
      (issuerMonitor rt).Executes (Input.Loads C) s a.call a.taken s' a.result →
      a.result = .issued (.ok e) →
      (issuerMonitor rt).Executes (Input.Loads C) s .issue a.taken s' (.issued (.ok e)) := by
    intro s s' a e hcall hresult
    rw [hresult] at hcall
    cases hmethod : a.call with
    | issue => rwa [hmethod] at hcall
    | close =>
        rw [hmethod] at hcall
        cases (executes_close hcall).2
  refine (hserial.pairwise (P := fun s => s.Tended rt C options)
    (Q := fun a s => ∀ e, a.result = .issued (.ok e) → Precedes rt C options e s)
    (fun _ _ _ _ _ hs hcall => hs.executes hcall) ?_ ?_ ?_ hstart).2
  · intro s a s' hs hcall e hresult
    obtain ⟨hcached, pub, hpublishes, hoptions, hcatalog, hstate⟩ :=
      published_of_answer hs (hissue hcall hresult)
    exact ⟨pub, hpublishes, hoptions, hcatalog, Or.inl ⟨hcached, hstate⟩⟩
  · intro a s c taken s' r hs hQ hcall e hresult
    exact (hQ e hresult).executes hs hcall
  · intro a s b s' hs hQ hcall e e' hresult hresult'
    obtain ⟨pub, hpublishes, hoptions, hcatalog, horder⟩ := (hQ e hresult).executes hs hcall
    obtain ⟨hcached', pub', hpublishes', hoptions', hcatalog', hstate'⟩ :=
      published_of_answer hs (hissue hcall hresult')
    refine ⟨pub, pub', hpublishes, hpublishes', hoptions, hoptions', hcatalog, hcatalog', ?_⟩
    rcases horder with ⟨hcached, _⟩ | hbefore
    · exact Or.inl (hcached.symm.trans hcached')
    · exact Or.inr (hstate' ▸ hbefore)

theorem decodes_published {pub : Publication} {e : Envelope} (henvelopes : rt.ReadsEnvelopes)
    (hpub : pub.Publishes rt e) : decodeEnvelope rt ⟨encodeEnvelope e, none⟩ = .ok e := by
  obtain ⟨payload, hs, rfl⟩ := issue_eq_ok.mp hpub.issued
  exact (decodeEnvelope_encodeEnvelope henvelopes _ hs.size).2

def BodiesInOrder (rt : Runtime) (options : IssuerOptions) (body body' : Bytes) : Prop :=
  ∃ e e', decodeEnvelope rt ⟨body, none⟩ = .ok e ∧ decodeEnvelope rt ⟨body', none⟩ = .ok e' ∧
    InOrder rt Catalog.Utf8 options e e'

/-- Manifests in the order of their requests are in the order of their publications. -/
theorem delivers_inOrder (henvelopes : rt.ReadsEnvelopes) (hx : Tracks h rt Catalog.Utf8 start x)
    (hstart : start.Tended rt Catalog.Utf8 options) {i j : ℕ} {body body' : Bytes}
    (hi : Delivers x i body) (hj : Delivers x j body') (hafter : After x i j) :
    BodiesInOrder rt options body body' := by
  obtain ⟨s, k, a, e, hs, hk, _, ha, hresult, rfl⟩ := hi.entry hx
  obtain ⟨s', k', a', e', hs', hk', hmark, ha', hresult', rfl⟩ := hj.entry hx
  obtain ⟨s'', hs'', hstarted⟩ := hafter
  obtain rfl : s' = s'' := Option.some.inj (hs'.symm.trans hs'')
  have hvisit := (hx.served s' (List.mem_of_getElem? hs')).2
  have hlt : k < k' := (hvisit.earlier i s k hstarted hs hk).trans_le hmark
  obtain ⟨base, hserial, _⟩ := hx.ordered.serial
  obtain ⟨hlength, rfl⟩ := List.getElem?_eq_some_iff.mp ha
  obtain ⟨hlength', rfl⟩ := List.getElem?_eq_some_iff.mp ha'
  have hinOrder : InOrder rt Catalog.Utf8 options e e' :=
    List.pairwise_iff_getElem.mp (calls_inOrder hstart hserial) k k' hlength hlength' hlt
      e e' hresult hresult'
  have hpublished := hinOrder
  obtain ⟨pub, pub', hpub, hpub', _⟩ := hpublished
  exact ⟨e, e', decodes_published henvelopes hpub, decodes_published henvelopes hpub', hinOrder⟩

/-! ## A client with its state -/

/-- One publication under one key has one epoch. -/
theorem epoch_eq {pub pub' : Publication} {e e' : Envelope} (hpub : pub.Publishes rt e)
    (hpub' : pub'.Publishes rt e') (hoptions : pub.options = pub'.options) :
    pub.state.keyEpoch = pub'.state.keyEpoch := by
  obtain ⟨g, hg, hid, hepoch⟩ := hpub.grant
  obtain ⟨g', hg', hid', hepoch'⟩ := hpub'.grant
  rw [← hoptions] at hg'
  have hkey : pub.state.keyID = pub'.state.keyID := by
    rw [← hpub.key, ← hpub'.key, hoptions]
  have hsame : g = g' :=
    List.inj_on_of_nodup_map hpub.shape.nodup hg hg' (hid.trans (hkey.trans hid'.symm))
  rw [← hepoch, ← hepoch', hsame]

def poll (rt : Runtime) (root : Bytes) (t : TrustedState) (body : Bytes) (clock : ℤ) :
    Except Error Document × TrustedState :=
  match decodeEnvelope rt ⟨body, none⟩ with
  | .error e => (.error e, t)
  | .ok envelope => verify rt envelope root clock t

/-- An answer that the client polls, the clock it verifies it at, and what a client without a state
makes of it then. -/
structure Poll where
  index : ℕ
  body : Bytes
  clock : ℤ
  document : Document

def polls (rt : Runtime) (root : Bytes) : TrustedState → List Poll → List (Except Error Document)
  | _, [] => []
  | t, p :: rest =>
      (poll rt root t p.body p.clock).1 :: polls rt root (poll rt root t p.body p.clock).2 rest

theorem poll_of_decodes {body : Bytes} {e : Envelope}
    (hdecode : decodeEnvelope rt ⟨body, none⟩ = .ok e) (root : Bytes) (t : TrustedState)
    (clock : ℤ) : poll rt root t body clock = verify rt e root clock t := by
  simp only [poll, hdecode]

theorem decodes_of_poll {body root : Bytes} {t : TrustedState} {clock : ℤ} {document : Document}
    (hpoll : (poll rt root t body clock).1 = .ok document) :
    ∃ e, decodeEnvelope rt ⟨body, none⟩ = .ok e := by
  cases hdecode : decodeEnvelope rt ⟨body, none⟩ with
  | error err =>
      simp only [poll, hdecode] at hpoll
      cases hpoll
  | ok e => exact ⟨e, rfl⟩

/-- A client that holds what it recorded of one publication accepts the next one, if a client
without a state does. -/
theorem accepts_next (hdocuments : rt.ReadsDocuments) {e e' : Envelope}
    (horder : InOrder rt Catalog.Utf8 options e e') {root : Bytes} {now clock : ℤ} {o : Opened}
    (ho : Authentic rt e root now o) {document : Document}
    (hfresh : (verify rt e' root clock .empty).1 = .ok document) :
    ∃ o', Authentic rt e' root clock o' ∧ o'.document = document ∧
      verify rt e' root clock (o.candidate rt) = (.ok document, o'.candidate rt) ∧
      o.document.version ≤ document.version ∧
      (o.document.version = document.version → o.document = document) := by
  obtain ⟨pub, pub', hpub, hpub', hoptions, hoptions', hutf8, hutf8', hbefore⟩ := horder
  obtain ⟨o', ho', rfl, _⟩ := verify_ok hfresh
  obtain ⟨_, hmirrors⟩ := hpub.mirrors hdocuments hutf8 ho
  obtain ⟨_, hmirrors'⟩ := hpub'.mirrors hdocuments hutf8' ho'
  have hepoch : o.grant.epoch = o'.grant.epoch := by
    have hgrant : o.grant.epoch = pub.state.keyEpoch := hmirrors.signingKeyEpoch
    have hgrant' : o'.grant.epoch = pub'.state.keyEpoch := hmirrors'.signingKeyEpoch
    rw [hgrant, hgrant', epoch_eq hpub hpub' (hoptions.trans hoptions'.symm)]
  have haccepted := (verify_later hpub hpub' hbefore hdocuments hutf8 hutf8' ho ho').mpr
    fun _ => hepoch
  obtain ⟨o'', ho'', _, _, hstate⟩ := verify_ok haccepted
  have hcandidate : o''.candidate rt = o'.candidate rt :=
    (ho''.eq_of_payload ho' (Option.some.inj (ho''.payload.symm.trans ho'.payload))).2.1
  rw [hcandidate] at hstate
  have hversion : o.document.version = pub.state.lastVersion := hmirrors.version
  have hversion' : o'.document.version = pub'.state.lastVersion := hmirrors'.version
  refine ⟨o', ho', rfl, Prod.ext haccepted ?_, ?_⟩
  · rw [hstate]
    by_cases hsame : (o.candidate rt).version = o'.document.version
    · rw [if_pos hsame]
      -- the same version is the same envelope
      rcases hbefore with rfl | hbefore
      · exact (ho.eq_of_payload ho'
          (Option.some.inj (ho.payload.symm.trans ho'.payload))).2.1
      · have heq : pub.state.lastVersion = pub'.state.lastVersion :=
          hmirrors.version.symm.trans (hsame.trans hversion')
        exact absurd hbefore.2 (heq ▸ UInt64.lt_irrefl _)
    · rw [if_neg hsame]
  · rcases hbefore with rfl | hbefore
    · have hdocument := (ho.eq_of_payload ho'
        (Option.some.inj (ho.payload.symm.trans ho'.payload))).1
      rw [hdocument]
      exact ⟨UInt64.le_refl _, fun _ => rfl⟩
    · rw [hversion, hversion']
      exact ⟨UInt64.le_of_lt hbefore.2,
        fun heq => absurd hbefore.2 (heq ▸ UInt64.lt_irrefl _)⟩

/-- The client has no state yet, or that of a publication before all that are still to come. -/
def Holds (rt : Runtime) (options : IssuerOptions) (root : Bytes) (ps : List Poll)
    (t : TrustedState) : Prop :=
  t = .empty ∨ ∃ e now o, Authentic rt e root now o ∧ t = o.candidate rt ∧
    ∀ p ∈ ps, ∃ e', decodeEnvelope rt ⟨p.body, none⟩ = .ok e' ∧
      InOrder rt Catalog.Utf8 options e e'

theorem polls_eq (hdocuments : rt.ReadsDocuments) {root : Bytes} {ps : List Poll}
    {t : TrustedState} (ht : Holds rt options root ps t)
    (hfresh : ∀ p ∈ ps, (poll rt root .empty p.body p.clock).1 = .ok p.document)
    (horder : ps.Pairwise fun p q => BodiesInOrder rt options p.body q.body) :
    polls rt root t ps = ps.map fun p => .ok p.document := by
  induction ps generalizing t with
  | nil => rfl
  | cons p rest ih =>
      have haccepts := hfresh p List.mem_cons_self
      obtain ⟨e, hdecode⟩ := decodes_of_poll haccepts
      rw [poll_of_decodes hdecode] at haccepts
      -- with or without a state, the client ends with the state of this publication
      have hpoll : ∃ o, Authentic rt e root p.clock o ∧
          verify rt e root p.clock t = (.ok p.document, o.candidate rt) := by
        rcases ht with rfl | ⟨e₀, now, o, ho, rfl, hlater⟩
        · obtain ⟨o, ho, hdocument, _, hstate⟩ := verify_ok haccepts
          refine ⟨o, ho, Prod.ext haccepts ?_⟩
          rw [hstate, ← hdocument, if_neg fun hzero => ho.valid.version hzero.symm]
        · obtain ⟨e', hdecode', hinOrder⟩ := hlater p List.mem_cons_self
          obtain rfl : e = e' := Except.ok.inj (hdecode.symm.trans hdecode')
          obtain ⟨o', ho', _, hverify, _⟩ := accepts_next hdocuments hinOrder ho haccepts
          exact ⟨o', ho', hverify⟩
      obtain ⟨o, ho, hverify⟩ := hpoll
      rw [polls, poll_of_decodes hdecode, hverify, List.map_cons]
      congr 1
      apply ih ?_ (fun q hq => hfresh q (List.mem_cons_of_mem _ hq))
        (List.pairwise_cons.mp horder).2
      refine Or.inr ⟨e, p.clock, o, ho, rfl, fun q hq => ?_⟩
      obtain ⟨e₁, e', hdecode₁, hdecode', hinOrder⟩ := (List.pairwise_cons.mp horder).1 q hq
      obtain rfl : e = e₁ := Except.ok.inj (hdecode.symm.trans hdecode₁)
      exact ⟨e', hdecode', hinOrder⟩

/-- The server starts with an issuer from `NewIssuer` and serves any number of requests at once. A
client that polls `/v1/manifest`, each time after its last answer, accepts with the state it keeps
every answer that it would accept without one, and the versions it sees do not go back: an equal
version is the same document. -/
theorem polling_client_accepts {found : Option State} {save : State → Except Error Unit}
    (hdocuments : rt.ReadsDocuments) (henvelopes : rt.ReadsEnvelopes)
    (hnew : newIssuer rt options (.ok ()) (.ok found) save = .ok start)
    (hx : Reachable h rt Catalog.Utf8 start x) {ps : List Poll}
    (hdelivers : ∀ p ∈ ps, Delivers x p.index p.body)
    (hfresh : ∀ p ∈ ps, (poll rt options.rootKey .empty p.body p.clock).1 = .ok p.document)
    (hafter : ps.Pairwise fun p q => After x p.index q.index) :
    polls rt options.rootKey .empty ps = (ps.map fun p => .ok p.document) ∧
      ps.Pairwise fun p q => p.document.version ≤ q.document.version ∧
        (p.document.version = q.document.version → p.document = q.document) := by
  have hstart : start.Tended rt Catalog.Utf8 options := (newIssuer_kept hnew).tended
  have horder : ps.Pairwise fun p q => BodiesInOrder rt options p.body q.body :=
    hafter.imp_of_mem fun hp hq hpq =>
      delivers_inOrder henvelopes hx.tracks hstart (hdelivers _ hp) (hdelivers _ hq) hpq
  refine ⟨polls_eq hdocuments (Or.inl rfl) hfresh horder, horder.imp_of_mem fun hp hq hpq => ?_⟩
  obtain ⟨e, e', hdecode, hdecode', hinOrder⟩ := hpq
  have haccepts := hfresh _ hp
  have haccepts' := hfresh _ hq
  rw [poll_of_decodes hdecode] at haccepts
  rw [poll_of_decodes hdecode'] at haccepts'
  obtain ⟨o, ho, hdocument, _⟩ := verify_ok haccepts
  obtain ⟨_, _, _, _, hversions⟩ := accepts_next hdocuments hinOrder ho haccepts'
  rw [← hdocument]
  exact hversions

namespace Sample

open Manifest.Sample

def fresh : Issuer :=
  (newIssuer decoding (Service.Sample.options Manifest.Sample.single 1) (.ok ()) (.ok none)
    fun _ => .ok ()).toOption.getD
    (freshIssuer decoding (Service.Sample.options Manifest.Sample.single 1) [] 0 .empty)

theorem new_fresh : newIssuer decoding (Service.Sample.options Manifest.Sample.single 1) (.ok ())
    (.ok none) (fun _ => .ok ()) = .ok fresh :=
  eq_ok_getD (by decide +kernel) _

def visits (t : ℕ) (inputs : List Input) : List Event :=
  [.arrive t get, .acquire t, .issuer (.call (some t) .issue), .issuer (.lock (some t))] ++
    inputs.map (fun input => .issuer (.step (some t) input)) ++
    [.issuer (.unlock (some t)), .resume t, .release t, .finish t]

def publishing (now : ℤ) : List Input :=
  [.clock now, .catalog (.ok catalog), .saved (.ok ())] ++ List.replicate 7 .proceed

/-- The first request publishes, the second one gets the cached envelope, and the third one comes
when it is to be refreshed. -/
def visited : List Event :=
  visits 0 (publishing today) ++ visits 1 [.clock today] ++
    visits 2 (publishing (today + Duration.hour))

theorem allowed_visited : ∀ event ∈ visited, event.Allowed Catalog.Utf8 := by
  simp [visited, visits, publishing, Event.Allowed, Monitor.Action.Allowed, Input.Loads,
    utf8_catalog, List.replicate]

def manifestBody (s : Served) : Option Bytes :=
  match s.visit.request.route with
  | .manifest =>
      if s.visit.request.method = PilotAPI.methodGet ∧ s.response.status = 200 then
        some s.response.body
      else none
  | _ => none

theorem delivers_of_manifestBody {x : Server Unit} {i : ℕ} {body : Bytes}
    (hbody : x.served[i]?.bind manifestBody = some body) : Delivers x i body := by
  obtain ⟨s, hs, hbody⟩ := Option.bind_eq_some_iff.mp hbody
  unfold manifestBody at hbody
  cases hroute : s.visit.request.route with
  | manifest =>
      simp only [hroute] at hbody
      split_ifs at hbody with hanswer
      exact ⟨s, hs, hroute, hanswer.1, hanswer.2, Option.some.inj hbody⟩
  | _ => simp [hroute] at hbody

def polled (x : Server Unit) (i : ℕ) (now : ℤ) : Option Poll := do
  let body ← x.served[i]?.bind manifestBody
  let document ← (poll decoding root .empty body now).1.toOption
  return ⟨i, body, now, document⟩

theorem of_polled {x : Server Unit} {i : ℕ} {now : ℤ} {p : Poll} (h : polled x i now = some p) :
    Delivers x p.index p.body ∧ (poll decoding root .empty p.body p.clock).1 = .ok p.document := by
  obtain ⟨body, hbody, h⟩ := Option.bind_eq_some_iff.mp h
  obtain ⟨document, hdocument, h⟩ := Option.bind_eq_some_iff.mp h
  obtain rfl := Option.some.inj h
  refine ⟨delivers_of_manifestBody hbody, ?_⟩
  cases hpoll : (poll decoding root .empty body now).1 with
  | error failure => rw [hpoll] at hdocument; cases hdocument
  | ok found => rw [hpoll] at hdocument; rw [Option.some.inj hdocument]

def session (x : Server Unit) : List Poll :=
  [(0, today), (1, today), (2, today + Duration.hour)].filterMap fun visit =>
    polled x visit.1 visit.2

def after (x : Server Unit) (i j : ℕ) : Bool := x.served[j]?.any fun s => i < s.visit.started

theorem after_iff {x : Server Unit} {i j : ℕ} : after x i j = true ↔ After x i j := by
  simp [after, After, Option.any_eq_true]

theorem served_visited : (runs (Server.step single decoding) (.initial fresh) visited).map
    (fun x => decide ((session x).Pairwise fun p q => after x p.index q.index = true) &&
      decide ((session x).map (fun p => p.document.version) = [1, 1, 2])) = some true := by
  decide +kernel

end Sample

open ManifestAPI.Sample Manifest.Sample in
theorem polling_client_accepts_visited :
    ∃ x, runs (Server.step Sample.single decoding) (.initial fresh) visited = some x ∧
      (∀ p ∈ session x, Delivers x p.index p.body) ∧
      (session x).Pairwise (fun p q => After x p.index q.index) ∧
      (session x).map (fun p => p.document.version) = [1, 1, 2] ∧
      polls decoding root .empty (session x) = (session x).map fun p => .ok p.document := by
  obtain ⟨x, hrun, hserved⟩ := Option.map_eq_some_iff.mp served_visited
  obtain ⟨hafter, hversions⟩ := Bool.and_eq_true_iff.mp hserved
  have hafter : (session x).Pairwise fun p q => After x p.index q.index :=
    (of_decide_eq_true hafter).imp after_iff.mp
  have hpolled : ∀ p ∈ session x, Delivers x p.index p.body ∧
      (poll decoding root .empty p.body p.clock).1 = .ok p.document := by
    intro p hp
    obtain ⟨visit, _, hpoll⟩ := List.mem_filterMap.mp hp
    exact of_polled hpoll
  have hdelivers : ∀ p ∈ session x, Delivers x p.index p.body := fun p hp => (hpolled p hp).1
  have hx := Reachable.initial.runs allowed_visited hrun
  exact ⟨x, hrun, hdelivers, hafter, of_decide_eq_true hversions,
    (polling_client_accepts (readsDocuments_withJson _ _) (readsEnvelopes_withJson _ _) new_fresh hx
      hdelivers (fun p hp => (hpolled p hp).2) hafter).1⟩

end CloudHelp.ManifestAPI
