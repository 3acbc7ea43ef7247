import CloudHelp.IssuerCalls
import CloudHelp.IssuerSafety

/-!
# What an issuer serves, and how often it refreshes

The envelope a call returns is the publication of its own second, or the cached one in a second
before its end (`Kept.answer_ok`). The deadlines are compared with the second the call takes place
in, so a cached envelope that ends inside that second is served until the second is over: it is
served expired exactly in what is left of that second (`Lapsed`).

With a clock that does not go back, an envelope keeps every call within its lifetime answered, and a
refresh is followed by none for the retry interval.
-/

namespace CloudHelp.Service

open Manifest Issuance Issuer

variable {rt : Runtime} {issuer : Issuer} {request : Request} {C : Catalog → Prop}
  {options : IssuerOptions}

/-- The cached envelope has ended, in the second the call takes place in. -/
def Issuer.Lapsed (issuer : Issuer) (clock : ℤ) : Prop :=
  issuer.cached.payload ≠ [] ∧ Time.truncateSecond clock < issuer.validUntil ∧
    issuer.validUntil ≤ clock

instance (issuer : Issuer) (clock : ℤ) : Decidable (issuer.Lapsed clock) :=
  inferInstanceAs (Decidable (_ ∧ _ ∧ _))

/-! ## The envelope of an answer -/

theorem Publication.Publishes.payload_ne_nil {pub : Publication} {envelope : Envelope}
    (h : pub.Publishes rt envelope) : envelope.payload ≠ [] := by
  obtain ⟨payload, hs, rfl⟩ := issue_eq_ok.mp h.issued
  intro hnil
  have hlength : (Base64Url.encodeToString payload).length = 0 := congrArg List.length hnil
  rw [Base64Url.length_encodeToString] at hlength
  refine encodedLen_ne_zero ?_ hlength
  rw [Ne, List.length_eq_zero_iff]
  exact Document.marshal_ne_nil hs.encoded

/-- Whatever the call does, the envelope it returns was published by the issuer's options, in a
second not after the call's and less than the lifetime before it. -/
structure Answers (rt : Runtime) (C : Catalog → Prop) (options : IssuerOptions) (now : ℤ)
    (pub : Publication) (envelope : Envelope) : Prop where
  publishes : pub.Publishes rt envelope
  catalog : C pub.catalog
  made : pub.options = options
  begun : pub.state.lastIssuedAt ≤ now
  current : now < pub.state.lastIssuedAt + options.ttl

namespace Issuer.Kept

theorem ttl_pos (hk : issuer.Kept rt C options) : 0 < options.ttl := by
  have httl := hk.ttl
  rw [← hk.options]
  exact lt_of_lt_of_le (by decide) httl

/-- The cached envelope, in a second before its end. -/
theorem answers_cached (hk : issuer.Kept rt C options) {now : ℤ}
    (hcached : issuer.cached.payload ≠ []) (hclock : issuer.ClockOk now)
    (hcurrent : now < issuer.validUntil) :
    ∃ catalog, Answers rt C options now ⟨options, catalog, issuer.state⟩ issuer.cached := by
  have hcache := hk.cached hcached
  obtain ⟨catalog, hC, hpublishes⟩ := hcache.publishes
  have hend : issuer.validUntil = issuer.state.lastIssuedAt + options.ttl := by
    rw [hcache.validUntil, ← hk.options]
    rfl
  rw [hk.options] at hpublishes
  exact ⟨catalog, hpublishes, hC, rfl, hclock hpublishes.version_ne_zero, hend ▸ hcurrent⟩

/-- The envelope of an answer: of this call's refresh, or the cached one. -/
theorem answer_ok (hk : issuer.Kept rt C options)
    (hC : ∀ catalog, request.loaded = .ok catalog → C catalog) {envelope : Envelope}
    (h : (issuer.answerTo rt request).2 = .ok envelope) :
    ∃ pub, Answers rt C options request.now pub envelope ∧
      ((issuer.Refreshes rt request ∧ pub.state.lastIssuedAt = request.now) ∨
        (¬issuer.Refreshes rt request ∧ issuer.cached.payload ≠ [] ∧
          issuer.validUntil = pub.state.lastIssuedAt + options.ttl)) := by
  have hcourse : Course rt issuer request (issuer.answerTo rt request) :=
    issue_course issuer request
  -- both answers from the cache go the same way
  have hcache : ¬issuer.Refreshes rt request → issuer.cached.payload ≠ [] →
      issuer.ClockOk request.now → request.now < issuer.validUntil → envelope = issuer.cached →
      ∃ pub, Answers rt C options request.now pub envelope ∧
        ((issuer.Refreshes rt request ∧ pub.state.lastIssuedAt = request.now) ∨
          (¬issuer.Refreshes rt request ∧ issuer.cached.payload ≠ [] ∧
            issuer.validUntil = pub.state.lastIssuedAt + options.ttl)) := by
    intro hfails hcached hclock hcurrent he
    obtain ⟨catalog, hanswers⟩ := hk.answers_cached hcached hclock hcurrent
    refine ⟨_, he ▸ hanswers, Or.inr ⟨hfails, hcached, ?_⟩⟩
    rw [(hk.cached hcached).validUntil, ← hk.options]
    rfl
  generalize issuer.answerTo rt request = result at hcourse h
  cases hcourse with
  | served hserve =>
      simp only at h
      subst h
      obtain ⟨he, hcached, hclock, htime⟩ := of_serve_ok hserve
      have hcurrent : request.now < issuer.validUntil := by
        rcases htime with htime | htime
        · exact lt_of_lt_of_le htime (hk.cached hcached).cacheUntil
        · exact htime
      refine hcache (fun hr => ?_) hcached hclock hcurrent he
      rw [hr.1] at hserve
      cases hserve
  | failed e hserve hfails =>
      unfold Issuer.failed at h
      by_cases hcached : issuer.cached.payload ≠ [] ∧ request.now < issuer.validUntil
      · rw [if_pos hcached] at h
        exact hcache hfails hcached.1 (of_serve_none hserve).1 hcached.2 (Except.ok.inj h).symm
      · rw [if_neg hcached] at h
        cases h
  | @published sealedEnvelope next hserve hplan hsave =>
      obtain rfl : sealedEnvelope = envelope := Except.ok.inj h
      obtain ⟨hissued, hcaches⟩ := hk.caches_published hC hplan
      obtain ⟨catalog, hcatalog, hpublishes⟩ := hcaches.publishes
      have hpublishes : Publication.Publishes rt ⟨options, catalog, next⟩ sealedEnvelope :=
        hk.options ▸ hpublishes
      refine ⟨⟨options, catalog, next⟩, ⟨hpublishes, hcatalog, rfl, hissued.le, ?_⟩,
        Or.inl ⟨⟨hserve, sealedEnvelope, next, hplan, hsave⟩, hissued⟩⟩
      have httl := hk.ttl_pos
      rw [hissued]
      omega

end Issuer.Kept

namespace Answers

variable {pub : Publication} {envelope : Envelope} {now clock : ℤ}

theorem issuedAt_eq (h : Answers rt C options now pub envelope) :
    (pub.document rt).issuedAt = pub.state.lastIssuedAt := h.publishes.truncated

theorem expiresAt_eq (h : Answers rt C options now pub envelope) :
    (pub.document rt).expiresAt = pub.state.lastIssuedAt + options.ttl := by
  rw [← h.made, ← h.publishes.truncated]
  change Time.truncateSecond pub.state.lastIssuedAt + pub.options.ttl = _
  rw [h.publishes.truncated]

/-- Whole seconds end at a whole second. -/
theorem current_of_whole (h : Answers rt C options (Time.truncateSecond clock) pub envelope)
    (hwhole : options.ttl % Duration.second = 0) :
    clock < pub.state.lastIssuedAt + options.ttl := by
  have hissued := h.publishes.truncated
  have hcurrent := h.current
  unfold Time.truncateSecond Duration.second at hissued hcurrent
  unfold Duration.second at hwhole
  omega

/-- `Verify` with the empty state accepts the envelope exactly before its end. -/
theorem verify_iff (h : Answers rt C options (Time.truncateSecond clock) pub envelope)
    (hdocuments : rt.ReadsDocuments) (hsign : rt.VerifiesSigned) (hcatalog : pub.catalog.Utf8)
    (hcollision : rt.CollisionFreeOn
      (insert (publicKey options.privateKey) (policyKeys options.keyPolicy))) :
    (verify rt envelope options.rootKey clock .empty).1 = .ok (pub.document rt) ↔
      clock < (pub.document rt).expiresAt := by
  obtain ⟨payload, hs, rfl⟩ := issue_eq_ok.mp h.publishes.issued
  rw [← h.made] at hcollision ⊢
  obtain ⟨hinside, houtside⟩ := hs.verify_empty hdocuments hsign hcatalog hcollision clock
  have hbegun : (pub.document rt).issuedAt - allowedClockSkew ≤ clock := by
    have hissued := h.issuedAt_eq
    have hle : pub.state.lastIssuedAt ≤ clock := h.begun.trans (Time.truncateSecond_le clock)
    have hskew : 0 ≤ allowedClockSkew := by decide
    omega
  constructor
  · intro hok
    by_contra hlate
    obtain ⟨e, he⟩ := houtside fun hin => hlate hin.2
    cases hok.symm.trans he
  · intro hcurrent
    exact hinside ⟨hbegun, hcurrent⟩

end Answers

/-- The envelope a call of a run returns, and when its end is past. -/
theorem exchange_answers {found : Option State} {save : State → Except Error Unit}
    {requests : List Request}
    (hstart : newIssuer rt options (.ok ()) (.ok found) save = .ok issuer) {x : Exchange}
    (hx : x ∈ exchanges rt issuer requests) {envelope : Envelope}
    (hanswer : x.answer = .ok envelope) :
    ∃ pub, Answers rt (fun catalog => ∃ request ∈ requests, request.loaded = .ok catalog) options
        x.request.now pub envelope ∧
      (x.request.clock < (pub.document rt).expiresAt ↔
        (x.before.Lapsed x.request.clock → x.before.Refreshes rt x.request)) := by
  obtain ⟨hk, hmem, heq⟩ := exchanges_kept
    (C := fun catalog => ∃ request ∈ requests, request.loaded = .ok catalog) hstart
    (fun request hr catalog hc => ⟨request, hr, hc⟩) x hx
  have hok : (x.before.answerTo rt x.request).2 = .ok envelope := by
    rw [heq] at hanswer
    exact hanswer
  obtain ⟨pub, hanswers, hcases⟩ :=
    hk.answer_ok (fun catalog hc => ⟨x.request, hmem, hc⟩) hok
  refine ⟨pub, hanswers, ?_⟩
  have hcurrent := hanswers.current
  rw [hanswers.expiresAt_eq]
  rcases hcases with ⟨hrefreshes, hissued⟩ | ⟨hfails, hcached, hend⟩
  · have hsecond : x.request.clock < x.request.now + Duration.second := by
      unfold Request.now Time.truncateSecond Duration.second
      omega
    have hminute : Duration.second ≤ Duration.minute := by decide
    have httl : Duration.minute ≤ x.before.ttl := hk.ttl
    have hfield : x.before.ttl = options.ttl := congrArg IssuerOptions.ttl hk.options
    exact ⟨fun _ _ => hrefreshes, fun _ => by omega⟩
  · constructor
    · rintro hbefore ⟨_, _, hlapsed⟩
      omega
    · intro hlapsed
      by_contra hlate
      refine hfails (hlapsed ⟨hcached, ?_, ?_⟩)
      · change x.request.now < _
        omega
      · omega

/-- An envelope that `Issue` returns at the clock reading `t` was issued no later than `t`, and
`t` is before its end except where a call in what is left of the second in which the cached
envelope ends does not refresh it. With a lifetime of whole seconds there is no such call. -/
theorem issue_unexpired_iff {found : Option State} {save : State → Except Error Unit}
    {requests : List Request}
    (hstart : newIssuer rt options (.ok ()) (.ok found) save = .ok issuer) {x : Exchange}
    (hx : x ∈ exchanges rt issuer requests) {envelope : Envelope}
    (hanswer : x.answer = .ok envelope) :
    ∃ (document : Document) (payload : Bytes),
      document.marshal = .ok payload ∧ envelope.payload = Base64Url.encodeToString payload ∧
      document.issuedAt ≤ x.request.clock ∧
      (x.request.clock < document.expiresAt ↔
        (x.before.Lapsed x.request.clock → x.before.Refreshes rt x.request)) ∧
      (options.ttl % Duration.second = 0 → x.request.clock < document.expiresAt) ∧
      (rt.ReadsDocuments → rt.VerifiesSigned →
        (∀ request ∈ requests, ∀ catalog, request.loaded = .ok catalog → catalog.Utf8) →
        rt.CollisionFreeOn (insert (publicKey options.privateKey) (policyKeys options.keyPolicy)) →
          ((verify rt envelope options.rootKey x.request.clock .empty).1 = .ok document ↔
            x.request.clock < document.expiresAt)) := by
  obtain ⟨pub, hanswers, hiff⟩ := exchange_answers hstart hx hanswer
  obtain ⟨payload, hs, he⟩ := issue_eq_ok.mp hanswers.publishes.issued
  refine ⟨pub.document rt, payload, hs.encoded, he ▸ rfl, ?_, hiff, ?_, ?_⟩
  · rw [hanswers.issuedAt_eq]
    exact hanswers.begun.trans (Time.truncateSecond_le _)
  · rw [hanswers.expiresAt_eq]
    exact hanswers.current_of_whole
  · intro hdocuments hsign hutf8 hcollision
    obtain ⟨request, hr, hloaded⟩ := hanswers.catalog
    exact hanswers.verify_iff hdocuments hsign (hutf8 request hr _ hloaded) hcollision

namespace Sample

open Manifest.Sample

def hourly : IssuerOptions := Sample.options rotated 1

def fractional : IssuerOptions :=
  { hourly with
    ttl := 60 * Duration.second + 500000000
    cacheFor := 30 * Duration.second }

def running (options : IssuerOptions) : Issuer :=
  (newIssuer .toy options (.ok ()) (.ok none) fun _ => .ok ()).toOption.getD
    (freshIssuer .toy options [] 0 .empty)

theorem starts_running {options : IssuerOptions}
    (h : (newIssuer .toy options (.ok ()) (.ok none) fun _ => .ok ()).isOk = true) :
    newIssuer .toy options (.ok ()) (.ok none) (fun _ => .ok ()) = .ok (running options) :=
  eq_ok_getD h _

theorem starts_hourly :
    newIssuer .toy hourly (.ok ()) (.ok none) (fun _ => .ok ()) = .ok (running hourly) :=
  starts_running (by decide +kernel)

def publishing : Request := ⟨today, .ok catalog, fun _ => .ok ()⟩

def failing (later : ℤ) : Request :=
  ⟨today + later, .error (.library "input/output error"), fun _ => .ok ()⟩

def interrupted (options : IssuerOptions) (later : ℤ) : Exchange :=
  exchange .toy ((running options).answerTo .toy publishing).1 (failing later)

theorem interrupted_mem (options : IssuerOptions) (later : ℤ) :
    interrupted options later ∈ exchanges .toy (running options) [publishing, failing later] :=
  List.mem_cons_of_mem _ List.mem_cons_self

def late : ℤ := 60 * Duration.second + 700000000

end Sample

open Service.Sample in
/-- An envelope that ended 200 milliseconds ago is served. -/
theorem issue_serves_expired :
    newIssuer .toy fractional (.ok ()) (.ok none) (fun _ => .ok ()) = .ok (running fractional) ∧
      ∃ x ∈ exchanges .toy (running fractional) [publishing, failing late],
        ∃ (envelope : Envelope) (document : Document) (payload : Bytes), x.answer = .ok envelope ∧
          document.marshal = .ok payload ∧ envelope.payload = Base64Url.encodeToString payload ∧
          document.expiresAt ≤ x.request.clock := by
  have hstart := starts_running
    (by decide +kernel :
      (newIssuer .toy fractional (.ok ()) (.ok none) fun _ => .ok ()).isOk = true)
  have hmem := interrupted_mem fractional late
  obtain ⟨envelope, hanswer⟩ := exists_of_isOk (α := Envelope)
    (by decide +kernel : (interrupted fractional late).answer.isOk = true)
  obtain ⟨pub, hanswers, hiff⟩ := exchange_answers hstart hmem hanswer
  obtain ⟨payload, hs, he⟩ := issue_eq_ok.mp hanswers.publishes.issued
  refine ⟨hstart, _, hmem, envelope, pub.document .toy, payload, hanswer, hs.encoded, he ▸ rfl, ?_⟩
  rw [← not_lt, hiff]
  intro hrefreshes
  have hlapsed : (interrupted fractional late).before.Lapsed
      (interrupted fractional late).request.clock := by decide +kernel
  obtain ⟨_, _, _, hplan, _⟩ := hrefreshes hlapsed
  cases hplan

open Service.Sample in
theorem issue_unexpired_iff_outage :
    newIssuer .toy hourly (.ok ()) (.ok none) (fun _ => .ok ()) = .ok (running hourly) ∧
      ∃ (envelope : Envelope) (document : Document) (payload : Bytes),
        (interrupted hourly (59 * Duration.minute)).answer = .ok envelope ∧
          document.marshal = .ok payload ∧ envelope.payload = Base64Url.encodeToString payload ∧
          Manifest.Sample.today + 59 * Duration.minute < document.expiresAt := by
  obtain ⟨envelope, hanswer⟩ := exists_of_isOk (α := Envelope)
    (by decide +kernel : (interrupted hourly (59 * Duration.minute)).answer.isOk = true)
  obtain ⟨document, payload, hencoded, hpayload, _, _, hwhole, _⟩ :=
    issue_unexpired_iff starts_hourly (interrupted_mem _ _) hanswer
  have hseconds : hourly.ttl % Duration.second = 0 := by decide
  exact ⟨starts_hourly, envelope, document, payload, hanswer, hencoded, hpayload, hwhole hseconds⟩

/-! ## Availability -/

namespace Issuer

/-- An issuer with a cached envelope that has not ended answers. -/
theorem Kept.answers (hk : issuer.Kept rt C options) (hcached : issuer.cached.payload ≠ [])
    (hclock : issuer.state.lastIssuedAt ≤ request.now)
    (hcurrent : request.now < issuer.validUntil) :
    ∃ envelope, (issuer.answerTo rt request).2 = .ok envelope := by
  have hcourse : Course rt issuer request (issuer.answerTo rt request) :=
    issue_course issuer request
  generalize issuer.answerTo rt request = result at hcourse
  cases hcourse with
  | served hserve =>
      rcases serve_cases issuer request.now with
        ⟨hrefused, _⟩ | ⟨_, _, ⟨_, _, hok⟩ | ⟨hended, _⟩ | ⟨_, _, hnone⟩⟩
      · rcases hrefused with hclosed | hbehind
        · rw [hk.notClosed] at hclosed
          cases hclosed
        · exact absurd (fun _ => hclock) hbehind
      · exact ⟨issuer.cached, Option.some.inj (hserve.symm.trans hok)⟩
      · exact absurd ⟨hcached, hcurrent⟩ hended
      · cases hserve.symm.trans hnone
  | failed e hserve hfails =>
      refine ⟨issuer.cached, ?_⟩
      rw [Issuer.failed, if_pos ⟨hcached, hcurrent⟩]
  | published hserve hplan hsave => exact ⟨_, rfl⟩

/-- A call keeps an envelope cached; the state stays, or moves to the second of the call. -/
theorem Kept.still_cached (hk : issuer.Kept rt C options) (request : Request)
    (hC : ∀ catalog, request.loaded = .ok catalog → C catalog)
    (hcached : issuer.cached.payload ≠ []) :
    (issuer.answerTo rt request).1.cached.payload ≠ [] ∧
      ((issuer.answerTo rt request).1.state.lastIssuedAt = issuer.state.lastIssuedAt ∨
        (issuer.answerTo rt request).1.state.lastIssuedAt = request.now) := by
  have hcourse : Course rt issuer request (issuer.answerTo rt request) :=
    issue_course issuer request
  generalize issuer.answerTo rt request = result at hcourse
  cases hcourse with
  | served hserve => exact ⟨hcached, Or.inl rfl⟩
  | failed e hserve hfails =>
      obtain ⟨⟨_, _, _, hfields⟩, _⟩ := failed_spec issuer request.now e
      rw [hfields]
      exact ⟨hcached, Or.inl rfl⟩
  | published hserve hplan hsave =>
      obtain ⟨hissued, hcaches⟩ := hk.caches_published hC hplan
      obtain ⟨_, _, hpublishes⟩ := hcaches.publishes
      exact ⟨hpublishes.payload_ne_nil, Or.inr hissued⟩

end Issuer

/-- While an envelope is cached, the calls within its lifetime are answered. -/
theorem answered_of_cached {requests : List Request} {since : ℤ}
    (hk : issuer.Kept rt (fun _ => True) options) (hcached : issuer.cached.payload ≠ [])
    (hsince : since ≤ issuer.state.lastIssuedAt)
    (hlater : ∀ request ∈ requests, issuer.state.lastIssuedAt ≤ request.now)
    (hclock : requests.Pairwise fun r r' => r.now ≤ r'.now) :
    ∀ y ∈ exchanges rt issuer requests, y.request.now < since + options.ttl →
      ∃ envelope, y.answer = .ok envelope := by
  induction requests generalizing issuer with
  | nil => exact fun y hy => (List.not_mem_nil hy).elim
  | cons request rest ih =>
      obtain ⟨hfirst, hrest⟩ := List.pairwise_cons.mp hclock
      obtain ⟨hnow, hlater⟩ := List.forall_mem_cons.mp hlater
      intro y hy hcurrent
      rcases List.mem_cons.mp hy with rfl | hy
      · have hend := (hk.cached hcached).validUntil
        have hfield : issuer.ttl = options.ttl := congrArg IssuerOptions.ttl hk.options
        refine hk.answers hcached hnow ?_
        change request.now < since + options.ttl at hcurrent
        omega
      · obtain ⟨hstill, hissued⟩ := hk.still_cached request (fun _ _ => trivial) hcached
        refine ih (hk.answerTo fun _ _ => trivial) hstill ?_ ?_ hrest y hy hcurrent
        · rcases hissued with hissued | hissued
          · exact hissued.symm ▸ hsince
          · exact hissued.symm ▸ hsince.trans hnow
        · intro r hr
          rcases hissued with hissued | hissued
          · exact (le_of_eq hissued).trans (hlater r hr)
          · exact (le_of_eq hissued).trans (hfirst r hr)

theorem available_after_refresh {requests : List Request}
    (hk : issuer.Kept rt (fun _ => True) options)
    (hclock : requests.Pairwise fun r r' => r.now ≤ r'.now) :
    (exchanges rt issuer requests).Pairwise fun x y => x.before.Refreshes rt x.request →
      y.request.now < x.request.now + options.ttl → ∃ envelope, y.answer = .ok envelope := by
  induction requests generalizing issuer with
  | nil => exact List.Pairwise.nil
  | cons request rest ih =>
      obtain ⟨hfirst, hrest⟩ := List.pairwise_cons.mp hclock
      have hnext : (issuer.answerTo rt request).1.Kept rt (fun _ => True) options :=
        hk.answerTo fun _ _ => trivial
      refine List.pairwise_cons.mpr ⟨fun y hy hrefreshes => ?_, ih hnext hrest⟩
      obtain ⟨envelope, next, hplan, hpublished⟩ := Refreshes.answerTo hrefreshes
      obtain ⟨hissued, hcaches⟩ := hk.caches_published (fun _ _ => trivial) hplan
      obtain ⟨_, _, hpublishes⟩ := hcaches.publishes
      change y ∈ exchanges rt (issuer.answerTo rt request).1 rest at hy
      rw [show issuer.answerTo rt request = _ from hpublished] at hnext hy
      exact answered_of_cached hnext hpublishes.payload_ne_nil (le_of_eq hissued.symm)
        (fun r hr => (le_of_eq hissued).trans (hfirst r hr)) hrest y hy

/-! ## The interval between refreshes -/

def Exchange.Attempts (x : Exchange) : Prop := x.before.serve x.request.now = none

def Exchange.saves (rt : Runtime) (x : Exchange) : Option State :=
  x.before.pending rt x.request.clock x.request.loaded

def retryInterval (options : IssuerOptions) : ℤ := min (5 * Duration.second) options.cacheFor

/-- After a refresh, whether it fails or not, the next one waits. -/
theorem Issuer.Kept.rests (hk : issuer.Kept rt (fun _ => True) options)
    (hattempt : issuer.serve request.now = none) {now : ℤ}
    (hserve : (issuer.answerTo rt request).1.serve now = none) :
    request.now + retryInterval options ≤ now := by
  have hfield : issuer.cacheFor = options.cacheFor := congrArg IssuerOptions.cacheFor hk.options
  have hcourse : Course rt issuer request (issuer.answerTo rt request) :=
    issue_course issuer request
  generalize issuer.answerTo rt request = result at hcourse hserve
  cases hcourse with
  | served hserved =>
      rw [hattempt] at hserved
      cases hserved
  | failed e _ _ =>
      have hretry : (issuer.failed request.now e).1.lastError = some e ∧
          (issuer.failed request.now e).1.retryAt = request.now + retryInterval options := by
        rw [retryInterval, ← hfield]
        unfold Issuer.failed
        split_ifs
        all_goals exact ⟨rfl, rfl⟩
      exact hretry.2 ▸ (of_serve_none hserve).2.2 e hretry.1
  | @published envelope next _ hplan _ =>
      obtain ⟨_, hcaches⟩ := hk.caches_published (fun _ _ => trivial) hplan
      obtain ⟨_, _, hpublishes⟩ := hcaches.publishes
      have hover := (of_serve_none hserve).2.1
      rw [not_and, not_lt] at hover
      have huntil : request.now + issuer.cacheFor ≤ now := hover hpublishes.payload_ne_nil
      unfold retryInterval
      omega

theorem retryInterval_pos (hk : issuer.Kept rt C options) : 0 < retryInterval options := by
  have hfield : issuer.cacheFor = options.cacheFor := congrArg IssuerOptions.cacheFor hk.options
  have hcacheFor := hk.cacheFor.1
  have hsecond : 0 < Duration.second := by decide
  unfold retryInterval
  omega

/-- Two refreshes are the interval apart, whatever the clock did in between. -/
theorem refreshes_apart {requests : List Request}
    (hk : issuer.Kept rt (fun _ => True) options) :
    (exchanges rt issuer requests).Pairwise fun x y => x.Attempts → y.Attempts →
      x.request.now + retryInterval options ≤ y.request.now := by
  have hpairwise : (exchanges rt issuer requests).Pairwise fun x y => x.Attempts →
      ∀ now, y.before.serve now = none → x.request.now + retryInterval options ≤ now := by
    apply exchanges_pairwise (P := fun issuer => issuer.Kept rt (fun _ => True) options)
      (Q := fun x issuer => x.Attempts → ∀ now, issuer.serve now = none →
        x.request.now + retryInterval options ≤ now)
    · exact fun issuer request _ hk => hk.answerTo fun _ _ => trivial
    · exact fun issuer request hk hattempt now hserve => hk.rests hattempt hserve
    · intro x issuer request hk hx hattempt now hserve
      cases hagain : issuer.serve request.now with
      | some answer =>
          rw [answerTo_of_served hagain] at hserve
          exact hx hattempt now hserve
      | none =>
          have hwaited := hx hattempt request.now hagain
          have hrests := hk.rests hagain hserve
          have hpos := retryInterval_pos hk
          omega
    · exact hk
  exact hpairwise.imp fun hxy hx hy => hxy hx _ hy

/-- A version is used only by a call that gets to its save, and then one. -/
theorem answerTo_state (issuer : Issuer) (request : Request) :
    (issuer.pending rt request.clock request.loaded = none →
        (issuer.answerTo rt request).1.state = issuer.state) ∧
      ∀ next, issuer.pending rt request.clock request.loaded = some next →
        next.lastVersion = issuer.state.lastVersion + 1 ∧
          ((issuer.answerTo rt request).1.state = issuer.state ∨
            (issuer.answerTo rt request).1.state = next) := by
  constructor
  · intro hnone
    rcases issue_of_pending_none hnone request.save with ⟨_, _, hissue⟩ | ⟨e, hissue⟩
    · rw [answerTo, hissue]
    · rw [answerTo, hissue]
      exact (failed_state ..).1
  · intro next hsome
    obtain ⟨envelope, _, hplan, hissue⟩ := issue_of_pending hsome
    obtain ⟨_, _, _, _, _, _, hnext⟩ := plan_eq_ok.mp hplan
    refine ⟨hnext ▸ rfl, ?_⟩
    rw [answerTo, hissue]
    cases request.save next with
    | error e => exact Or.inl (failed_state ..).1
    | ok u => exact Or.inr rfl

theorem attempts_of_saves {x : Exchange} (h : (x.saves rt).isSome = true) : x.Attempts := by
  obtain ⟨next, hnext⟩ := Option.isSome_iff_exists.mp h
  obtain ⟨_, hserve, _⟩ := issue_of_pending hnext
  exact hserve

/-- With a clock that does not go back: after a refresh at `t` every call before `t` and the
lifetime is answered; two refreshes are at least the retry interval apart; no more than one call
in such an interval hands a state to `Save`, which has the next version; and no other call changes
the state. -/
theorem issuer_available {found : Option State} {save : State → Except Error Unit}
    {requests : List Request}
    (hstart : newIssuer rt options (.ok ()) (.ok found) save = .ok issuer)
    (hclock : requests.Pairwise fun r r' => r.clock ≤ r'.clock) :
    ((exchanges rt issuer requests).Pairwise fun x y => x.before.Refreshes rt x.request →
      y.request.now < x.request.now + options.ttl → ∃ envelope, y.answer = .ok envelope) ∧
    ((exchanges rt issuer requests).Pairwise fun x y => x.Attempts → y.Attempts →
      x.request.now + min (5 * Duration.second) options.cacheFor ≤ y.request.now) ∧
    (∀ since : ℤ, ((exchanges rt issuer requests).filter fun x => decide (since ≤ x.request.now) &&
      decide (x.request.now < since + min (5 * Duration.second) options.cacheFor) &&
        (x.saves rt).isSome).length ≤ 1) ∧
    ∀ x ∈ exchanges rt issuer requests, (x.saves rt = none → x.after.state = x.before.state) ∧
      ∀ next, x.saves rt = some next → next.lastVersion = x.before.state.lastVersion + 1 ∧
        (x.after.state = x.before.state ∨ x.after.state = next) := by
  have hk : issuer.Kept rt (fun _ => True) options := newIssuer_kept hstart
  have hapart : (exchanges rt issuer requests).Pairwise fun x y => x.Attempts → y.Attempts →
      x.request.now + min (5 * Duration.second) options.cacheFor ≤ y.request.now :=
    refreshes_apart hk
  refine ⟨available_after_refresh hk (hclock.imp Time.truncateSecond_mono), hapart, ?_, ?_⟩
  · intro since
    apply length_filter_le_one
    refine hapart.imp fun {x y} hxy hx hy => ?_
    rw [Bool.and_eq_true, Bool.and_eq_true, decide_eq_true_eq, decide_eq_true_eq] at hx hy
    have hgap := hxy (attempts_of_saves hx.2) (attempts_of_saves hy.2)
    omega
  · intro x hx
    obtain ⟨_, _, heq⟩ := exchanges_kept (C := fun _ => True) hstart
      (fun _ _ _ _ => trivial) x hx
    rw [heq]
    exact answerTo_state x.before x.request

open Service.Sample in
theorem issuer_available_outage :
    ([publishing, failing (59 * Duration.minute)].Pairwise fun r r' => r.clock ≤ r'.clock) ∧
      (exchanges .toy (running hourly) [publishing, failing (59 * Duration.minute)]).Pairwise
        fun x y => x.before.Refreshes .toy x.request →
          y.request.now < x.request.now + Duration.hour → ∃ envelope, y.answer = .ok envelope := by
  have hclock : [publishing, failing (59 * Duration.minute)].Pairwise
      fun r r' => r.clock ≤ r'.clock := by decide
  exact ⟨hclock, (issuer_available starts_hourly hclock).1⟩

end CloudHelp.Service
