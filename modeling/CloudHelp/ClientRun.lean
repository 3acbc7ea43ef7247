import CloudHelp.ManifestSpec

/-!
# A client over a whole run

A client calls `Verify` again and again, with whatever envelopes it is given and whatever its
clock shows, and carries the returned state forward. `session` is such a run. `Trails` is the
order in which the states of a run follow each other: a reflexive and transitive relation that one
call keeps (`trails_verify`), so that it also holds between states that are far apart
(`pairwise_session`).

The state keeps the digest of the last payload and not the document, so that a document accepted
again at its version is known to be the recorded one only as far as SHA-256 has no collisions among
the payloads of the run.
-/

namespace CloudHelp.Manifest

open Base64Url

variable {rt : Runtime}

/-! ## One call -/

theorem verify_ok {envelope : Envelope} {rootPublicKey : Bytes} {now : ℤ} {t : TrustedState}
    {document : Document} (h : (verify rt envelope rootPublicKey now t).1 = .ok document) :
    ∃ o : Opened, Authentic rt envelope rootPublicKey now o ∧ o.document = document ∧
      validateStateTransition t (o.candidate rt) = .ok () ∧
      (verify rt envelope rootPublicKey now t).2 =
        if t.version = document.version then t else o.candidate rt := by
  unfold verify at h ⊢
  cases hauth : authenticate rt envelope rootPublicKey now with
  | error e =>
      simp only [hauth] at h
      cases h
  | ok found =>
      obtain ⟨d, candidate⟩ := found
      obtain ⟨o, ho, rfl, rfl⟩ := authenticate_eq_ok.mp hauth
      cases htransition : validateStateTransition t (o.candidate rt) with
      | error e =>
          simp only [hauth, htransition] at h
          cases h
      | ok u =>
          simp only [hauth, htransition] at h ⊢
          by_cases hv : t.version = (o.candidate rt).version
          · rw [if_pos hv] at h ⊢
            obtain rfl := Except.ok.inj h
            exact ⟨o, ho, rfl, htransition, (if_pos hv).symm⟩
          · rw [if_neg hv] at h ⊢
            obtain rfl := Except.ok.inj h
            exact ⟨o, ho, rfl, htransition, (if_neg hv).symm⟩

theorem verify_of_authentic {envelope : Envelope} {rootPublicKey : Bytes} {now : ℤ}
    {t : TrustedState} {o : Opened} (ho : Authentic rt envelope rootPublicKey now o)
    (ht : validateStateTransition t (o.candidate rt) = .ok ()) :
    verify rt envelope rootPublicKey now t =
      (.ok o.document, if t.version = o.document.version then t else o.candidate rt) := by
  have hauth := authenticate_eq_ok.mpr ⟨o, ho, rfl, rfl⟩
  simp only [verify, hauth, ht]
  by_cases hv : t.version = o.document.version
  · rw [if_pos hv]
    exact if_pos hv
  · rw [if_neg hv]
    exact if_neg hv

/-- An error comes back with the caller's own state. -/
theorem verify_error {envelope : Envelope} {rootPublicKey : Bytes} {now : ℤ} {t : TrustedState}
    {e : Error} (h : (verify rt envelope rootPublicKey now t).1 = .error e) :
    (verify rt envelope rootPublicKey now t).2 = t := by
  unfold verify at h ⊢
  split
  · rfl
  · rename_i document candidate hauth
    simp only [hauth] at h
    split
    · rfl
    · rename_i htransition
      simp only [htransition] at h
      split_ifs at h ⊢

theorem Authentic.shape {envelope : Envelope} {rootPublicKey : Bytes} {now : ℤ} {o : Opened}
    (h : Authentic rt envelope rootPublicKey now o) : Shape rt o.document.keyPolicy :=
  shape_of_ok h.valid.policy

theorem Authentic.grant_spec {envelope : Envelope} {rootPublicKey : Bytes} {now : ℤ} {o : Opened}
    (h : Authentic rt envelope rootPublicKey now o) :
    o.grant ∈ o.document.keyPolicy.keys ∧ o.grant.keyID = envelope.keyID ∧
      o.grant.Covers o.document.version ∧ grantKey rt o.grant = some o.key :=
  h.shape.grant_eq_ok.mp h.grant

theorem Authentic.policyDigest_eq {envelope : Envelope} {rootPublicKey : Bytes} {now : ℤ}
    {o : Opened} (h : Authentic rt envelope rootPublicKey now o) :
    rt.digest (canonicalPolicyText rt o.document.keyPolicy) = o.policyDigest :=
  (validateKeyPolicy_eq_ok.mp h.policy).2

/-- The signed bytes decide everything an accepted envelope leads to, its key included: no other
key of the policy may sign the document's version. -/
theorem Authentic.eq_of_payload {e e' : Envelope} {root root' : Bytes} {now now' : ℤ}
    {o o' : Opened} (h : Authentic rt e root now o) (h' : Authentic rt e' root' now' o')
    (hp : o.payload = o'.payload) :
    o.document = o'.document ∧ o.candidate rt = o'.candidate rt ∧ e.keyID = e'.keyID := by
  have hdocument : o.document = o'.document := by
    have hd := h.document
    rw [hp, h'.document] at hd
    exact (Except.ok.inj hd).symm
  have hdigest : o.policyDigest = o'.policyDigest := by
    rw [← h.policyDigest_eq, ← h'.policyDigest_eq, hdocument]
  obtain ⟨hmem, hkey, hcovers, _⟩ := h.grant_spec
  obtain ⟨hmem', hkey', hcovers', _⟩ := h'.grant_spec
  have hgrant : o.grant = o'.grant := by
    rw [← hdocument] at hmem' hcovers'
    exact h.shape.covers_unique hmem hmem' hcovers hcovers'
  refine ⟨hdocument, ?_, by rw [← hkey, ← hkey', hgrant]⟩
  unfold Opened.candidate
  rw [hp, hdocument, hdigest, hgrant]

/-- Two envelopes around the same signed bytes that are both accepted lead to the same document, the
same state and the same key, however their wrappers are spelt. -/
theorem verify_eq_of_payload {e e' : Envelope} {root payload : Bytes} {now : ℤ} {t : TrustedState}
    {d d' : Document} (hp : decodeString e.payload = some payload)
    (hp' : decodeString e'.payload = some payload) (h : (verify rt e root now t).1 = .ok d)
    (h' : (verify rt e' root now t).1 = .ok d') :
    d = d' ∧ (verify rt e root now t).2 = (verify rt e' root now t).2 ∧ e.keyID = e'.keyID := by
  obtain ⟨o, ho, rfl, _, hstate⟩ := verify_ok h
  obtain ⟨o', ho', rfl, _, hstate'⟩ := verify_ok h'
  have hsame : o.payload = o'.payload := by
    rw [← Option.some_inj, ← ho.payload, ← ho'.payload, hp, hp']
  obtain ⟨hdocument, hcandidate, hkey⟩ := ho.eq_of_payload ho' hsame
  refine ⟨hdocument, ?_, hkey⟩
  rw [hstate, hstate', hdocument, hcandidate]

namespace Sample

def today : ℤ := 740000 * 24 * Duration.hour

def short : Runtime := reading [([1], document rotated 6 today)]

def current : Envelope := envelope 2 [1]

/-- `current` with a newline in the base64 text of its payload, which the decoder skips. -/
def respelled : Envelope :=
  ⟨current.algorithm, current.keyID, 10 :: current.payload, current.signature⟩

end Sample

theorem verify_eq_of_payload_respelled :
    (verify Sample.short Sample.current Sample.root Sample.today .empty).2 =
      (verify Sample.short Sample.respelled Sample.root Sample.today .empty).2 := by
  have hp : decodeString Sample.current.payload = some [1] := by decide
  have hp' : decodeString Sample.respelled.payload = some [1] := by decide
  have h : (verify Sample.short Sample.current Sample.root Sample.today .empty).1 =
      .ok (Sample.document Sample.rotated 6 Sample.today) := by decide +kernel
  have h' : (verify Sample.short Sample.respelled Sample.root Sample.today .empty).1 =
      .ok (Sample.document Sample.rotated 6 Sample.today) := by decide +kernel
  exact (verify_eq_of_payload hp hp' h h').2.1

/-! ## Sequences of calls -/

structure Call where
  envelope : Envelope
  rootPublicKey : Bytes
  now : ℤ

structure Reply where
  call : Call
  before : TrustedState
  result : Except Error Document
  after : TrustedState

def session (rt : Runtime) : TrustedState → List Call → List Reply
  | _, [] => []
  | t, c :: rest =>
      let reply := verify rt c.envelope c.rootPublicKey c.now t
      ⟨c, t, reply.1, reply.2⟩ :: session rt reply.2 rest

theorem session_cons (t : TrustedState) (c : Call) (rest : List Call) :
    session rt t (c :: rest) =
      ⟨c, t, (verify rt c.envelope c.rootPublicKey c.now t).1,
        (verify rt c.envelope c.rootPublicKey c.now t).2⟩ ::
        session rt (verify rt c.envelope c.rootPublicKey c.now t).2 rest :=
  rfl

/-- A reply is that of `verify` to one of the calls. -/
theorem reply_of_mem {t : TrustedState} {calls : List Call} {r : Reply}
    (h : r ∈ session rt t calls) :
    r.call ∈ calls ∧
      verify rt r.call.envelope r.call.rootPublicKey r.call.now r.before = (r.result, r.after) := by
  induction calls generalizing t with
  | nil => cases h
  | cons c rest ih =>
      rw [session_cons] at h
      rcases List.mem_cons.mp h with rfl | hrest
      · exact ⟨List.mem_cons_self, rfl⟩
      · exact ⟨List.mem_cons_of_mem _ (ih hrest).1, (ih hrest).2⟩

/-- What every call keeps holds before and after every reply. -/
theorem session_invariant {P : TrustedState → Prop} {calls : List Call}
    (hstep : ∀ c ∈ calls, ∀ t, P t → P (verify rt c.envelope c.rootPublicKey c.now t).2)
    {t : TrustedState} (ht : P t) {r : Reply} (h : r ∈ session rt t calls) :
    P r.before ∧ P r.after := by
  induction calls generalizing t with
  | nil => cases h
  | cons c rest ih =>
      have hnext := hstep c List.mem_cons_self t ht
      rw [session_cons] at h
      rcases List.mem_cons.mp h with rfl | hrest
      · exact ⟨ht, hnext⟩
      · exact ih (fun c hc => hstep c (List.mem_cons_of_mem _ hc)) hnext hrest

/-- A transitive relation that every call from states with `P` keeps relates the states of a run in
their order. -/
theorem session_pairwise {P : TrustedState → Prop} {R : TrustedState → TrustedState → Prop}
    (htrans : ∀ t u v, R t u → R u v → R t v) {calls : List Call}
    (hstep : ∀ c ∈ calls, ∀ t, P t → P (verify rt c.envelope c.rootPublicKey c.now t).2 ∧
      R t (verify rt c.envelope c.rootPublicKey c.now t).2)
    {t : TrustedState} (ht : P t) :
    (∀ r ∈ session rt t calls, R t r.after) ∧
      (session rt t calls).Pairwise fun r s => R r.after s.after := by
  induction calls generalizing t with
  | nil => exact ⟨by simp [session], List.Pairwise.nil⟩
  | cons c rest ih =>
      obtain ⟨hnext, hfirst⟩ := hstep c List.mem_cons_self t ht
      obtain ⟨hall, hpairwise⟩ := ih (fun c hc => hstep c (List.mem_cons_of_mem _ hc)) hnext
      rw [session_cons]
      refine ⟨List.forall_mem_cons.mpr ⟨hfirst, fun r hr => ?_⟩, ?_⟩
      · exact htrans _ _ _ hfirst (hall r hr)
      · exact List.Pairwise.cons hall hpairwise

/-! ## The order of states -/

/-- The state `u` may follow `t` in a run. Go's zero time in the empty state is not an instant of
issuance, so it bounds nothing. -/
structure Trails (t u : TrustedState) : Prop where
  version : t.version ≤ u.version
  policyVersion : t.policyVersion ≤ u.policyVersion
  epoch : t.signingKeyEpoch ≤ u.signingKeyEpoch
  issuedAt : t.version ≠ 0 → t.issuedAt ≤ u.issuedAt
  payload : t.version = u.version → t.payloadSHA256 = u.payloadSHA256
  policy : t.policyVersion = u.policyVersion → t.policySHA256 = u.policySHA256
  key : t.signingKeyID ≠ u.signingKeyID → t.signingKeyEpoch < u.signingKeyEpoch

namespace Trails

theorem refl (t : TrustedState) : Trails t t :=
  ⟨UInt64.le_refl _, UInt64.le_refl _, UInt64.le_refl _, fun _ => le_rfl, fun _ => rfl,
    fun _ => rfl, fun h => absurd rfl h⟩

theorem trans {t u v : TrustedState} (h : Trails t u) (h' : Trails u v) : Trails t v where
  version := UInt64.le_trans h.version h'.version
  policyVersion := UInt64.le_trans h.policyVersion h'.policyVersion
  epoch := UInt64.le_trans h.epoch h'.epoch
  issuedAt := by
    intro hne
    have hu : u.version ≠ 0 := by
      intro h0
      exact hne (UInt64.le_zero_iff.mp (h0 ▸ h.version))
    exact (h.issuedAt hne).trans (h'.issuedAt hu)
  payload := by
    intro he
    have hu : u.version = t.version := UInt64.le_antisymm (he ▸ h'.version) h.version
    rw [h.payload hu.symm, h'.payload (hu.trans he)]
  policy := by
    intro he
    have hu : u.policyVersion = t.policyVersion :=
      UInt64.le_antisymm (he ▸ h'.policyVersion) h.policyVersion
    rw [h.policy hu.symm, h'.policy (hu.trans he)]
  key := by
    intro hne
    by_cases htu : t.signingKeyID = u.signingKeyID
    · exact UInt64.lt_of_le_of_lt h.epoch (h'.key (htu ▸ hne))
    · exact UInt64.lt_of_lt_of_le (h.key htu) h'.epoch

end Trails

/-- The states of a run: nothing accepted yet, or every field filled in. -/
def Settled (t : TrustedState) : Prop := t = .empty ∨ Complete t

theorem Authentic.complete {envelope : Envelope} {rootPublicKey : Bytes} {now : ℤ} {o : Opened}
    (h : Authentic rt envelope rootPublicKey now o) : Complete (o.candidate rt) := by
  obtain ⟨hmem, _, _, hkey⟩ := h.grant_spec
  refine ⟨h.valid.version, h.valid.issuedAt, h.shape.version, validSHA256Digest_digest _, ?_, ?_,
    ?_⟩
  · change validSHA256Digest o.policyDigest = true
    rw [← h.policyDigest_eq]
    exact validSHA256Digest_digest _
  · change o.grant.keyID.length = encodedLen 32
    rw [← (grantKey_eq_some.mp hkey).2.2]
    exact rt.length_digest _
  · exact (h.shape.grants _ hmem).epoch

theorem trails_empty {c : TrustedState} (h : Complete c) : Trails .empty c where
  version := UInt64.zero_le
  policyVersion := UInt64.zero_le
  epoch := UInt64.zero_le
  issuedAt h0 := absurd rfl h0
  payload h0 := absurd h0.symm h.version
  policy h0 := absurd h0.symm h.policyVersion
  key _ := UInt64.pos_iff_ne_zero.mpr h.signingKeyEpoch

theorem Succeeds.trails {t c : TrustedState} (h : Succeeds t c) (hne : c.version ≠ t.version) :
    Trails t c where
  version := h.version
  policyVersion := h.policyVersion
  epoch := h.epoch hne
  issuedAt _ := h.issuedAt
  payload he := absurd he.symm hne
  policy he := (h.policySHA256 he.symm).symm
  key hk := h.otherKey hne (Ne.symm hk)

theorem settled_transition {t c : TrustedState} (ht : Settled t) (hc : Complete c)
    (h : validateStateTransition t c = .ok ()) (hne : t.version ≠ c.version) : Trails t c := by
  rcases ht with rfl | ht
  · exact trails_empty hc
  · exact ((transition_complete ht).mp h).trails (Ne.symm hne)

/-- One call from a state of a run leads to a state of a run that may follow it. -/
theorem trails_verify {t : TrustedState} (ht : Settled t) (envelope : Envelope)
    (rootPublicKey : Bytes) (now : ℤ) :
    Settled (verify rt envelope rootPublicKey now t).2 ∧
      Trails t (verify rt envelope rootPublicKey now t).2 := by
  cases hresult : (verify rt envelope rootPublicKey now t).1 with
  | error e =>
      rw [verify_error hresult]
      exact ⟨ht, .refl t⟩
  | ok document =>
      obtain ⟨o, ho, rfl, htransition, hstate⟩ := verify_ok hresult
      rw [hstate]
      by_cases hv : t.version = o.document.version
      · rw [if_pos hv]
        exact ⟨ht, .refl t⟩
      · rw [if_neg hv]
        exact ⟨Or.inr ho.complete, settled_transition ht ho.complete htransition hv⟩

/-! ## Runs from the empty state -/

section Empty

variable {calls : List Call} {r : Reply}

theorem settled_session (h : r ∈ session rt .empty calls) : Settled r.before ∧ Settled r.after :=
  session_invariant (P := Settled) (fun _ _ _ ht => (trails_verify ht _ _ _).1) (Or.inl rfl) h

theorem trails_reply (h : r ∈ session rt .empty calls) : Trails r.before r.after := by
  have hafter : (verify rt r.call.envelope r.call.rootPublicKey r.call.now r.before).2 =
      r.after := by
    rw [(reply_of_mem h).2]
  rw [← hafter]
  exact (trails_verify (settled_session h).1 _ _ _).2

theorem pairwise_session (calls : List Call) :
    (session rt .empty calls).Pairwise fun r s => Trails r.after s.after :=
  (session_pairwise (P := Settled) (R := Trails) (fun _ _ _ => Trails.trans)
    (fun _ _ _ ht => trails_verify ht _ _ _) (Or.inl rfl)).2

theorem after_of_error (h : r ∈ session rt .empty calls) {e : Error} (he : r.result = .error e) :
    r.after = r.before := by
  have hreply := (reply_of_mem h).2
  have hresult : (verify rt r.call.envelope r.call.rootPublicKey r.call.now r.before).1 =
      .error e := by rw [hreply, he]
  have hstate := verify_error hresult
  rwa [hreply] at hstate

end Empty

end CloudHelp.Manifest
