import CloudHelp.ClientRun
import CloudHelp.PolicyIdentity

/-!
# No rollback and no equivocation

What holds between any two documents a client has accepted in one run. The state after an
acceptance is always the one the accepted document stands for (`after_of_accepted`), also where
the call kept the old state because the version was already known. The order of states from
`ClientRun` is then an order of the accepted documents.
-/

namespace CloudHelp.Manifest

open Base64Url

variable {rt : Runtime} {calls : List Call}

def payloads (calls : List Call) : Set Bytes :=
  {p | ∃ c ∈ calls, decodeString c.envelope.payload = some p}

def Held (rt : Runtime) (calls : List Call) (t : TrustedState) : Prop :=
  t = .empty ∨ ∃ c ∈ calls, ∃ o : Opened,
    Authentic rt c.envelope c.rootPublicKey c.now o ∧ o.candidate rt = t

/-- A document accepted at the version of the state is the document of the state. -/
theorem verify_of_held (hcollision : rt.CollisionFreeOn (payloads calls)) {c : Call}
    (hc : c ∈ calls) {t : TrustedState} (ht : Held rt calls t) {document : Document}
    (h : (verify rt c.envelope c.rootPublicKey c.now t).1 = .ok document) :
    ∃ o : Opened, Authentic rt c.envelope c.rootPublicKey c.now o ∧ o.document = document ∧
      (verify rt c.envelope c.rootPublicKey c.now t).2 = o.candidate rt := by
  obtain ⟨o, ho, rfl, htransition, hstate⟩ := verify_ok h
  refine ⟨o, ho, rfl, ?_⟩
  rw [hstate]
  by_cases hv : t.version = o.document.version
  · rw [if_pos hv]
    rcases ht with rfl | ⟨c', hc', o', ho', rfl⟩
    · exact absurd hv.symm ho.valid.version
    · have hsame := ((transition_complete ho'.complete).mp htransition).same hv.symm
      have hpayload : o.payload = o'.payload :=
        hcollision.digest_inj ⟨c, hc, ho.payload⟩ ⟨c', hc', ho'.payload⟩ hsame.1
      exact (ho.eq_of_payload ho' hpayload).2.1.symm
  · rw [if_neg hv]

theorem held_verify (hcollision : rt.CollisionFreeOn (payloads calls)) {c : Call} (hc : c ∈ calls)
    {t : TrustedState} (ht : Held rt calls t) :
    Held rt calls (verify rt c.envelope c.rootPublicKey c.now t).2 := by
  cases hresult : (verify rt c.envelope c.rootPublicKey c.now t).1 with
  | error e =>
      rw [verify_error hresult]
      exact ht
  | ok document =>
      obtain ⟨o, ho, _, hstate⟩ := verify_of_held hcollision hc ht hresult
      exact Or.inr ⟨c, hc, o, ho, hstate.symm⟩

/-- After an acceptance the state is that of the accepted document. -/
theorem after_of_accepted (hcollision : rt.CollisionFreeOn (payloads calls)) {r : Reply}
    (hr : r ∈ session rt .empty calls) {document : Document} (h : r.result = .ok document) :
    ∃ o : Opened, Authentic rt r.call.envelope r.call.rootPublicKey r.call.now o ∧
      o.document = document ∧ r.after = o.candidate rt := by
  have hheld : Held rt calls r.before :=
    (session_invariant (P := Held rt calls) (fun _ hc _ ht => held_verify hcollision hc ht)
      (Or.inl rfl) hr).1
  obtain ⟨hc, hreply⟩ := reply_of_mem hr
  have hresult : (verify rt r.call.envelope r.call.rootPublicKey r.call.now r.before).1 =
      .ok document := by rw [hreply, h]
  obtain ⟨o, ho, hdocument, hstate⟩ := verify_of_held hcollision hc hheld hresult
  rw [hreply] at hstate
  exact ⟨o, ho, hdocument, hstate⟩

/-- Two accepted documents that agree in a version agree in what is recorded at that version. -/
theorem accepted_agree (hcollision : rt.CollisionFreeOn (payloads calls)) {r s : Reply}
    (hr : r ∈ session rt .empty calls) (hs : s ∈ session rt .empty calls) {d d' : Document}
    (hd : r.result = .ok d) (hd' : s.result = .ok d') :
    (d.version = d'.version → r.after.payloadSHA256 = s.after.payloadSHA256) ∧
      (d.keyPolicy.version = d'.keyPolicy.version →
        r.after.policySHA256 = s.after.policySHA256) := by
  obtain ⟨o, _, rfl, ho⟩ := after_of_accepted hcollision hr hd
  obtain ⟨o', _, rfl, ho'⟩ := after_of_accepted hcollision hs hd'
  have hv : r.after.version = o.document.version := by rw [ho]; rfl
  have hv' : s.after.version = o'.document.version := by rw [ho']; rfl
  have hp : r.after.policyVersion = o.document.keyPolicy.version := by rw [ho]; rfl
  have hp' : s.after.policyVersion = o'.document.keyPolicy.version := by rw [ho']; rfl
  rw [← hv, ← hv', ← hp, ← hp']
  rcases pairwise_cases (pairwise_session calls) hr hs with rfl | h | h
  · exact ⟨fun _ => rfl, fun _ => rfl⟩
  · exact ⟨h.payload, h.policy⟩
  · exact ⟨fun he => (h.payload he.symm).symm, fun he => (h.policy he.symm).symm⟩

theorem after_payload {r : Reply} {o : Opened} (h : r.after = o.candidate rt) :
    r.after.payloadSHA256 = rt.digest o.payload := by
  rw [h]
  rfl

/-- A run from the empty state. Versions, policy versions and epochs never go back, and neither does
the time of issuance once there is one. Documents that agree in their version agree in the payload
digest, and documents that agree in the version of their policy in its digest. An error changes
nothing, and no state of the run is one that the transition check finds malformed. -/
theorem session_safe (rt : Runtime) (calls : List Call) :
    (∀ r ∈ session rt .empty calls,
      r.before.version ≤ r.after.version ∧ r.before.policyVersion ≤ r.after.policyVersion ∧
        r.before.signingKeyEpoch ≤ r.after.signingKeyEpoch ∧
        (r.before = .empty ∨ r.before.issuedAt ≤ r.after.issuedAt)) ∧
      (rt.CollisionFreeOn (payloads calls) →
        ∀ r ∈ session rt .empty calls, ∀ s ∈ session rt .empty calls, ∀ d d' p p',
          r.result = .ok d → s.result = .ok d' →
          decodeString r.call.envelope.payload = some p →
          decodeString s.call.envelope.payload = some p' →
            (d.version = d'.version → rt.digest p = rt.digest p') ∧
            (d.keyPolicy.version = d'.keyPolicy.version →
              validateKeyPolicy rt d.keyPolicy r.call.rootPublicKey =
                validateKeyPolicy rt d'.keyPolicy s.call.rootPublicKey)) ∧
      (∀ r ∈ session rt .empty calls, ∀ e, r.result = .error e → r.after = r.before) ∧
      (∀ r ∈ session rt .empty calls, ∀ t ∈ [r.before, r.after],
        (t = .empty ∨ Complete t) ∧
          ∀ c e, validateStateTransition t c = .error e → e ∉ malformedState) := by
  refine ⟨fun r hr => ?_, fun hcollision r hr s hs d d' p p' hd hd' hp hp' => ?_,
    fun r hr e he => after_of_error hr he, fun r hr t ht => ?_⟩
  · have h := trails_reply hr
    refine ⟨h.version, h.policyVersion, h.epoch, ?_⟩
    rcases (settled_session hr).1 with hempty | hcomplete
    · exact Or.inl hempty
    · exact Or.inr (h.issuedAt hcomplete.version)
  · obtain ⟨hversion, hpolicy⟩ := accepted_agree hcollision hr hs hd hd'
    obtain ⟨o, ho, rfl, hafter⟩ := after_of_accepted hcollision hr hd
    obtain ⟨o', ho', rfl, hafter'⟩ := after_of_accepted hcollision hs hd'
    obtain rfl : o.payload = p := Option.some.inj (ho.payload.symm.trans hp)
    obtain rfl : o'.payload = p' := Option.some.inj (ho'.payload.symm.trans hp')
    rw [← after_payload hafter, ← after_payload hafter', ho.policy, ho'.policy]
    refine ⟨hversion, fun he => ?_⟩
    have hdigest := hpolicy he
    rw [hafter, hafter'] at hdigest
    exact congrArg Except.ok hdigest
  · have hsettled : Settled t := by
      rcases List.mem_pair.mp ht with rfl | rfl
      · exact (settled_session hr).1
      · exact (settled_session hr).2
    exact ⟨hsettled, fun c e he => transition_not_malformed hsettled he⟩

namespace Sample

def ancient : Document := document rotated 6 (-2 * Duration.hour)

def ancientPayload : Bytes :=
  match ancient.marshal with
  | .ok b => b
  | .error _ => []

end Sample

/-- A document issued before year 1, with a clock that agrees: the time of issuance goes back from
the zero time of the empty state. -/
theorem session_issuedAt_before_zero :
    Sample.ancient.marshal = .ok Sample.ancientPayload ∧
      ∃ r ∈ session (Sample.reading [(Sample.ancientPayload, Sample.ancient)]) .empty
          [⟨Sample.envelope 2 Sample.ancientPayload, Sample.root, -2 * Duration.hour⟩],
        r.after.issuedAt < r.before.issuedAt :=
  ⟨by decide +kernel, _, List.mem_cons_self, by decide +kernel⟩

/-! ## Retired keys -/

def acceptedPolicies (rt : Runtime) (calls : List Call) : Set Bytes :=
  {t | ∃ r ∈ session rt .empty calls, ∃ d, r.result = .ok d ∧
    t = canonicalPolicyText rt d.keyPolicy}

/-- Under one policy version a key has one epoch. -/
theorem epoch_eq_of_policyVersion (hcollision : rt.CollisionFreeOn (payloads calls))
    (hpolicies : rt.CollisionFreeOn (acceptedPolicies rt calls)) {r s : Reply}
    (hr : r ∈ session rt .empty calls) (hs : s ∈ session rt .empty calls) {o o' : Opened}
    (ho : Authentic rt r.call.envelope r.call.rootPublicKey r.call.now o)
    (ho' : Authentic rt s.call.envelope s.call.rootPublicKey s.call.now o')
    (hd : r.result = .ok o.document) (hd' : s.result = .ok o'.document)
    (hversion : o.document.keyPolicy.version = o'.document.keyPolicy.version)
    (hkey : o.grant.keyID = o'.grant.keyID) : o.grant.epoch = o'.grant.epoch := by
  obtain ⟨q, hq, hqd, hafter⟩ := after_of_accepted hcollision hr hd
  obtain ⟨q', hq', hqd', hafter'⟩ := after_of_accepted hcollision hs hd'
  have hdigest := (accepted_agree hcollision hr hs hd hd').2 hversion
  have htext : canonicalPolicyText rt o.document.keyPolicy =
      canonicalPolicyText rt o'.document.keyPolicy := by
    refine hpolicies.digest_inj ⟨r, hr, _, hd, rfl⟩ ⟨s, hs, _, hd', rfl⟩ ?_
    rw [← hqd, ← hqd', hq.policyDigest_eq, hq'.policyDigest_eq]
    rw [hafter, hafter'] at hdigest
    exact hdigest
  obtain ⟨⟨sig, hsigned⟩, _⟩ := validateKeyPolicy_eq_ok.mp ho.policy
  obtain ⟨⟨sig', hsigned'⟩, _⟩ := validateKeyPolicy_eq_ok.mp ho'.policy
  have hcanonical := canonicalKeyPolicy_eq_of_text hsigned hsigned' htext
  have hkeys : canonicalKeyGrants rt o.document.keyPolicy.keys =
      canonicalKeyGrants rt o'.document.keyPolicy.keys := congrArg KeyPolicy.keys hcanonical
  have hmem : o.grant ∈ o'.document.keyPolicy.keys := by
    rw [← mem_canonicalKeyGrants, ← hkeys, mem_canonicalKeyGrants]
    exact ho.grant_spec.1
  rw [ho'.shape.eq_of_keyID hmem ho'.grant_spec.1 hkey]

/-- A key that comes back after another key was used comes back under a later policy and with an
epoch above both. -/
theorem session_retired_key (hcollision : rt.CollisionFreeOn (payloads calls))
    (hpolicies : rt.CollisionFreeOn (acceptedPolicies rt calls)) {r₁ r₂ r₃ : Reply}
    (horder : [r₁, r₂, r₃].Sublist (session rt .empty calls)) {d₁ d₂ d₃ : Document}
    (h₁ : r₁.result = .ok d₁) (h₂ : r₂.result = .ok d₂) (h₃ : r₃.result = .ok d₃)
    (hother : r₂.call.envelope.keyID ≠ r₁.call.envelope.keyID)
    (hback : r₃.call.envelope.keyID = r₁.call.envelope.keyID) :
    d₁.keyPolicy.version < d₃.keyPolicy.version ∧
      ∃ g₁ g₂ g₃ k₁ k₂ k₃,
        keyPolicyGrant d₁.keyPolicy r₁.call.envelope.keyID d₁.version = .ok (g₁, k₁) ∧
        keyPolicyGrant d₂.keyPolicy r₂.call.envelope.keyID d₂.version = .ok (g₂, k₂) ∧
        keyPolicyGrant d₃.keyPolicy r₃.call.envelope.keyID d₃.version = .ok (g₃, k₃) ∧
        g₁.epoch < g₃.epoch ∧ g₂.epoch < g₃.epoch := by
  have hpairs := (pairwise_session calls).sublist horder
  simp only [List.pairwise_cons, List.mem_cons, List.not_mem_nil, or_false, forall_eq_or_imp,
    forall_eq] at hpairs
  obtain ⟨⟨h12, h13⟩, h23, -⟩ := hpairs
  have hr₁ := horder.subset (by simp : r₁ ∈ [r₁, r₂, r₃])
  have hr₂ := horder.subset (by simp : r₂ ∈ [r₁, r₂, r₃])
  have hr₃ := horder.subset (by simp : r₃ ∈ [r₁, r₂, r₃])
  obtain ⟨o₁, ho₁, rfl, ha₁⟩ := after_of_accepted hcollision hr₁ h₁
  obtain ⟨o₂, ho₂, rfl, ha₂⟩ := after_of_accepted hcollision hr₂ h₂
  obtain ⟨o₃, ho₃, rfl, ha₃⟩ := after_of_accepted hcollision hr₃ h₃
  rw [ha₁, ha₂] at h12
  rw [ha₁, ha₃] at h13
  rw [ha₂, ha₃] at h23
  have hk₁ : o₁.grant.keyID = r₁.call.envelope.keyID := ho₁.grant_spec.2.1
  have hk₂ : o₂.grant.keyID = r₂.call.envelope.keyID := ho₂.grant_spec.2.1
  have hk₃ : o₃.grant.keyID = r₃.call.envelope.keyID := ho₃.grant_spec.2.1
  -- the epoch rises where the key changes, on the way out and on the way back
  have hout : o₁.grant.epoch < o₂.grant.epoch :=
    h12.key fun he => hother (by rw [← hk₂, ← hk₁]; exact he.symm)
  have hin : o₂.grant.epoch < o₃.grant.epoch :=
    h23.key fun he => hother (by rw [← hk₂, ← hback, ← hk₃]; exact he)
  have hrise := UInt64.lt_trans hout hin
  refine ⟨?_, o₁.grant, o₂.grant, o₃.grant, o₁.key, o₂.key, o₃.key, ho₁.grant, ho₂.grant, ho₃.grant,
    hrise, hin⟩
  refine UInt64.lt_of_le_of_ne h13.policyVersion fun he => ?_
  have hsame := epoch_eq_of_policyVersion hcollision hpolicies hr₁ hr₃ ho₁ ho₃ h₁ h₃ he
    (by rw [hk₁, hk₃, hback])
  exact UInt64.lt_irrefl _ (hsame ▸ hrise)

namespace Sample

def single : KeyPolicy := signed 1 [grant 1 1 1 0]

def returned : KeyPolicy := signed 3 [grant 3 1 1 5, grant 2 2 6 9, grant 1 3 10 0]

def entries : List (Bytes × Document) :=
  [([1], document single 1 today), ([2], document rotated 6 today),
    ([3], document returned 10 today)]

def rotation : List Call :=
  [⟨envelope 1 [1], root, today⟩, ⟨envelope 2 [2], root, today⟩, ⟨envelope 1 [3], root, today⟩]

def replies : List Reply := session (reading entries) .empty rotation

theorem results_rotation :
    replies.map (fun r => (r.call.envelope.keyID, r.result)) =
      [((envelope 1 [1]).keyID, .ok (document single 1 today)),
        ((envelope 2 [2]).keyID, .ok (document rotated 6 today)),
        ((envelope 1 [3]).keyID, .ok (document returned 10 today))] := by
  decide +kernel

theorem collisionFree_payloads : (reading entries).CollisionFreeOn (payloads rotation) := by
  refine Runtime.collisionFreeOn_of_nodup [[1], [2], [3]] ?_ (by decide)
  rintro p ⟨c, hc, hp⟩
  have hdecode : ∀ c ∈ rotation,
      decodeString c.envelope.payload ∈ [some [1], some [2], some [3]] := by decide
  have hmem := hdecode c hc
  rw [hp] at hmem
  simpa using hmem

theorem collisionFree_policies :
    (reading entries).CollisionFreeOn (acceptedPolicies (reading entries) rotation) := by
  refine Runtime.collisionFreeOn_of_nodup
    (entries.map fun d => canonicalPolicyText (reading entries) d.2.keyPolicy) ?_
    (by decide +kernel)
  rintro t ⟨r, hr, d, hd, rfl⟩
  have hmem : (r.call.envelope.keyID, r.result) ∈
      replies.map (fun r => (r.call.envelope.keyID, r.result)) := List.mem_map_of_mem hr
  rw [results_rotation, hd] at hmem
  simp only [List.mem_cons, Prod.mk.injEq, Except.ok.injEq, List.not_mem_nil, or_false] at hmem
  rcases hmem with ⟨_, rfl⟩ | ⟨_, rfl⟩ | ⟨_, rfl⟩ <;> simp [entries]

end Sample

theorem session_retired_key_returned :
    (Sample.document Sample.single 1 Sample.today).keyPolicy.version <
      (Sample.document Sample.returned 10 Sample.today).keyPolicy.version := by
  obtain ⟨r₁, rest, hr, h₁, hrest⟩ := List.map_eq_cons_iff.mp Sample.results_rotation
  obtain ⟨r₂, rest, rfl, h₂, hrest⟩ := List.map_eq_cons_iff.mp hrest
  obtain ⟨r₃, rest, rfl, h₃, hrest⟩ := List.map_eq_cons_iff.mp hrest
  obtain rfl := List.map_eq_nil_iff.mp hrest
  have horder : [r₁, r₂, r₃].Sublist (session (Sample.reading Sample.entries) .empty
      Sample.rotation) := hr ▸ List.Sublist.refl _
  rw [Prod.mk.injEq] at h₁ h₂ h₃
  refine (session_retired_key Sample.collisionFree_payloads Sample.collisionFree_policies horder
    h₁.2 h₂.2 h₃.2 ?_ ?_).1
  · rw [h₁.1, h₂.1]
    decide
  · rw [h₁.1, h₃.1]
    rfl

end CloudHelp.Manifest
