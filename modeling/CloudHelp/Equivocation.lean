import CloudHelp.Continuity

/-!
# What counts as a change

The issuer and the clients tell two catalogs, or two policies, of the same number apart by their
digests. The digest of a catalog stands for its content up to order. The digest of a policy stands
for what the root has signed and, beyond that, for how the signature is spelt: base64 leaves four
bits of the last character open, so the same signature has sixteen spellings and the same signed
policy as many digests.
-/

namespace CloudHelp.Service

open Manifest Issuance

variable {rt : Runtime}

/-! ## Catalogs of one revision -/

/-- At the durable revision the digest alone decides whether a catalog is refused as changed. -/
theorem plan_changed_iff {issuer : Issuer} {now : ℤ} {catalog : Catalog} {digest : Bytes}
    (hversion : issuer.state.lastVersion ≠ 0)
    (hrevision : catalog.revision = issuer.state.catalogRevision)
    (hdigest : catalogDigest rt catalog = .ok digest) :
    issuer.plan rt now (.ok catalog) =
        .error (.new "issuer: catalog changed without increasing its revision") ↔
      digest ≠ issuer.state.catalogSHA256 := by
  have hpositive := UInt64.pos_iff_ne_zero.mpr hversion
  have hold : ¬catalog.revision < issuer.state.catalogRevision :=
    hrevision ▸ UInt64.lt_irrefl _
  constructor
  · intro h hsame
    simp only [Issuer.plan, hdigest, Issuer.checkCatalog, if_pos hpositive, if_neg hold] at h
    rw [if_neg fun hc => hc.2 hsame] at h
    split_ifs at h
    · simp at h
    · simp at h
    · simp only at h
      split at h
      · simp at h
      · simp at h
  · intro hne
    simp only [Issuer.plan, hdigest, Issuer.checkCatalog, if_pos hpositive, if_neg hold]
    rw [if_pos ⟨hrevision, hne⟩]

/-- The digest of a catalog is the same for every order of its parts, and of two catalogs with the
same digest one is a reordering of the other. So a catalog with the durable revision is refused as
changed exactly if its content is not that of the durable one. -/
theorem catalogDigest_identifies {c d : Catalog} (hc : c.Utf8) (hd : d.Utf8)
    (hcollision : rt.CollisionFreeOn
      {(canonicalCatalog rt c).marshal, (canonicalCatalog rt d).marshal}) :
    (c.Reordered d → ∀ digest,
      catalogDigest rt c = .ok digest ↔ catalogDigest rt d = .ok digest) ∧
    (∀ digest, catalogDigest rt c = .ok digest → catalogDigest rt d = .ok digest →
      c.revision = d.revision ∧ c.Reordered d) ∧
    ∀ (issuer : Issuer) (now : ℤ) (digest : Bytes), issuer.state.lastVersion ≠ 0 →
      issuer.state.catalogRevision = c.revision →
      catalogDigest rt c = .ok issuer.state.catalogSHA256 →
      d.revision = c.revision → catalogDigest rt d = .ok digest →
        (issuer.plan rt now (.ok d) =
            .error (.new "issuer: catalog changed without increasing its revision") ↔
          ¬c.Reordered d) := by
  refine ⟨catalogDigest_reordered_iff, fun digest hcd hdd => ?_, ?_⟩
  · have hr := reordered_of_digest_eq hc hd hcollision hcd hdd
    exact ⟨hr.1, hr⟩
  · intro issuer now digest hversion hdurable hcd hrevision hdd
    rw [plan_changed_iff hversion (hrevision.trans hdurable.symm) hdd]
    refine not_congr ⟨fun he => ?_, fun hr => ?_⟩
    · exact reordered_of_digest_eq hc hd hcollision hcd (he ▸ hdd)
    · exact Except.ok.inj (hdd.symm.trans (catalogDigest_of_reordered hr hcd))

namespace Sample

def moved : Catalog :=
  { Manifest.Sample.catalog with
    nodes := Manifest.Sample.catalog.nodes.map fun node => { node with region := str "q" } }

def publisher : Issuer :=
  freshIssuer .toy (options Manifest.Sample.single 1) [] 1 (recorded Manifest.Sample.single 1 1 1)

theorem utf8_moved : moved.Utf8 := by
  simp only [Catalog.Utf8, DiscoveryEndpoint.Utf8, Node.Utf8, Endpoint.Utf8, moved,
    Manifest.Sample.catalog]
  decide

theorem collisionFree_moved : Runtime.toy.CollisionFreeOn
    {(canonicalCatalog .toy Manifest.Sample.catalog).marshal,
      (canonicalCatalog .toy moved).marshal} := by
  refine Runtime.collisionFreeOn_of_nodup
    [(canonicalCatalog .toy Manifest.Sample.catalog).marshal, (canonicalCatalog .toy moved).marshal]
    ?_ (by decide +kernel)
  rintro text (rfl | rfl)
  · exact List.mem_cons_self
  · exact List.mem_cons_of_mem _ List.mem_cons_self

end Sample

theorem catalogDigest_identifies_moved :
    ¬Manifest.Sample.catalog.Reordered Sample.moved := by
  obtain ⟨digest, hdigest⟩ := exists_of_isOk
    (by decide : (catalogDigest .toy Sample.moved).isOk = true)
  refine ((catalogDigest_identifies Manifest.Sample.utf8_catalog Sample.utf8_moved
    Sample.collisionFree_moved).2.2 Sample.publisher Manifest.Sample.today digest (by decide) rfl
    (by decide +kernel) rfl hdigest).mp ?_
  decide +kernel

/-! ## Policies of one version -/

/-- At the durable policy version the digest alone decides whether `NewIssuer` refuses the policy as
changed. -/
theorem newIssuer_changed_iff {options : IssuerOptions} {policyDigest : Bytes} {state : State}
    (hoptions : checkOptions rt options = .ok policyDigest) (hpolicy : state.policyVersion ≠ 0)
    (hversion : options.keyPolicy.version = state.policyVersion)
    (hlast : state.lastVersion ≠ maxUint64) (save : State → Except Error Unit) :
    newIssuer rt options (.ok ()) (.ok (some state)) save =
        .error (.new "issuer: key policy changed without increasing its version") ↔
      policyDigest ≠ state.policySHA256 := by
  rw [newIssuer_of_complete hoptions hpolicy]
  have hold : ¬options.keyPolicy.version < state.policyVersion := hversion ▸ UInt64.lt_irrefl _
  constructor
  · intro h hsame
    simp only [startIssuer, nextVersion, if_neg hlast, if_neg hold, hsame] at h
    rw [if_neg fun hc => hc.2 rfl] at h
    by_cases hinconsistent : options.keyPolicy.version = state.policyVersion ∧
        consistent options state = false
    · rw [if_pos hinconsistent] at h
      simp at h
    · rw [if_neg hinconsistent] at h
      simp only [checkKey] at h
      split at h
      · simp at h
      · split_ifs at h
        · simp at h
        · simp at h
  · intro hne
    simp only [startIssuer, nextVersion, if_neg hlast, if_neg hold]
    rw [if_pos ⟨hversion, hne⟩]

/-- At the trusted policy version the digest alone decides whether a client reports equivocation. -/
theorem verify_equivocation_iff {envelope : Envelope} {root : Bytes} {now : ℤ} {t : TrustedState}
    {o : Opened} (ho : Authentic rt envelope root now o) (ht : Complete t)
    (hversion : o.document.keyPolicy.version = t.policyVersion) :
    (verify rt envelope root now t).1 =
        .error (.new "manifest: same-version key policy equivocation detected") ↔
      o.policyDigest ≠ t.policySHA256 := by
  have hauth := authenticate_eq_ok.mpr ⟨o, ho, rfl, rfl⟩
  have hsame : (o.candidate rt).policyVersion = t.policyVersion := hversion
  have hold : ¬(o.candidate rt).policyVersion < t.policyVersion := hsame ▸ UInt64.lt_irrefl _
  have htransition : validateStateTransition t (o.candidate rt) =
        .error (.new "manifest: same-version key policy equivocation detected") ↔
      (o.candidate rt).policySHA256 ≠ t.policySHA256 := by
    unfold validateStateTransition
    rw [if_neg ht.version, if_neg ht.guards.1, if_neg ht.guards.2, if_neg hold]
    constructor
    · intro h hdigest
      rw [if_neg fun hc => hc.2 hdigest] at h
      split_ifs at h <;> simp at h
    · intro hne
      rw [if_pos ⟨hsame, hne⟩]
  rw [show (o.policyDigest ≠ t.policySHA256) = ((o.candidate rt).policySHA256 ≠ t.policySHA256)
    from rfl, ← htransition]
  simp only [verify, hauth]
  cases hresult : validateStateTransition t (o.candidate rt) with
  | error e => simp
  | ok u =>
      simp only [reduceCtorEq, iff_false]
      split_ifs <;> simp

/-- Of two policies a root has signed, the digests tell exactly whether the root signed the same, if
no two of them are the same signed policy with the signature in two spellings. Where they are, both
`NewIssuer` and `Verify` take the one for an equivocation on the other. -/
theorem policyDigest_identifies {P Q : KeyPolicy} {root digestP digestQ : Bytes}
    (hP : validateKeyPolicy rt P root = .ok digestP)
    (hQ : validateKeyPolicy rt Q root = .ok digestQ)
    (hcollision : rt.CollisionFreeOn {canonicalPolicyText rt P, canonicalPolicyText rt Q}) :
    ((digestP = digestQ ↔ keyPolicySigningBytes rt P = keyPolicySigningBytes rt Q) ↔
      (keyPolicySigningBytes rt P = keyPolicySigningBytes rt Q → P.signature = Q.signature)) ∧
    (keyPolicySigningBytes rt P = keyPolicySigningBytes rt Q →
      (∀ (options : IssuerOptions) (state : State) (save : State → Except Error Unit),
        options.keyPolicy = Q → checkOptions rt options = .ok digestQ →
        state.policyVersion = P.version → state.policySHA256 = digestP →
        state.lastVersion ≠ maxUint64 →
          (newIssuer rt options (.ok ()) (.ok (some state)) save =
              .error (.new "issuer: key policy changed without increasing its version") ↔
            P.signature ≠ Q.signature)) ∧
      ∀ (envelope : Envelope) (now : ℤ) (t : TrustedState) (o : Opened),
        Authentic rt envelope root now o → o.document.keyPolicy = Q → Complete t →
        t.policyVersion = P.version → t.policySHA256 = digestP →
          ((verify rt envelope root now t).1 =
              .error (.new "manifest: same-version key policy equivocation detected") ↔
            P.signature ≠ Q.signature)) := by
  obtain ⟨⟨signature, hsignedP⟩, rfl⟩ := validateKeyPolicy_eq_ok.mp hP
  obtain ⟨⟨signature', hsignedQ⟩, rfl⟩ := validateKeyPolicy_eq_ok.mp hQ
  have hdigest : rt.digest (canonicalPolicyText rt P) = rt.digest (canonicalPolicyText rt Q) ↔
      keyPolicySigningBytes rt P = keyPolicySigningBytes rt Q ∧ P.signature = Q.signature := by
    rw [← canonicalPolicyText_eq_iff hsignedP hsignedQ]
    refine ⟨fun h => ?_, fun h => congrArg rt.digest h⟩
    exact hcollision.digest_inj (Set.mem_insert _ _) (Set.mem_insert_of_mem _ rfl) h
  refine ⟨?_, fun hsame => ?_⟩
  · rw [hdigest]
    exact and_iff_left_iff_imp
  · -- the same signed policy: only the spelling is left to differ
    have hversion : P.version = Q.version := ((signingBytes_eq_iff hsignedP hsignedQ).mp hsame).1
    have hspelling : rt.digest (canonicalPolicyText rt Q) ≠ rt.digest (canonicalPolicyText rt P) ↔
        P.signature ≠ Q.signature := by
      rw [ne_comm, Ne, hdigest]
      exact not_congr (and_iff_right hsame)
    refine ⟨?_, ?_⟩
    · rintro options state save rfl hoptions hpolicy hsha hlast
      have hne : state.policyVersion ≠ 0 := hpolicy ▸ (shape_of_ok hsignedP.shape).version
      rw [newIssuer_changed_iff hoptions hne (hversion.symm.trans hpolicy.symm) hlast, hsha]
      exact hspelling
    · rintro envelope now t o ho rfl ht hpolicy hsha
      rw [verify_equivocation_iff ho ht (hversion.symm.trans hpolicy.symm), hsha,
        ← ho.policyDigest_eq]
      exact hspelling

namespace Sample

open Manifest.Sample

/-- The policy with the last character of its signature changed in the bits that base64 leaves
open. -/
def respell (policy : KeyPolicy) : KeyPolicy :=
  { policy with
    signature := policy.signature.dropLast ++ (policy.signature.getLast?.map (· + 1)).toList }

def spellings : Runtime :=
  reading [([1], document rotated 6 today), ([2], document (respell rotated) 7 today)]

def rotatedDigest : Bytes := Runtime.toy.digest (canonicalPolicyText .toy rotated)

def respelledDigest : Bytes := Runtime.toy.digest (canonicalPolicyText .toy (respell rotated))

theorem validate_rotated :
    validateKeyPolicy spellings rotated Manifest.Sample.root = .ok rotatedDigest ∧
      validateKeyPolicy spellings (respell rotated) Manifest.Sample.root = .ok respelledDigest := by
  decide +kernel

/-- The signing bytes do not contain the signature. -/
theorem signingBytes_respell (policy : KeyPolicy) :
    keyPolicySigningBytes rt policy = keyPolicySigningBytes rt (respell policy) := rfl

theorem collisionFree_spellings : spellings.CollisionFreeOn
    {canonicalPolicyText spellings rotated, canonicalPolicyText spellings (respell rotated)} := by
  refine Runtime.collisionFreeOn_of_nodup
    [canonicalPolicyText spellings rotated, canonicalPolicyText spellings (respell rotated)] ?_
    (by decide +kernel)
  rintro text (rfl | rfl)
  · exact List.mem_cons_self
  · exact List.mem_cons_of_mem _ List.mem_cons_self

/-- The sample root has one signature for each message. -/
theorem verify_unique (message s s' : Bytes)
    (h : spellings.verify Manifest.Sample.root message s = true)
    (h' : spellings.verify Manifest.Sample.root message s' = true) : s = s' :=
  (of_decide_eq_true h).trans (of_decide_eq_true h').symm

end Sample

theorem policyDigest_identifies_rotated :
    ((Sample.rotatedDigest = Sample.respelledDigest ↔
        keyPolicySigningBytes Sample.spellings Manifest.Sample.rotated =
          keyPolicySigningBytes Sample.spellings (Sample.respell Manifest.Sample.rotated)) ↔
      (keyPolicySigningBytes Sample.spellings Manifest.Sample.rotated =
          keyPolicySigningBytes Sample.spellings (Sample.respell Manifest.Sample.rotated) →
        Manifest.Sample.rotated.signature =
          (Sample.respell Manifest.Sample.rotated).signature)) :=
  (policyDigest_identifies Sample.validate_rotated.1 Sample.validate_rotated.2
    Sample.collisionFree_spellings).1

/-- The same signed policy under two digests: the issuer does not start with the second spelling and
a client that has seen the first rejects the second. -/
theorem policyDigest_respelled :
    (validateKeyPolicy Sample.spellings Manifest.Sample.rotated Manifest.Sample.root =
        .ok Sample.rotatedDigest ∧
      validateKeyPolicy Sample.spellings (Sample.respell Manifest.Sample.rotated)
        Manifest.Sample.root = .ok Sample.respelledDigest) ∧
    (∀ message s s', Sample.spellings.verify Manifest.Sample.root message s = true →
      Sample.spellings.verify Manifest.Sample.root message s' = true → s = s') ∧
    Sample.spellings.CollisionFreeOn
      {canonicalPolicyText Sample.spellings Manifest.Sample.rotated,
        canonicalPolicyText Sample.spellings (Sample.respell Manifest.Sample.rotated)} ∧
    Base64Url.decodeString Manifest.Sample.rotated.signature =
      Base64Url.decodeString (Sample.respell Manifest.Sample.rotated).signature ∧
    keyPolicySigningBytes Sample.spellings Manifest.Sample.rotated =
      keyPolicySigningBytes Sample.spellings (Sample.respell Manifest.Sample.rotated) ∧
    Sample.rotatedDigest ≠ Sample.respelledDigest ∧
    newIssuer Sample.spellings (Sample.options (Sample.respell Manifest.Sample.rotated) 2) (.ok ())
        (.ok (some (Sample.recorded Manifest.Sample.rotated 2 2 6))) (fun _ => .ok ()) =
      .error (.new "issuer: key policy changed without increasing its version") ∧
    (verify Sample.spellings (Manifest.Sample.envelope 2 [1]) Manifest.Sample.root
        Manifest.Sample.today .empty).1 =
      .ok (Manifest.Sample.document Manifest.Sample.rotated 6 Manifest.Sample.today) ∧
    (verify Sample.spellings (Manifest.Sample.envelope 2 [2]) Manifest.Sample.root
        Manifest.Sample.today (verify Sample.spellings (Manifest.Sample.envelope 2 [1])
          Manifest.Sample.root Manifest.Sample.today .empty).2).1 =
      .error (.new "manifest: same-version key policy equivocation detected") := by
  have hne : Sample.rotatedDigest ≠ Sample.respelledDigest := by decide +kernel
  refine ⟨Sample.validate_rotated, Sample.verify_unique, Sample.collisionFree_spellings,
    by decide +kernel, Sample.signingBytes_respell _, hne, ?_, by decide +kernel, by decide +kernel⟩
  have hoptions : checkOptions Sample.spellings
      (Sample.options (Sample.respell Manifest.Sample.rotated) 2) = .ok Sample.respelledDigest := by
    decide +kernel
  have hrecorded : (Sample.recorded Manifest.Sample.rotated 2 2 6).policySHA256 =
      Sample.rotatedDigest := by
    rw [Sample.recorded, Sample.rotatedDigest]
  rw [newIssuer_changed_iff hoptions (by decide) (by decide) (by decide), hrecorded]
  exact hne.symm

end CloudHelp.Service
