import CloudHelp.IssuerSystem
import CloudHelp.ManifestSpec
import CloudHelp.PolicyIdentity

/-!
# What starting and issuing have checked

`Behind` is the order in which the durable states of an issuer may follow each other. `Sound` is
what `NewIssuer` leaves behind: the key, its epoch and the policy of the issuer go with its
durable state. From a sound issuer the state of the next publication is one step ahead in that
order (`plan_ahead`), and `Publishes` says what the state records of the envelope.
-/

namespace CloudHelp.Service

open Manifest Issuance

variable {rt : Runtime}

structure Behind (a b : State) : Prop where
  version : a.lastVersion ≤ b.lastVersion
  revision : a.catalogRevision ≤ b.catalogRevision
  catalog : a.catalogRevision = b.catalogRevision → a.catalogSHA256 = b.catalogSHA256
  issuedAt : a.lastIssuedAt ≤ b.lastIssuedAt
  policyVersion : a.policyVersion ≤ b.policyVersion
  policy : a.policyVersion = b.policyVersion → a.policySHA256 = b.policySHA256
  epoch : a.keyEpoch ≤ b.keyEpoch
  key : a.keyID ≠ b.keyID → a.keyEpoch < b.keyEpoch

namespace Behind

theorem refl (a : State) : Behind a a :=
  ⟨UInt64.le_refl _, UInt64.le_refl _, fun _ => rfl, le_rfl, UInt64.le_refl _, fun _ => rfl,
    UInt64.le_refl _, fun h => absurd rfl h⟩

theorem trans {a b c : State} (h : Behind a b) (h' : Behind b c) : Behind a c where
  version := UInt64.le_trans h.version h'.version
  revision := UInt64.le_trans h.revision h'.revision
  catalog := by
    intro he
    have hb : b.catalogRevision = a.catalogRevision :=
      UInt64.le_antisymm (he ▸ h'.revision) h.revision
    rw [h.catalog hb.symm, h'.catalog (hb.trans he)]
  issuedAt := h.issuedAt.trans h'.issuedAt
  policyVersion := UInt64.le_trans h.policyVersion h'.policyVersion
  policy := by
    intro he
    have hb : b.policyVersion = a.policyVersion :=
      UInt64.le_antisymm (he ▸ h'.policyVersion) h.policyVersion
    rw [h.policy hb.symm, h'.policy (hb.trans he)]
  epoch := UInt64.le_trans h.epoch h'.epoch
  key := by
    intro hne
    by_cases hab : a.keyID = b.keyID
    · exact UInt64.lt_of_le_of_lt h.epoch (h'.key (hab ▸ hne))
    · exact UInt64.lt_of_lt_of_le (h.key hab) h'.epoch

end Behind

def Before (a b : State) : Prop := Behind a b ∧ a.lastVersion < b.lastVersion

/-! ## Starting -/

theorem nextVersion_some {options : IssuerOptions} {policyDigest : Bytes} {state : State}
    {next : UInt64} :
    nextVersion options policyDigest (some state) = .ok next ↔
      state.lastVersion ≠ maxUint64 ∧ state.policyVersion ≤ options.keyPolicy.version ∧
        (options.keyPolicy.version = state.policyVersion →
          policyDigest = state.policySHA256 ∧ consistent options state = true) ∧
        state.lastVersion + 1 = next := by
  unfold nextVersion
  simp only
  constructor
  · intro h
    split_ifs at h with hmax hold hdigest hconsistent
    refine ⟨hmax, UInt64.not_lt.mp hold, fun he => ⟨?_, ?_⟩, Except.ok.inj h⟩
    · exact not_not.mp fun hne => hdigest ⟨he, hne⟩
    · exact (Bool.not_eq_false _).mp fun hf => hconsistent ⟨he, hf⟩
  · rintro ⟨hmax, hold, hsame, rfl⟩
    rw [if_neg hmax, if_neg (UInt64.not_lt.mpr hold), if_neg fun hd => hd.2 (hsame hd.1).1,
      if_neg fun hc => by simp [(hsame hc.1).2] at hc]

theorem checkKey_some {keyID : Bytes} {epoch : UInt64} {state : State} :
    checkKey keyID epoch (some state) = .ok () ↔
      (state.keyID = keyID → state.keyEpoch = epoch) ∧
        (state.keyID ≠ keyID → state.keyEpoch < epoch) := by
  unfold checkKey
  simp only
  constructor
  · intro h
    split_ifs at h with hsame hother
    refine ⟨fun he => ?_, fun hne => ?_⟩
    · exact (not_not.mp fun hep => hsame ⟨he.symm, hep⟩).symm
    · exact UInt64.not_le.mp fun hle => hother ⟨fun he => hne he.symm, hle⟩
  · rintro ⟨hsame, hother⟩
    rw [if_neg fun h => h.2 (hsame h.1.symm).symm,
      if_neg fun h => UInt64.not_le.mpr (hother fun he => h.1 he.symm) h.2]

structure Started (rt : Runtime) (options : IssuerOptions) (policyDigest : Bytes)
    (found : Option State) (grant : KeyGrant) : Prop where
  next : ∃ next raw, nextVersion options policyDigest found = .ok next ∧
    keyPolicyGrant options.keyPolicy (keyID rt (publicKey options.privateKey)) next =
      .ok (grant, raw)
  key : checkKey (keyID rt (publicKey options.privateKey)) grant.epoch found = .ok ()

theorem startIssuer_eq_ok {options : IssuerOptions} {policyDigest : Bytes} {found : Option State}
    {issuer : Issuer} :
    startIssuer rt options policyDigest found = .ok issuer ↔
      ∃ grant, Started rt options policyDigest found grant ∧
        freshIssuer rt options policyDigest grant.epoch (found.getD .empty) = issuer := by
  constructor
  · intro h
    unfold startIssuer at h
    cases hnext : nextVersion options policyDigest found with
    | error e =>
        rw [hnext] at h
        cases h
    | ok next =>
        simp only [hnext] at h
        cases hgrant : keyPolicyGrant options.keyPolicy
            (keyID rt (publicKey options.privateKey)) next with
        | error e =>
            rw [hgrant] at h
            cases h
        | ok granted =>
            obtain ⟨grant, raw⟩ := granted
            simp only [hgrant] at h
            cases hkey : checkKey (keyID rt (publicKey options.privateKey)) grant.epoch found with
            | error e =>
                rw [hkey] at h
                cases h
            | ok u =>
                rw [hkey] at h
                exact ⟨grant, ⟨⟨next, raw, hnext, hgrant⟩, hkey⟩, Except.ok.inj h⟩
  · rintro ⟨grant, ⟨⟨next, raw, hnext, hgrant⟩, hkey⟩, rfl⟩
    simp only [startIssuer, hnext, hgrant, hkey]

theorem newIssuer_eq_ok {options : IssuerOptions} {found : Option State}
    {save : State → Except Error Unit} {issuer : Issuer} :
    newIssuer rt options (.ok ()) (.ok found) save = .ok issuer ↔
      ∃ policyDigest, checkOptions rt options = .ok policyDigest ∧
        ((migrate options policyDigest found = .ok none ∧
            startIssuer rt options policyDigest found = .ok issuer) ∨
          ∃ migrated, migrate options policyDigest found = .ok (some migrated) ∧
            save migrated = .ok () ∧
            startIssuer rt options policyDigest (some migrated) = .ok issuer) := by
  unfold newIssuer
  cases hoptions : checkOptions rt options with
  | error e => simp
  | ok policyDigest =>
      cases hmigrate : migrate options policyDigest found with
      | error e => simp [hmigrate]
      | ok needed =>
          cases needed with
          | none => simp [hmigrate]
          | some migrated =>
              cases hsave : save migrated with
              | error e => simp [hmigrate, hsave]
              | ok u => simp [hmigrate, hsave]

theorem newIssuer_of_complete {options : IssuerOptions} {policyDigest : Bytes} {state : State}
    (hoptions : checkOptions rt options = .ok policyDigest) (hpolicy : state.policyVersion ≠ 0)
    (save : State → Except Error Unit) :
    newIssuer rt options (.ok ()) (.ok (some state)) save =
      startIssuer rt options policyDigest (some state) := by
  simp only [newIssuer, hoptions, migrate, if_pos hpolicy]

theorem checkOptions_eq_ok {options : IssuerOptions} {policyDigest : Bytes} :
    checkOptions rt options = .ok policyDigest ↔
      options.privateKey.length = privateKeySize ∧
        validateKeyPolicy rt options.keyPolicy options.rootKey = .ok policyDigest ∧
        (Duration.minute ≤ options.ttl ∧ options.ttl ≤ Duration.hour) ∧
        (Duration.second ≤ options.cacheFor ∧ options.cacheFor ≤ options.ttl / 2) := by
  unfold checkOptions
  cases hpolicy : validateKeyPolicy rt options.keyPolicy options.rootKey with
  | error e =>
      constructor
      · intro h
        split_ifs at h
      · rintro ⟨_, hcontra, _⟩
        cases hcontra
  | ok digest =>
      constructor
      · intro h
        simp only at h
        split_ifs at h with hkey httl hcache
        rw [not_not] at hkey
        rw [not_or, not_lt, not_lt] at httl hcache
        exact ⟨hkey, h, httl, hcache⟩
      · rintro ⟨hkey, hdigest, httl, hcache⟩
        simp [hkey, httl.1.not_gt, httl.2.not_gt, hcache.1.not_gt, hcache.2.not_gt,
          Except.ok.inj hdigest]

/-! ## An issuer and its durable state -/

namespace Issuer

/-- What `NewIssuer` leaves behind: the key and policy of the issuer continue its durable state. -/
structure Sound (rt : Runtime) (issuer : Issuer) : Prop where
  key : Manifest.keyID rt (publicKey issuer.privateKey) = issuer.keyID
  policy : validateKeyPolicy rt issuer.keyPolicy issuer.rootKey = .ok issuer.policySHA
  grant : ∃ g ∈ issuer.keyPolicy.keys, g.keyID = issuer.keyID ∧ g.epoch = issuer.keyEpoch
  policyVersion : issuer.state.lastVersion ≠ 0 →
    issuer.state.policyVersion ≤ issuer.keyPolicy.version
  policyDigest : issuer.state.lastVersion ≠ 0 →
    issuer.state.policyVersion = issuer.keyPolicy.version →
      issuer.state.policySHA256 = issuer.policySHA
  sameKey : issuer.state.lastVersion ≠ 0 → issuer.state.keyID = issuer.keyID →
    issuer.state.keyEpoch = issuer.keyEpoch
  otherKey : issuer.state.lastVersion ≠ 0 → issuer.state.keyID ≠ issuer.keyID →
    issuer.state.keyEpoch < issuer.keyEpoch

def options (issuer : Issuer) : IssuerOptions :=
  ⟨issuer.statePath, issuer.ttl, issuer.cacheFor, issuer.privateKey, issuer.rootKey,
    issuer.keyPolicy⟩

theorem sound_of_started {options : IssuerOptions} {policyDigest : Bytes} {found : Option State}
    {grant : KeyGrant} (hpolicy : checkOptions rt options = .ok policyDigest)
    (h : Started rt options policyDigest found grant) :
    Sound rt (freshIssuer rt options policyDigest grant.epoch (found.getD .empty)) := by
  obtain ⟨next, raw, hnext, hgrant⟩ := h.next
  obtain ⟨_, hvalid, _, _⟩ := checkOptions_eq_ok.mp hpolicy
  obtain ⟨⟨_, hsigned⟩, _⟩ := validateKeyPolicy_eq_ok.mp hvalid
  obtain ⟨hmem, hid, _⟩ := (shape_of_ok hsigned.shape).grant_eq_ok.mp hgrant
  cases found with
  | none =>
      refine ⟨rfl, hvalid, ⟨grant, hmem, hid, rfl⟩, ?_, ?_, ?_, ?_⟩ <;>
        exact fun hne => absurd rfl hne
  | some state =>
      obtain ⟨_, hversion, hsame, _⟩ := nextVersion_some.mp hnext
      obtain ⟨hsameKey, hotherKey⟩ := checkKey_some.mp h.key
      exact ⟨rfl, hvalid, ⟨grant, hmem, hid, rfl⟩, fun _ => hversion,
        fun _ he => (hsame he.symm).1.symm, fun _ => hsameKey, fun _ => hotherKey⟩

end Issuer

/-- A started issuer has the given options, nothing cached, and the state that was found, completed
if it had no policy. -/
theorem newIssuer_sound {options : IssuerOptions} {found : Option State}
    {save : State → Except Error Unit} {issuer : Issuer}
    (h : newIssuer rt options (.ok ()) (.ok found) save = .ok issuer) :
    issuer.Sound rt ∧ issuer.options = options ∧ issuer.cached.payload = [] ∧
      ((∀ state, found = some state → state.policyVersion ≠ 0) →
        issuer.state = found.getD .empty) := by
  obtain ⟨policyDigest, hoptions, hcases⟩ := newIssuer_eq_ok.mp h
  rcases hcases with ⟨_, hstart⟩ | ⟨migrated, hmigrate, _, hstart⟩
  · obtain ⟨grant, hstarted, rfl⟩ := startIssuer_eq_ok.mp hstart
    exact ⟨Issuer.sound_of_started hoptions hstarted, rfl, rfl, fun _ => rfl⟩
  · obtain ⟨grant, hstarted, rfl⟩ := startIssuer_eq_ok.mp hstart
    refine ⟨Issuer.sound_of_started hoptions hstarted, rfl, rfl, fun hcomplete => ?_⟩
    cases found with
    | none => cases hmigrate
    | some state =>
        rw [migrate, if_pos (hcomplete state rfl)] at hmigrate
        cases hmigrate

/-! ## Planning a publication -/

theorem checkCatalog_eq_ok {issuer : Issuer} {now : ℤ} {catalog : Catalog} {digest : Bytes} :
    issuer.checkCatalog now catalog digest = .ok () ↔
      (issuer.state.lastVersion ≠ 0 →
        issuer.state.catalogRevision ≤ catalog.revision ∧
        (catalog.revision = issuer.state.catalogRevision → digest = issuer.state.catalogSHA256) ∧
        issuer.state.lastIssuedAt ≤ now ∧ issuer.state.lastVersion ≠ maxUint64) := by
  unfold Issuer.checkCatalog
  by_cases hzero : issuer.state.lastVersion = 0
  · rw [hzero, if_neg (UInt64.lt_irrefl 0)]
    exact ⟨fun _ hne => absurd rfl hne, fun _ => rfl⟩
  · rw [if_pos (UInt64.pos_iff_ne_zero.mpr hzero)]
    constructor
    · intro h _
      split_ifs at h with hold hchanged hclock hmax
      refine ⟨UInt64.not_lt.mp hold, fun he => ?_, not_lt.mp hclock, hmax⟩
      exact not_not.mp fun hne => hchanged ⟨he, hne⟩
    · intro h
      obtain ⟨hold, hchanged, hclock, hmax⟩ := h hzero
      rw [if_neg (UInt64.not_lt.mpr hold), if_neg fun hc => hc.2 (hchanged hc.1),
        if_neg hclock.not_gt, if_neg hmax]

theorem plan_eq_ok {issuer : Issuer} {now : ℤ} {loaded : Except Error Catalog}
    {envelope : Envelope} {next : State} :
    issuer.plan rt now loaded = .ok (envelope, next) ↔
      ∃ catalog digest, loaded = .ok catalog ∧ catalogDigest rt catalog = .ok digest ∧
        issuer.checkCatalog now catalog digest = .ok () ∧
        Manifest.issue rt catalog (issuer.state.lastVersion + 1) issuer.keyPolicy issuer.rootKey
          now issuer.ttl issuer.privateKey = .ok envelope ∧
        State.mk issuer.keyID issuer.keyEpoch issuer.keyPolicy.version issuer.policySHA
          (issuer.state.lastVersion + 1) catalog.revision digest now 0 = next := by
  constructor
  · intro h
    unfold Issuer.plan at h
    cases loaded with
    | error e => cases h
    | ok catalog =>
        cases hdigest : catalogDigest rt catalog with
        | error e =>
            simp only [hdigest] at h
            cases h
        | ok digest =>
            cases hcheck : issuer.checkCatalog now catalog digest with
            | error e =>
                simp only [hdigest, hcheck] at h
                cases h
            | ok u =>
                cases hissue : Manifest.issue rt catalog (issuer.state.lastVersion + 1)
                    issuer.keyPolicy issuer.rootKey now issuer.ttl issuer.privateKey with
                | error e =>
                    simp only [hdigest, hcheck, hissue] at h
                    cases h
                | ok sealedEnvelope =>
                    simp only [hdigest, hcheck, hissue] at h
                    obtain ⟨rfl, rfl⟩ := Prod.mk.inj (Except.ok.inj h)
                    exact ⟨catalog, digest, rfl, hdigest, hcheck, hissue, rfl⟩
  · rintro ⟨catalog, digest, rfl, hdigest, hcheck, hissue, rfl⟩
    simp only [Issuer.plan, hdigest, hcheck, hissue]

/-- An envelope's origin: the options and catalog it was sealed from and the state saved before
it. -/
structure Publication where
  options : IssuerOptions
  catalog : Catalog
  state : State

namespace Publication

def document (rt : Runtime) (pub : Publication) : Document :=
  issuedDocument rt pub.catalog pub.state.lastVersion pub.options.keyPolicy pub.state.lastIssuedAt
    pub.options.ttl

structure Publishes (rt : Runtime) (pub : Publication) (envelope : Envelope) : Prop where
  issued : Manifest.issue rt pub.catalog pub.state.lastVersion pub.options.keyPolicy
    pub.options.rootKey pub.state.lastIssuedAt pub.options.ttl pub.options.privateKey = .ok envelope
  truncated : Time.truncateSecond pub.state.lastIssuedAt = pub.state.lastIssuedAt
  catalogDigest : catalogDigest rt pub.catalog = .ok pub.state.catalogSHA256
  revision : pub.catalog.revision = pub.state.catalogRevision
  policy : validateKeyPolicy rt pub.options.keyPolicy pub.options.rootKey =
    .ok pub.state.policySHA256
  policyVersion : pub.options.keyPolicy.version = pub.state.policyVersion
  key : keyID rt (publicKey pub.options.privateKey) = pub.state.keyID
  grant : ∃ g ∈ pub.options.keyPolicy.keys, g.keyID = pub.state.keyID ∧ g.epoch = pub.state.keyEpoch

end Publication

namespace Issuer

variable {issuer : Issuer} {clock : ℤ} {loaded : Except Error Catalog} {envelope : Envelope}
  {next : State}

theorem Sound.publishes (hs : issuer.Sound rt)
    (h : issuer.plan rt (Time.truncateSecond clock) loaded = .ok (envelope, next)) :
    ∃ catalog, loaded = .ok catalog ∧
      Publication.Publishes rt ⟨issuer.options, catalog, next⟩ envelope := by
  obtain ⟨catalog, digest, rfl, hdigest, _, hissue, rfl⟩ := plan_eq_ok.mp h
  exact ⟨catalog, rfl, hissue, Time.truncateSecond_idem clock, hdigest, rfl, hs.policy,
    rfl, hs.key, hs.grant⟩

/-- The next state is ahead of the durable one, by a version that has not wrapped around. -/
theorem Sound.ahead (hs : issuer.Sound rt) {now : ℤ}
    (h : issuer.plan rt now loaded = .ok (envelope, next)) :
    issuer.state.lastVersion < next.lastVersion ∧
      (issuer.state.lastVersion ≠ 0 → Behind issuer.state next) := by
  obtain ⟨catalog, digest, rfl, _, hcheck, _, rfl⟩ := plan_eq_ok.mp h
  have hbounds := checkCatalog_eq_ok.mp hcheck
  have hlt : issuer.state.lastVersion < issuer.state.lastVersion + 1 := by
    have hmax : issuer.state.lastVersion ≠ maxUint64 := by
      by_cases hzero : issuer.state.lastVersion = 0
      · rw [hzero]
        decide
      · exact (hbounds hzero).2.2.2
    rw [UInt64.lt_iff_toNat_lt, toNat_add_one hmax]
    exact Nat.lt_succ_self _
  refine ⟨hlt, fun hzero => ?_⟩
  obtain ⟨hrevision, hsame, hclock, _⟩ := hbounds hzero
  refine ⟨UInt64.le_of_lt hlt, hrevision, fun he => (hsame he.symm).symm, hclock,
    hs.policyVersion hzero, hs.policyDigest hzero, ?_, hs.otherKey hzero⟩
  by_cases hkey : issuer.state.keyID = issuer.keyID
  · exact UInt64.le_of_eq (hs.sameKey hzero hkey)
  · exact UInt64.le_of_lt (hs.otherKey hzero hkey)

theorem Sound.of_published (hs : issuer.Sound rt) {now : ℤ}
    (h : issuer.plan rt now loaded = .ok (envelope, next)) :
    (issuer.published now envelope next).1.Sound rt := by
  obtain ⟨catalog, digest, rfl, _, _, _, rfl⟩ := plan_eq_ok.mp h
  exact ⟨hs.key, hs.policy, hs.grant, fun _ => UInt64.le_refl _, fun _ _ => rfl, fun _ _ => rfl,
    fun _ hne => absurd rfl hne⟩

end Issuer

end CloudHelp.Service
