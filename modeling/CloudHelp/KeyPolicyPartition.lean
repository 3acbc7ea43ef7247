import CloudHelp.KeyPolicy
import CloudHelp.Tiling

/-!
# A validated policy partitions the version space

The validator walks the grants in the order of their first versions and compares each with the one
before. `Follows` is that comparison, `GrantOk` what it asks of a grant by itself. From the two
the sorted grants tile the versions `1` to `2^64 - 1` with strictly increasing epochs, so that every
version belongs to exactly one key.
-/

namespace CloudHelp.Manifest

open Base64Url

variable {rt : Runtime}

structure GrantOk (rt : Runtime) (grant : KeyGrant) : Prop where
  key : grantKey rt grant ≠ none
  epoch : grant.epoch ≠ 0
  start : grant.notBeforeVersion ≠ 0
  range : grant.notAfterVersion ≠ 0 → grant.notBeforeVersion ≤ grant.notAfterVersion

def Follows : Option KeyGrant → KeyGrant → Prop
  | none, grant => grant.epoch = 1 ∧ grant.notBeforeVersion = 1
  | some previous, grant =>
      previous.notAfterVersion ≠ 0 ∧ previous.notAfterVersion ≠ maxUint64 ∧
        grant.epoch = previous.epoch + 1 ∧
        grant.notBeforeVersion = previous.notAfterVersion + 1

theorem GrantOk.of_guards {grant : KeyGrant} (hkey : ¬grantKey rt grant = none)
    (hzero : ¬(grant.epoch = 0 ∨ grant.notBeforeVersion = 0))
    (hrange : ¬(grant.notAfterVersion ≠ 0 ∧ grant.notAfterVersion < grant.notBeforeVersion)) :
    GrantOk rt grant := by
  rw [not_or] at hzero
  refine ⟨hkey, hzero.1, hzero.2, fun hne => ?_⟩
  rw [← UInt64.not_lt]
  exact fun hlt => hrange ⟨hne, hlt⟩

theorem validateGrants_cons {index : ℕ} {previous : Option KeyGrant} {seen : List Bytes}
    {grant : KeyGrant} {rest : List KeyGrant}
    (h : validateGrants rt index previous seen (grant :: rest) = .ok ()) :
    GrantOk rt grant ∧ grant.keyID ∉ seen ∧ Follows previous grant ∧
      validateGrants rt (index + 1) (some grant) (grant.keyID :: seen) rest = .ok () := by
  cases previous with
  | none =>
      simp only [validateGrants] at h
      split_ifs at h with hkey hseen hzero hrange hfirst
      rw [not_or, not_not, not_not] at hfirst
      exact ⟨.of_guards hkey hzero hrange, hseen, hfirst, h⟩
  | some previous =>
      simp only [validateGrants] at h
      split_ifs at h with hkey hseen hzero hrange hopen hnext
      rw [not_or] at hopen
      rw [not_or, not_not, not_not] at hnext
      exact ⟨.of_guards hkey hzero hrange, hseen, ⟨hopen.1, hopen.2, hnext.1, hnext.2⟩, h⟩

def Linked : Option KeyGrant → List KeyGrant → Prop
  | _, [] => True
  | previous, grant :: rest => Follows previous grant ∧ Linked (some grant) rest

theorem validateGrants_ok {index : ℕ} {previous : Option KeyGrant} {seen : List Bytes}
    {grants : List KeyGrant} (h : validateGrants rt index previous seen grants = .ok ()) :
    (∀ g ∈ grants, GrantOk rt g) ∧ Linked previous grants := by
  induction grants generalizing index previous seen with
  | nil => simp [Linked]
  | cons grant rest ih =>
      obtain ⟨hok, _, hfollows, hrest⟩ := validateGrants_cons h
      obtain ⟨hall, hlinked⟩ := ih hrest
      exact ⟨List.forall_mem_cons.mpr ⟨hok, hall⟩, hfollows, hlinked⟩

theorem nodup_grants {index : ℕ} {previous : Option KeyGrant} {seen : List Bytes}
    {grants : List KeyGrant} (h : validateGrants rt index previous seen grants = .ok ()) :
    (grants.map KeyGrant.keyID).Nodup := by
  refine (nodup_of_fresh (P := fun seen l => ∃ i p, validateGrants rt i p seen l = .ok ()) ?_
    ⟨index, previous, h⟩).1
  rintro seen grant rest ⟨i, p, hp⟩
  obtain ⟨_, hid, _, hrest⟩ := validateGrants_cons hp
  exact ⟨hid, i + 1, some grant, hrest⟩

structure Shape (rt : Runtime) (policy : KeyPolicy) : Prop where
  version : policy.version ≠ 0
  rootKeyID : policy.rootKeyID.length = encodedLen 32
  nonempty : policy.keys ≠ []
  signature : policy.signature ≠ [] → policy.signature.length = encodedLen signatureSize
  grants : ∀ g ∈ policy.keys, GrantOk rt g
  nodup : (policy.keys.map KeyGrant.keyID).Nodup
  linked : Linked none (canonicalKeyGrants rt policy.keys)
  final : ∀ g ∈ (canonicalKeyGrants rt policy.keys).getLast?, g.notAfterVersion = 0

theorem canonicalKeyGrants_perm (grants : List KeyGrant) :
    (canonicalKeyGrants rt grants).Perm grants :=
  rt.sort.perm _ _

@[simp] theorem mem_canonicalKeyGrants {grants : List KeyGrant} {g : KeyGrant} :
    g ∈ canonicalKeyGrants rt grants ↔ g ∈ grants :=
  (canonicalKeyGrants_perm grants).mem_iff

theorem shape_of_ok {policy : KeyPolicy} (h : validateKeyPolicyShape rt policy = .ok ()) :
    Shape rt policy := by
  unfold validateKeyPolicyShape at h
  cases hgrants : validateGrants rt 0 none [] (canonicalKeyGrants rt policy.keys) with
  | error e =>
      simp only [hgrants] at h
      split_ifs at h
  | ok _ =>
      simp only [hgrants] at h
      split_ifs at h with hversion hroot hkeys hsig hfinal
      obtain ⟨hall, hlinked⟩ := validateGrants_ok hgrants
      rw [not_not] at hroot hfinal
      rw [not_or] at hkeys
      refine ⟨hversion, hroot, ?_, ?_, ?_, ?_, hlinked, ?_⟩
      · exact fun hnil => hkeys.1 (by rw [hnil, List.length_nil])
      · intro hne
        by_contra hlen
        exact hsig ⟨hne, hlen⟩
      · exact fun g hg => hall g (mem_canonicalKeyGrants.mpr hg)
      · exact ((canonicalKeyGrants_perm policy.keys).map _).nodup_iff.mp (nodup_grants hgrants)
      · intro g hg
        rw [Option.mem_def] at hg
        simpa [hg] using hfinal

/-! ## The tiling -/

/-- The last version of a grant, where zero stands for the end of the version space. -/
def KeyGrant.last (grant : KeyGrant) : ℕ :=
  if grant.notAfterVersion = 0 then maxUint64.toNat else grant.notAfterVersion.toNat

def KeyGrant.Covers (grant : KeyGrant) (version : UInt64) : Prop :=
  grant.notBeforeVersion ≤ version ∧
    (grant.notAfterVersion = 0 ∨ version ≤ grant.notAfterVersion)

theorem toNat_le_maxUint64 (v : UInt64) : v.toNat ≤ maxUint64.toNat :=
  Nat.le_sub_one_of_lt v.toNat_lt

theorem KeyGrant.covers_iff {grant : KeyGrant} {version : UInt64} :
    grant.Covers version ↔
      grant.notBeforeVersion.toNat ≤ version.toNat ∧ version.toNat ≤ grant.last := by
  unfold KeyGrant.Covers KeyGrant.last
  rw [UInt64.le_iff_toNat_le, UInt64.le_iff_toNat_le]
  by_cases hopen : grant.notAfterVersion = 0
  · simp [hopen, toNat_le_maxUint64]
  · simp [hopen]

theorem toNat_add_one {v : UInt64} (h : v ≠ maxUint64) : (v + 1).toNat = v.toNat + 1 := by
  have hlt := v.toNat_lt
  have hne : v.toNat ≠ maxUint64.toNat := fun he => h (UInt64.toNat_inj.mp he)
  rw [UInt64.toNat_add]
  simp only [maxUint64] at hne
  simp at hne ⊢
  omega

theorem GrantOk.start_le_last {grant : KeyGrant} (h : GrantOk rt grant) :
    grant.notBeforeVersion.toNat ≤ grant.last := by
  unfold KeyGrant.last
  by_cases hopen : grant.notAfterVersion = 0
  · rw [if_pos hopen]
    exact toNat_le_maxUint64 _
  · rw [if_neg hopen]
    exact UInt64.le_iff_toNat_le.mp (h.range hopen)

/-- Linked grants whose last one is open tile the versions from the first one's start. -/
theorem tiles_of_linked {previous : Option KeyGrant} {grant : KeyGrant} {rest : List KeyGrant}
    (hok : ∀ g ∈ grant :: rest, GrantOk rt g) (hlinked : Linked previous (grant :: rest))
    (hfinal : ∀ g ∈ (grant :: rest).getLast?, g.notAfterVersion = 0) :
    Tiles (fun g => g.notBeforeVersion.toNat) KeyGrant.last maxUint64.toNat
      grant.notBeforeVersion.toNat (grant :: rest) := by
  induction rest generalizing previous grant with
  | nil =>
      refine Tiles.last grant (toNat_le_maxUint64 _) ?_
      rw [KeyGrant.last, if_pos (hfinal grant rfl)]
  | cons next rest ih =>
      obtain ⟨hhead, htail⟩ := List.forall_mem_cons.mp hok
      obtain ⟨hopen, hmax, _, hnext⟩ := hlinked.2.1
      refine Tiles.cons grant hhead.start_le_last ?_
      have hstart : grant.last + 1 = next.notBeforeVersion.toNat := by
        rw [hnext, toNat_add_one hmax, KeyGrant.last, if_neg hopen]
      rw [hstart]
      refine ih htail hlinked.2 fun g hg => hfinal g ?_
      rwa [List.getLast?_cons_cons]

/-- The epochs of linked grants increase: the successor of an epoch is never zero. -/
theorem Linked.epoch_lt {previous : KeyGrant} {grants : List KeyGrant}
    (hok : ∀ g ∈ grants, GrantOk rt g) (h : Linked (some previous) grants) :
    ∀ g ∈ grants, previous.epoch < g.epoch := by
  induction grants generalizing previous with
  | nil => simp
  | cons grant rest ih =>
      obtain ⟨hhead, htail⟩ := List.forall_mem_cons.mp hok
      obtain ⟨⟨_, _, hepoch, _⟩, hrest⟩ := h
      have hlt : previous.epoch < grant.epoch := by
        have hne : previous.epoch ≠ maxUint64 := by
          rintro he
          exact hhead.epoch (by rw [hepoch, he]; rfl)
        rw [UInt64.lt_iff_toNat_lt, hepoch, toNat_add_one hne]
        exact Nat.lt_succ_self _
      refine List.forall_mem_cons.mpr ⟨hlt, fun g hg => ?_⟩
      exact UInt64.lt_trans hlt (ih htail hrest g hg)

theorem Linked.pairwise_epoch {previous : Option KeyGrant} {grants : List KeyGrant}
    (hok : ∀ g ∈ grants, GrantOk rt g) (h : Linked previous grants) :
    grants.Pairwise fun g g' => g.epoch < g'.epoch := by
  induction grants generalizing previous with
  | nil => exact List.Pairwise.nil
  | cons grant rest ih =>
      obtain ⟨_, htail⟩ := List.forall_mem_cons.mp hok
      exact List.Pairwise.cons (h.2.epoch_lt htail) (ih htail h.2)

theorem KeyGrant.range_iff_not_covers {grant : KeyGrant} {v : UInt64} :
    (v < grant.notBeforeVersion ∨ (grant.notAfterVersion ≠ 0 ∧ grant.notAfterVersion < v)) ↔
      ¬grant.Covers v := by
  rw [KeyGrant.Covers, not_and_or, not_or, UInt64.not_le, UInt64.not_le]

theorem grantKey_eq_some {grant : KeyGrant} {raw : Bytes} :
    grantKey rt grant = some raw ↔
      decodeString grant.publicKey = some raw ∧ raw.length = publicKeySize ∧
        keyID rt raw = grant.keyID := by
  unfold grantKey
  cases hdecode : decodeString grant.publicKey with
  | none => simp
  | some key =>
      simp only [Option.some.injEq]
      by_cases hkey : key.length = publicKeySize ∧ keyID rt key = grant.keyID
      · rw [if_pos hkey, Option.some.injEq]
        exact ⟨fun he => ⟨he, he ▸ hkey⟩, fun he => he.1⟩
      · rw [if_neg hkey]
        refine iff_of_false nofun ?_
        rintro ⟨rfl, hraw⟩
        exact hkey hraw

/-- What a successful lookup has read. -/
theorem keyPolicyGrant_eq_ok {policy : KeyPolicy} {k : Bytes} {v : UInt64} {g : KeyGrant}
    {raw : Bytes} :
    keyPolicyGrant policy k v = .ok (g, raw) ↔
      policy.keys.find? (fun grant => grant.keyID = k) = some g ∧ g.Covers v ∧
        decodeString g.publicKey = some raw ∧ raw.length = publicKeySize := by
  unfold keyPolicyGrant
  cases policy.keys.find? (fun grant => grant.keyID = k) with
  | none => simp
  | some grant =>
      simp only
      by_cases hc : grant.Covers v
      · rw [if_neg fun hr => KeyGrant.range_iff_not_covers.mp hr hc]
        cases hdecode : decodeString grant.publicKey with
        | none => grind
        | some key =>
            by_cases hlen : key.length = publicKeySize
            · simp only [hlen, ne_eq, not_true_eq_false, if_false]
              grind
            · simp only [hlen, ne_eq, not_false_eq_true, if_true]
              grind
      · rw [if_pos (KeyGrant.range_iff_not_covers.mpr hc)]
        grind

def Authorized (policy : KeyPolicy) (k : Bytes) (v : UInt64) : Prop :=
  ∃ r, keyPolicyGrant policy k v = .ok r

namespace Shape

variable {policy : KeyPolicy}

theorem eq_of_keyID (h : Shape rt policy) {g g' : KeyGrant} (hg : g ∈ policy.keys)
    (hg' : g' ∈ policy.keys) (he : g.keyID = g'.keyID) : g = g' :=
  List.inj_on_of_nodup_map h.nodup hg hg' he

theorem tiles (h : Shape rt policy) :
    Tiles (fun g => g.notBeforeVersion.toNat) KeyGrant.last maxUint64.toNat 1
      (canonicalKeyGrants rt policy.keys) := by
  have hok : ∀ g ∈ canonicalKeyGrants rt policy.keys, GrantOk rt g :=
    fun g hg => h.grants g (mem_canonicalKeyGrants.mp hg)
  have hlinked := h.linked
  have hfinal := h.final
  cases hgrants : canonicalKeyGrants rt policy.keys with
  | nil =>
      refine absurd (List.Perm.nil_eq ?_).symm h.nonempty
      exact hgrants ▸ canonicalKeyGrants_perm policy.keys
  | cons first rest =>
      rw [hgrants] at hok hlinked hfinal
      have htiles := tiles_of_linked hok hlinked hfinal
      rwa [hlinked.1.2] at htiles

/-- Two grants are the same or lie one after the other, in versions and in epochs. -/
theorem ordered (h : Shape rt policy) {g g' : KeyGrant} (hg : g ∈ policy.keys)
    (hg' : g' ∈ policy.keys) :
    g = g' ∨ (g.last < g'.notBeforeVersion.toNat ∧ g.epoch < g'.epoch) ∨
      (g'.last < g.notBeforeVersion.toNat ∧ g'.epoch < g.epoch) := by
  have hok : ∀ g ∈ canonicalKeyGrants rt policy.keys, GrantOk rt g :=
    fun g hg => h.grants g (mem_canonicalKeyGrants.mp hg)
  exact pairwise_cases (h.tiles.pairwise_lt.and (h.linked.pairwise_epoch hok))
    (mem_canonicalKeyGrants.mpr hg) (mem_canonicalKeyGrants.mpr hg')

theorem exists_covers (h : Shape rt policy) {v : UInt64} (hv : v ≠ 0) :
    ∃ g ∈ policy.keys, g.Covers v := by
  have hpos : 1 ≤ v.toNat := Nat.one_le_iff_ne_zero.mpr fun h0 => hv (UInt64.toNat_inj.mp h0)
  obtain ⟨g, hg, hcov⟩ := h.tiles.exists_mem hpos (toNat_le_maxUint64 v)
  exact ⟨g, mem_canonicalKeyGrants.mp hg, KeyGrant.covers_iff.mpr hcov⟩

theorem covers_unique (h : Shape rt policy) {g g' : KeyGrant} (hg : g ∈ policy.keys)
    (hg' : g' ∈ policy.keys) {v : UInt64} (hc : g.Covers v) (hc' : g'.Covers v) : g = g' := by
  rw [KeyGrant.covers_iff] at hc hc'
  rcases h.ordered hg hg' with he | ⟨hlt, _⟩ | ⟨hlt, _⟩
  · exact he
  · omega
  · omega

/-- Later versions belong to later epochs, or to the same grant. -/
theorem epoch_mono (h : Shape rt policy) {g g' : KeyGrant} (hg : g ∈ policy.keys)
    (hg' : g' ∈ policy.keys) {v w : UInt64} (hc : g.Covers v) (hc' : g'.Covers w) (hle : v ≤ w) :
    g = g' ∨ g.epoch < g'.epoch := by
  rw [KeyGrant.covers_iff] at hc hc'
  rw [UInt64.le_iff_toNat_le] at hle
  rcases h.ordered hg hg' with he | ⟨_, hlt⟩ | ⟨hlt, _⟩
  · exact Or.inl he
  · exact Or.inr hlt
  · omega

theorem not_covers_zero (h : Shape rt policy) {g : KeyGrant} (hg : g ∈ policy.keys) :
    ¬g.Covers 0 := by
  intro hc
  refine (h.grants g hg).start (UInt64.toNat_inj.mp ?_)
  exact Nat.le_zero.mp (KeyGrant.covers_iff.mp hc).1

theorem find_eq_some (h : Shape rt policy) {k : Bytes} {g : KeyGrant} :
    policy.keys.find? (fun grant => grant.keyID = k) = some g ↔ g ∈ policy.keys ∧ g.keyID = k := by
  constructor
  · intro hfind
    exact ⟨List.mem_of_find?_eq_some hfind, by simpa using List.find?_some hfind⟩
  · rintro ⟨hg, rfl⟩
    cases hfind : policy.keys.find? (fun grant => grant.keyID = g.keyID) with
    | none => simpa using List.find?_eq_none.mp hfind g hg
    | some g' =>
        have he : g'.keyID = g.keyID := by simpa using List.find?_some hfind
        rw [h.eq_of_keyID (List.mem_of_find?_eq_some hfind) hg he]

theorem grant_eq_ok (h : Shape rt policy) {k : Bytes} {v : UInt64} {g : KeyGrant} {raw : Bytes} :
    keyPolicyGrant policy k v = .ok (g, raw) ↔
      g ∈ policy.keys ∧ g.keyID = k ∧ g.Covers v ∧ grantKey rt g = some raw := by
  rw [keyPolicyGrant_eq_ok, h.find_eq_some]
  constructor
  · rintro ⟨⟨hg, hk⟩, hc, hdecode, hlen⟩
    obtain ⟨key, hkey⟩ := Option.ne_none_iff_exists'.mp (h.grants g hg).key
    have hraw := (grantKey_eq_some.mp hkey).1
    rw [hdecode, Option.some.injEq] at hraw
    exact ⟨hg, hk, hc, hraw ▸ hkey⟩
  · rintro ⟨hg, hk, hc, hkey⟩
    obtain ⟨hdecode, hlen, _⟩ := grantKey_eq_some.mp hkey
    exact ⟨⟨hg, hk⟩, hc, hdecode, hlen⟩

theorem authorized_iff (h : Shape rt policy) {k : Bytes} {v : UInt64} :
    Authorized policy k v ↔ ∃ g ∈ policy.keys, g.keyID = k ∧ g.Covers v := by
  constructor
  · rintro ⟨⟨g, raw⟩, hok⟩
    obtain ⟨hg, hk, hc, _⟩ := h.grant_eq_ok.mp hok
    exact ⟨g, hg, hk, hc⟩
  · rintro ⟨g, hg, hk, hc⟩
    obtain ⟨raw, hraw⟩ := Option.ne_none_iff_exists'.mp (h.grants g hg).key
    exact ⟨(g, raw), h.grant_eq_ok.mpr ⟨hg, hk, hc, hraw⟩⟩

theorem existsUnique_authorized (h : Shape rt policy) {v : UInt64} (hv : v ≠ 0) :
    ∃! k, Authorized policy k v := by
  obtain ⟨g, hg, hc⟩ := h.exists_covers hv
  refine ⟨g.keyID, h.authorized_iff.mpr ⟨g, hg, rfl, hc⟩, fun k hk => ?_⟩
  obtain ⟨g', hg', rfl, hc'⟩ := h.authorized_iff.mp hk
  rw [h.covers_unique hg hg' hc hc']

theorem find_perm (h : Shape rt policy) {keys : List KeyGrant} (hp : keys.Perm policy.keys)
    (k : Bytes) :
    keys.find? (fun grant => grant.keyID = k) =
      policy.keys.find? (fun grant => grant.keyID = k) := by
  cases hfind : keys.find? (fun grant => grant.keyID = k) with
  | none =>
      refine (List.find?_eq_none.mpr fun g hg => ?_).symm
      exact List.find?_eq_none.mp hfind g (hp.mem_iff.mpr hg)
  | some g =>
      refine (h.find_eq_some.mpr ⟨hp.mem_iff.mp (List.mem_of_find?_eq_some hfind), ?_⟩).symm
      simpa using List.find?_some hfind

theorem grant_perm (h : Shape rt policy) {keys : List KeyGrant} (hp : keys.Perm policy.keys)
    (k : Bytes) (v : UInt64) :
    keyPolicyGrant { policy with keys := keys } k v = keyPolicyGrant policy k v := by
  rw [keyPolicyGrant, keyPolicyGrant, h.find_perm hp]

theorem grant_canonical (h : Shape rt policy) (k : Bytes) (v : UInt64) :
    keyPolicyGrant (canonicalKeyPolicy rt policy) k v = keyPolicyGrant policy k v :=
  h.grant_perm (canonicalKeyGrants_perm policy.keys) k v

theorem canonicalKeyGrants_perm_eq (h : Shape rt policy) {keys : List KeyGrant}
    (hp : keys.Perm policy.keys) :
    canonicalKeyGrants rt keys = canonicalKeyGrants rt policy.keys := by
  refine (rt.sort.run_eq_of_perm (strictWeak_lessBy _ _) (separates_lessBy ?_) hp.symm).symm
  exact fun g hg g' hg' he => h.eq_of_keyID hg hg' he

end Shape

/-- The shape check reads the grants in canonical order only. -/
theorem validateKeyPolicyShape_congr {policy : KeyPolicy} {keys : List KeyGrant}
    (hlen : keys.length = policy.keys.length)
    (he : canonicalKeyGrants rt keys = canonicalKeyGrants rt policy.keys) :
    validateKeyPolicyShape rt { policy with keys := keys } = validateKeyPolicyShape rt policy := by
  unfold validateKeyPolicyShape
  simp only [he, hlen]

/-- A policy that passes the shape check gives every positive version to exactly one key and version
zero to none. The order of its grants plays no part, and the epoch grows with the version, staying
the same exactly as long as the key does. -/
theorem keyPolicy_partition {policy : KeyPolicy} (h : validateKeyPolicyShape rt policy = .ok ()) :
    (∀ v, v ≠ 0 → ∃! k, Authorized policy k v) ∧
      (∀ k, ¬Authorized policy k 0) ∧
      (∀ keys, keys.Perm policy.keys →
        validateKeyPolicyShape rt { policy with keys := keys } = .ok () ∧
          ∀ k v, keyPolicyGrant { policy with keys := keys } k v = keyPolicyGrant policy k v) ∧
      (∀ v w k k' g g' raw raw', v ≤ w → keyPolicyGrant policy k v = .ok (g, raw) →
        keyPolicyGrant policy k' w = .ok (g', raw') →
          g.epoch ≤ g'.epoch ∧ (g.epoch = g'.epoch ↔ k = k')) := by
  have hs := shape_of_ok h
  refine ⟨fun v hv => hs.existsUnique_authorized hv, fun k hk => ?_,
    fun keys hp => ⟨?_, hs.grant_perm hp⟩, ?_⟩
  · obtain ⟨g, hg, _, hc⟩ := hs.authorized_iff.mp hk
    exact hs.not_covers_zero hg hc
  · rw [validateKeyPolicyShape_congr hp.length_eq (hs.canonicalKeyGrants_perm_eq hp), h]
  · intro v w k k' g g' raw raw' hle hv hw
    obtain ⟨hg, rfl, hc, _⟩ := hs.grant_eq_ok.mp hv
    obtain ⟨hg', rfl, hc', _⟩ := hs.grant_eq_ok.mp hw
    rcases hs.epoch_mono hg hg' hc hc' hle with rfl | hlt
    · exact ⟨UInt64.le_refl _, iff_of_true rfl rfl⟩
    · refine ⟨UInt64.le_of_lt hlt, iff_of_false (fun he => ?_) fun he => ?_⟩
      · exact absurd hlt (he ▸ UInt64.lt_irrefl _)
      · exact absurd hlt (hs.eq_of_keyID hg hg' he ▸ UInt64.lt_irrefl _)

namespace Sample

def root : Bytes := List.replicate 32 9

def grant (seed : UInt8) (epoch notBeforeVersion notAfterVersion : UInt64) : KeyGrant :=
  ⟨keyID .toy (List.replicate 32 seed), encodeToString (List.replicate 32 seed), epoch,
    notBeforeVersion, notAfterVersion⟩

def signed (version : UInt64) (grants : List KeyGrant) : KeyPolicy :=
  let policy : KeyPolicy := ⟨version, keyID .toy root, grants, []⟩
  { policy with
    signature := encodeToString
      (Runtime.toy.sign (root ++ root) (keyPolicySigningBytes .toy policy)).toList }

def rotated : KeyPolicy := signed 2 [grant 2 2 6 0, grant 1 1 1 5]

end Sample

theorem keyPolicy_partition_rotated :
    validateKeyPolicyShape .toy Sample.rotated = .ok () ∧
      ∃! k, Authorized Sample.rotated k 6 := by
  have h : validateKeyPolicyShape .toy Sample.rotated = .ok () := by decide +kernel
  exact ⟨h, (keyPolicy_partition h).1 6 (by decide)⟩

end CloudHelp.Manifest
