import CloudHelp.IssuerSafety

/-!
# Rotating the signing key

A rotation as the runbook prescribes it: the next policy keeps the closed grants, closes the open
one at a version `C` and appends a fresh key from `C + 1` on. Up to `C` the two policies grant the
same, after it only the fresh key signs (`Rotates.authorized_iff`). Over a state that fits the
policies loaded so far, `NewIssuer` accepts exactly the key that the policy grants the next
version (`Rotation.accepts_iff`).
-/

namespace CloudHelp

open Manifest Issuance

variable {rt : Runtime}

namespace Manifest

def KeyGrant.closeAt (cut : UInt64) (grant : KeyGrant) : KeyGrant :=
  if grant.notAfterVersion = 0 then { grant with notAfterVersion := cut } else grant

structure Rotates (P Q : KeyPolicy) (cut : UInt64) (fresh : KeyGrant) : Prop where
  version : P.version < Q.version
  keys : Q.keys.Perm (P.keys.map (KeyGrant.closeAt cut) ++ [fresh])
  freshKey : ∀ g ∈ P.keys, g.keyID ≠ fresh.keyID
  freshEpoch : ∀ g ∈ P.keys, g.notAfterVersion = 0 → fresh.epoch = g.epoch + 1
  freshStart : fresh.notBeforeVersion = cut + 1
  freshOpen : fresh.notAfterVersion = 0

/-- Closing a grant leaves its key and epoch as they are. -/
theorem KeyGrant.closeAt_eq (rt : Runtime) (cut : UInt64) (g : KeyGrant) :
    (g.closeAt cut).keyID = g.keyID ∧ (g.closeAt cut).epoch = g.epoch ∧
      grantKey rt (g.closeAt cut) = grantKey rt g := by
  unfold KeyGrant.closeAt
  by_cases hopen : g.notAfterVersion = 0
  · rw [if_pos hopen]
    exact ⟨rfl, rfl, rfl⟩
  · rw [if_neg hopen]
    exact ⟨rfl, rfl, rfl⟩

theorem KeyGrant.Covers.closeAt {cut v : UInt64} {g : KeyGrant} (h : g.Covers v) (hv : v ≤ cut) :
    (g.closeAt cut).Covers v := by
  unfold KeyGrant.closeAt
  by_cases hopen : g.notAfterVersion = 0
  · rw [if_pos hopen]
    exact ⟨h.1, Or.inr hv⟩
  · rw [if_neg hopen]
    exact h

namespace Rotates

variable {P Q : KeyPolicy} {cut : UInt64} {fresh : KeyGrant}

/-- Up to the cut every grant stands. -/
theorem grant (h : Rotates P Q cut fresh) (hP : Shape rt P) (hQ : Shape rt Q) {k : Bytes}
    {v : UInt64} (hv : v ≤ cut) {g : KeyGrant} {raw : Bytes}
    (hg : keyPolicyGrant P k v = .ok (g, raw)) :
    keyPolicyGrant Q k v = .ok (g.closeAt cut, raw) := by
  obtain ⟨hmem, hid, hcovers, hkey⟩ := hP.grant_eq_ok.mp hg
  obtain ⟨hid', _, hkey'⟩ := g.closeAt_eq rt cut
  refine hQ.grant_eq_ok.mpr ⟨?_, hid'.trans hid, hcovers.closeAt hv, hkey'.trans hkey⟩
  exact h.keys.mem_iff.mpr (List.mem_append_left _ (List.mem_map_of_mem hmem))

theorem fresh_covers (h : Rotates P Q cut fresh) {v : UInt64} (hv : cut < v) : fresh.Covers v := by
  have hmax : cut ≠ maxUint64 := by
    rintro rfl
    exact absurd (UInt64.lt_iff_toNat_lt.mp hv) (toNat_le_maxUint64 v).not_gt
  refine ⟨?_, Or.inl h.freshOpen⟩
  rw [h.freshStart, UInt64.le_iff_toNat_le, toNat_add_one hmax]
  exact UInt64.lt_iff_toNat_lt.mp hv

/-- The cut-over is at the version after the cut, and nowhere else. -/
theorem authorized_iff (h : Rotates P Q cut fresh) (hP : Shape rt P) (hQ : Shape rt Q) (k : Bytes)
    (v : UInt64) :
    (v ≤ cut → (Authorized Q k v ↔ Authorized P k v)) ∧
      (cut < v → (Authorized Q k v ↔ k = fresh.keyID)) := by
  have hkeep : v ≤ cut → ∀ k, Authorized P k v → Authorized Q k v := by
    rintro hv k ⟨⟨g, raw⟩, hg⟩
    exact ⟨_, h.grant hP hQ hv hg⟩
  have hunique : ∀ k k', Authorized Q k v → Authorized Q k' v → k = k' := by
    intro k k' hk hk'
    obtain ⟨g, hg, rfl, hc⟩ := hQ.authorized_iff.mp hk
    obtain ⟨g', hg', rfl, hc'⟩ := hQ.authorized_iff.mp hk'
    rw [hQ.covers_unique hg hg' hc hc']
  refine ⟨fun hv => ⟨fun hk => ?_, hkeep hv k⟩, fun hv => ?_⟩
  · have hzero : v ≠ 0 := by
      rintro rfl
      obtain ⟨g, hg, _, hc⟩ := hQ.authorized_iff.mp hk
      exact hQ.not_covers_zero hg hc
    obtain ⟨k', hk', _⟩ := hP.existsUnique_authorized hzero
    rwa [hunique k k' hk (hkeep hv k' hk')]
  · have hfresh : Authorized Q fresh.keyID v :=
      hQ.authorized_iff.mpr ⟨fresh, h.keys.mem_iff.mpr (List.mem_append_right _ List.mem_cons_self),
        rfl, h.fresh_covers hv⟩
    exact ⟨fun hk => hunique k _ hk hfresh, fun hk => hk ▸ hfresh⟩

end Rotates

end Manifest

namespace Service

structure Rotation (rt : Runtime) where
  root : Bytes
  count : ℕ
  policy : ℕ → KeyPolicy
  cut : ℕ → UInt64
  fresh : ℕ → KeyGrant
  valid : ∀ i < count, ∃ digest, validateKeyPolicy rt (policy i) root = .ok digest
  rotates : ∀ i, i + 1 < count → Rotates (policy i) (policy (i + 1)) (cut i) (fresh i)

namespace Rotation

variable (r : Rotation rt)

theorem shape {i : ℕ} (hi : i < r.count) : Shape rt (r.policy i) := by
  obtain ⟨digest, hvalid⟩ := r.valid i hi
  obtain ⟨⟨signature, hsigned⟩, _⟩ := validateKeyPolicy_eq_ok.mp hvalid
  exact shape_of_ok hsigned.shape

theorem version_lt {i j : ℕ} (hij : i < j) (hj : j < r.count) :
    (r.policy i).version < (r.policy j).version := by
  induction j, hij using Nat.le_induction with
  | base => exact (r.rotates i hj).version
  | succ j hij ih =>
      exact UInt64.lt_trans (ih (by omega)) (r.rotates j hj).version

/-- The state was recorded under one of the policies up to the given one, which still grants the
recorded key the recorded version in the recorded epoch. -/
def Fits (k : ℕ) (state : State) : Prop :=
  (∃ i ≤ k, state.policyVersion = (r.policy i).version ∧
    state.policySHA256 = rt.digest (canonicalPolicyText rt (r.policy i))) ∧
  ∃ g raw, keyPolicyGrant (r.policy k) state.keyID state.lastVersion = .ok (g, raw) ∧
    g.epoch = state.keyEpoch

variable {r} {k : ℕ} {state : State}

theorem Fits.policyVersion_ne_zero (h : r.Fits k state) (hk : k < r.count) :
    state.policyVersion ≠ 0 := by
  obtain ⟨⟨i, hi, hversion, _⟩, _⟩ := h
  rw [hversion]
  exact (r.shape (by omega)).version

/-- The next policy fits too, if it is cut at the recorded version or after. -/
theorem Fits.advance (h : r.Fits k state) (hk : k + 1 < r.count)
    (hcut : state.lastVersion ≤ r.cut k) :
    r.Fits (k + 1) state := by
  obtain ⟨⟨i, hi, hpolicy⟩, g, raw, hgrant, hepoch⟩ := h
  refine ⟨⟨i, by omega, hpolicy⟩, g.closeAt (r.cut k), raw, ?_, ?_⟩
  · exact (r.rotates k hk).grant (r.shape (by omega)) (r.shape hk) hcut hgrant
  · exact (g.closeAt_eq rt (r.cut k)).2.1.trans hepoch

variable {options : IssuerOptions} {policyDigest : Bytes}

/-- Over a state that fits, all the checks of `NewIssuer` come down to the grant. -/
theorem accepts_iff (hk : k < r.count) (h : r.Fits k state) (hlast : state.lastVersion ≠ maxUint64)
    (hpolicy : options.keyPolicy = r.policy k)
    (hoptions : checkOptions rt options = .ok policyDigest) (save : State → Except Error Unit) :
    (∃ issuer, newIssuer rt options (.ok ()) (.ok (some state)) save = .ok issuer) ↔
      Authorized (r.policy k) (keyID rt (publicKey options.privateKey))
        (state.lastVersion + 1) := by
  rw [newIssuer_of_complete hoptions (h.policyVersion_ne_zero hk)]
  constructor
  · rintro ⟨issuer, hissuer⟩
    obtain ⟨grant, ⟨⟨next, raw, hnext, hgrant⟩, _⟩, _⟩ := startIssuer_eq_ok.mp hissuer
    obtain ⟨_, _, _, rfl⟩ := nextVersion_some.mp hnext
    exact ⟨_, hpolicy ▸ hgrant⟩
  · rintro ⟨⟨grant, raw⟩, hgrant⟩
    obtain ⟨⟨i, hi, hversion, hsha⟩, g, raw', hgranted, hepoch⟩ := h
    have hdigest : policyDigest = rt.digest (canonicalPolicyText rt (r.policy k)) := by
      rw [← hpolicy]
      exact (validateKeyPolicy_eq_ok.mp (checkOptions_eq_ok.mp hoptions).2.1).2.symm
    refine ⟨_, startIssuer_eq_ok.mpr ⟨grant, ⟨⟨state.lastVersion + 1, raw, ?_, ?_⟩, ?_⟩, rfl⟩⟩
    · -- a policy of the same version is the same policy
      rw [nextVersion_some, hpolicy, hversion]
      rcases Nat.lt_or_eq_of_le hi with hlt | rfl
      · have hless := r.version_lt hlt hk
        refine ⟨hlast, UInt64.le_of_lt hless, fun he => ?_, rfl⟩
        exact absurd hless (he ▸ UInt64.lt_irrefl _)
      · refine ⟨hlast, UInt64.le_refl _, fun _ => ⟨hdigest.trans hsha.symm, ?_⟩, rfl⟩
        rw [consistent, hpolicy, hgranted]
        exact beq_iff_eq.mpr hepoch
    · rw [hpolicy]
      exact hgrant
    · -- the grant of the next version is the recorded one or of a later epoch
      obtain ⟨hg, hid, hc, _⟩ := (r.shape hk).grant_eq_ok.mp hgranted
      obtain ⟨hg', hid', hc', _⟩ := (r.shape hk).grant_eq_ok.mp hgrant
      have hle : state.lastVersion ≤ state.lastVersion + 1 := by
        rw [UInt64.le_iff_toNat_le, toNat_add_one hlast]
        exact Nat.le_succ _
      rw [checkKey_some, ← hid, ← hid', ← hepoch]
      rcases (r.shape hk).epoch_mono hg hg' hc hc' hle with rfl | hlt
      · exact ⟨fun _ => rfl, fun hne => absurd rfl hne⟩
      · refine ⟨fun he => ?_, fun _ => hlt⟩
        exact absurd hlt ((r.shape hk).eq_of_keyID hg hg' he ▸ UInt64.lt_irrefl _)

theorem accepts_none_iff (hpolicy : options.keyPolicy = r.policy k)
    (hoptions : checkOptions rt options = .ok policyDigest) (save : State → Except Error Unit) :
    (∃ issuer, newIssuer rt options (.ok ()) (.ok none) save = .ok issuer) ↔
      Authorized (r.policy k) (keyID rt (publicKey options.privateKey)) 1 := by
  have hnew : newIssuer rt options (.ok ()) (.ok none) save =
      startIssuer rt options policyDigest none := by
    simp only [newIssuer, hoptions, migrate]
  rw [hnew, ← hpolicy]
  constructor
  · rintro ⟨issuer, hissuer⟩
    obtain ⟨grant, ⟨⟨next, raw, hnext, hgrant⟩, _⟩, _⟩ := startIssuer_eq_ok.mp hissuer
    obtain rfl : 1 = next := Except.ok.inj hnext
    exact ⟨_, hgrant⟩
  · rintro ⟨⟨grant, raw⟩, hgrant⟩
    exact ⟨_, startIssuer_eq_ok.mpr ⟨grant, ⟨⟨1, raw, rfl, hgrant⟩, rfl⟩, rfl⟩⟩

end Rotation

end Service

end CloudHelp
