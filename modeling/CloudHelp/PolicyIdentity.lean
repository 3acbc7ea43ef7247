import CloudHelp.KeyPolicyPartition

/-!
# What a policy digest identifies

The texts of a policy that a root key has signed are all base64, so the canonical JSON under its
digest determines the canonical policy. That JSON carries the signature as it is spelt, next to
what the root signed: it is the same for two policies exactly if they have the same signing bytes
and the same spelling of the signature.
-/

namespace CloudHelp.Manifest

open Base64Url

variable {rt : Runtime} {P Q : KeyPolicy} {root root' s s' : Bytes}

theorem utf8_of_decodeString {t raw : Bytes} (h : decodeString t = some raw) :
    Utf8.validString t = true :=
  Utf8.validString_of_ascii (toNat_lt_of_decodeString h)

theorem utf8_digest (t : Bytes) : Utf8.validString (rt.digest t) = true :=
  utf8_of_decodeString (rt.decodeString_digest t)

theorem GrantOk.utf8 {g : KeyGrant} (h : GrantOk rt g) : g.Utf8 := by
  obtain ⟨raw, hraw⟩ := Option.ne_none_iff_exists'.mp h.key
  obtain ⟨hdecode, _, hid⟩ := grantKey_eq_some.mp hraw
  exact ⟨hid ▸ utf8_digest raw, utf8_of_decodeString hdecode⟩

theorem SignedBy.utf8 (h : SignedBy rt P root s) : P.Utf8 := by
  refine ⟨?_, fun g hg => ((shape_of_ok h.shape).grants g hg).utf8, utf8_of_decodeString h.decode⟩
  rw [h.rootKeyID]
  exact utf8_digest root

theorem SignedBy.canonical_utf8 (h : SignedBy rt P root s) : (canonicalKeyPolicy rt P).Utf8 :=
  ⟨h.utf8.1, fun g hg => h.utf8.2.1 g (mem_canonicalKeyGrants.mp hg), h.utf8.2.2⟩

/-- The text under the digest determines the canonical policy. -/
theorem canonicalKeyPolicy_eq_of_text (hP : SignedBy rt P root s) (hQ : SignedBy rt Q root' s')
    (h : canonicalPolicyText rt P = canonicalPolicyText rt Q) :
    canonicalKeyPolicy rt P = canonicalKeyPolicy rt Q :=
  KeyPolicy.toJson_injOn _ _ hP.canonical_utf8 hQ.canonical_utf8
    (Json.encode_injOn (KeyPolicy.wellFormed_toJson _) (KeyPolicy.wellFormed_toJson _) h)

/-- A policy in canonical order passes the same check with the same digest. -/
theorem validateKeyPolicy_canonical {digest : Bytes}
    (h : validateKeyPolicy rt P root = .ok digest) :
    validateKeyPolicy rt (canonicalKeyPolicy rt P) root = .ok digest := by
  obtain ⟨⟨signature, hs⟩, rfl⟩ := validateKeyPolicy_eq_ok.mp h
  have hshape := shape_of_ok hs.shape
  have hkeys : canonicalKeyGrants rt (canonicalKeyGrants rt P.keys) =
      canonicalKeyGrants rt P.keys :=
    hshape.canonicalKeyGrants_perm_eq (canonicalKeyGrants_perm P.keys)
  have hsigning : keyPolicySigningBytes rt (canonicalKeyPolicy rt P) =
      keyPolicySigningBytes rt P := by
    unfold keyPolicySigningBytes canonicalKeyPolicy
    rw [hkeys]
  refine validateKeyPolicy_eq_ok.mpr ⟨⟨signature, ⟨hs.root, ?_, hs.rootKeyID, hs.decode, hs.size,
    ?_⟩⟩, ?_⟩
  · exact (validateKeyPolicyShape_congr (canonicalKeyGrants_perm P.keys).length_eq
      hkeys).trans hs.shape
  · rw [hsigning]
    exact hs.verify
  · unfold canonicalPolicyText canonicalKeyPolicy
    rw [hkeys]

theorem wellFormed_signingJson (P : KeyPolicy) :
    (Json.obj [(str "context", jsonString keyPolicyContext),
      (str "version", .num P.version.toNat), (str "root_key_id", jsonString P.rootKeyID),
      (str "keys", .arr ((canonicalKeyGrants rt P.keys).map KeyGrant.toJson))]).wellFormed =
        true := by
  simp only [Json.wellFormed, wellFormedMembers_cons, wellFormed_jsonString,
    Json.wellFormedItems_map KeyGrant.wellFormed_toJson]
  rfl

theorem signingBytes_eq_iff (hP : SignedBy rt P root s) (hQ : SignedBy rt Q root' s') :
    keyPolicySigningBytes rt P = keyPolicySigningBytes rt Q ↔
      P.version = Q.version ∧ P.rootKeyID = Q.rootKeyID ∧
        canonicalKeyGrants rt P.keys = canonicalKeyGrants rt Q.keys := by
  constructor
  · intro h
    have hjson := Json.encode_injOn (wellFormed_signingJson P) (wellFormed_signingJson Q) h
    simp only [Json.obj.injEq, List.cons.injEq, Prod.mk.injEq, true_and, and_true, Json.num.injEq,
      Nat.cast_inj, UInt64.toNat_inj, Json.arr.injEq] at hjson
    obtain ⟨hversion, hroot, hkeys⟩ := hjson
    exact ⟨hversion, jsonString_injOn hP.utf8.1 hQ.utf8.1 hroot,
      map_injOn KeyGrant.toJson_injOn hP.canonical_utf8.2.1 hQ.canonical_utf8.2.1 hkeys⟩
  · rintro ⟨hversion, hroot, hkeys⟩
    rw [keyPolicySigningBytes, keyPolicySigningBytes, hversion, hroot, hkeys]

theorem canonicalPolicyText_eq_iff (hP : SignedBy rt P root s) (hQ : SignedBy rt Q root' s') :
    canonicalPolicyText rt P = canonicalPolicyText rt Q ↔
      keyPolicySigningBytes rt P = keyPolicySigningBytes rt Q ∧ P.signature = Q.signature := by
  rw [signingBytes_eq_iff hP hQ]
  constructor
  · intro h
    have hpolicy := canonicalKeyPolicy_eq_of_text hP hQ h
    simp only [canonicalKeyPolicy, KeyPolicy.mk.injEq] at hpolicy
    obtain ⟨hversion, hroot, hkeys, hsignature⟩ := hpolicy
    exact ⟨⟨hversion, hroot, hkeys⟩, hsignature⟩
  · rintro ⟨⟨hversion, hroot, hkeys⟩, hsignature⟩
    rw [canonicalPolicyText, canonicalPolicyText, canonicalKeyPolicy, canonicalKeyPolicy, hversion,
      hroot, hkeys, hsignature]

end CloudHelp.Manifest
