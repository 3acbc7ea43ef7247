import CloudHelp.ManifestDecoding

/-!
# What the program reads it can write, and the other way around

`catalog.LoadFile`, and the statements about all the texts of the program together. Every text
that one part writes for another is read back as it was meant. Every text that is accepted,
whoever wrote it and however its members are spelled, ordered or repeated, stands for a value that
can be written again, a state with a time zone of a day or more apart. The policy file is followed
further: what the offline tool signs and writes is what the control plane issues under.
-/

namespace CloudHelp

namespace Manifest

variable (rt : Runtime)

/-! ## The catalog's file -/

def maxCatalogBytes : ℕ := 1024 * 1024

def ensureEOF (rest : Bytes) : Except Error Unit :=
  match rt.decodeAny rest with
  | .eof => .ok ()
  | .error e => .error (.wrap "decode trailing catalog data: %w" [] e)
  | .value => .error (.new "catalog contains multiple JSON values")

/-- `LoadFile`; `file` is what `os.Open` gives. -/
def loadFile (decodeCatalog : Bytes → Except Error (Catalog × Bytes)) (file : Except Error Reader) :
    Except Error Catalog :=
  match file with
  | .error e => .error (.wrap "open catalog: %w" [] e)
  | .ok reader =>
      match reader.readAll (maxCatalogBytes + 1) with
      | .error e => .error (.wrap "read catalog: %w" [] e)
      | .ok data =>
          if maxCatalogBytes < data.length then .error (.new "catalog exceeds 1 MiB")
          else match decodeCatalog data with
            | .error e => .error (.wrap "decode catalog: %w" [] e)
            | .ok (result, rest) =>
                match ensureEOF rt rest with
                | .error e => .error e
                | .ok () => .ok result

variable {rt} {refusal : Bytes → Error}

/-- The loader accepts what a strict decoding of the same bytes accepts. -/
theorem loadFile_eq_ok {decodeCatalog : Bytes → Except Error (Catalog × Bytes)}
    {file : Except Error Reader} {catalog : Catalog} :
    loadFile rt decodeCatalog file = .ok catalog ↔
      ∃ reader data, file = .ok reader ∧ reader.readAll (maxCatalogBytes + 1) = .ok data ∧
        data.length ≤ maxCatalogBytes ∧ decodeStrict rt decodeCatalog data = .ok catalog := by
  unfold loadFile
  cases file with
  | error e => simp
  | ok reader =>
      cases hread : reader.readAll (maxCatalogBytes + 1) with
      | error e => simp [hread]
      | ok data =>
          by_cases hsize : maxCatalogBytes < data.length
          · have hnot : ¬data.length ≤ maxCatalogBytes := not_le.mpr hsize
            simp [hread, hsize, hnot]
          · have hle : data.length ≤ maxCatalogBytes := not_lt.mp hsize
            unfold decodeStrict ensureEOF
            cases hdecode : decodeCatalog data with
            | error e => simp [hread, hsize, hdecode]
            | ok found =>
                obtain ⟨result, rest⟩ := found
                cases hany : rt.decodeAny rest <;> simp [hread, hsize, hle, hdecode, hany]

theorem readAll_of_length_le {body : Bytes} {limit : ℕ} (h : body.length ≤ limit) :
    (Reader.mk body none).readAll (limit + 1) = .ok body := by
  rw [Reader.readAll, if_neg (by simpa using h)]

theorem size_valid_iff {data : Bytes} {limit : ℕ} :
    ¬(data.length = 0 ∨ limit < data.length) ↔ data ≠ [] ∧ data.length ≤ limit := by
  rw [not_or, List.length_eq_zero_iff, not_lt]

theorem decodeKeyPolicy_eq_ok {decodePolicy : Bytes → Except Error (KeyPolicy × Bytes)}
    {reader : Reader} {policy : KeyPolicy} :
    decodeKeyPolicy rt decodePolicy reader = .ok policy ↔
      ∃ data, reader.readAll (maxKeyPolicyBytes + 1) = .ok data ∧
        (data ≠ [] ∧ data.length ≤ maxKeyPolicyBytes) ∧
        decodeStrict rt decodePolicy data = .ok policy := by
  unfold decodeKeyPolicy
  cases reader.readAll (maxKeyPolicyBytes + 1) with
  | error e => simp
  | ok data =>
      simp only [Except.ok.injEq, exists_eq_left', ← size_valid_iff]
      by_cases hsize : data.length = 0 ∨ maxKeyPolicyBytes < data.length
      · simp only [hsize, if_true, not_true, false_and, reduceCtorEq]
      · simp only [hsize, if_false, not_false_eq_true, true_and]
        cases decodeStrict rt decodePolicy data <;> simp

theorem decodeKeyPolicy_written (rt : Runtime) (refusal : Bytes → Error) {policy : KeyPolicy}
    (hutf8 : policy.Utf8)
    (hsize : (PolicyTool.encodePolicy policy).length ≤ maxKeyPolicyBytes) :
    decodeKeyPolicy (rt.withJson refusal) (KeyPolicy.fields.decoder.decode refusal)
      ⟨PolicyTool.encodePolicy policy, none⟩ = .ok policy := by
  have hne : PolicyTool.encodePolicy policy ≠ [] := by simp [PolicyTool.encodePolicy]
  exact decodeKeyPolicy_eq_ok.mpr ⟨_, readAll_of_length_le hsize, ⟨hne, hsize⟩,
    readsPolicy_withJson rt refusal hutf8⟩

end Manifest

/-! ## The policy file -/

namespace PolicyTool

open Manifest

variable {rt : Runtime} {root : Bytes} {version : UInt64} {grants : List KeyGrant}
  {policy : KeyPolicy}

/-- Whatever the tool signs and writes is within the reader's limit, is read back unchanged and
stands under the root, and no version is left without a key that may issue it: for the key granted a
version, `Issue` refuses nothing on account of the policy. -/
theorem written_policy_usable (refusal : Bytes → Error) (hsign : rt.VerifiesSigned)
    (hnew : ∀ g ∈ grants, NewGrant rt g)
    (h : signKeyPolicy rt root version grants = .ok policy) :
    (∃ text, writePolicy .success policy = .ok text ∧ text.length ≤ maxKeyPolicyBytes ∧
        decodeKeyPolicy (rt.withJson refusal) (KeyPolicy.fields.decoder.decode refusal)
          ⟨text, none⟩ = .ok policy) ∧
      (∃ digest, validateKeyPolicy rt policy (publicKey root) = .ok digest) ∧
      ∀ v, v ≠ 0 → (∃! g, g ∈ policy.keys ∧ g.Covers v) ∧
        ∀ g ∈ policy.keys, g.Covers v → ∃ raw, grantKey rt g = some raw ∧
          keyPolicyGrant policy (keyID rt raw) v = .ok (g, raw) ∧
          ∀ privateKey, publicKey privateKey = raw → ∀ catalog now ttl,
            (∃ envelope, issue rt catalog v policy (publicKey root) now ttl privateKey =
              .ok envelope) ↔ Issuable rt catalog v policy now ttl privateKey := by
  have hsize := length_encodePolicy_le hnew h
  obtain ⟨signature, hs⟩ := signedBy_of_sign hsign h
  have hshape := shape_of_ok hs.shape
  refine ⟨⟨encodePolicy policy, rfl, hsize, decodeKeyPolicy_written rt refusal hs.utf8 hsize⟩,
    ⟨_, validateKeyPolicy_eq_ok.mpr ⟨⟨signature, hs⟩, rfl⟩⟩, fun v hv => ⟨?_, ?_⟩⟩
  · obtain ⟨g, hg, hcovers⟩ := hshape.exists_covers hv
    exact ⟨g, ⟨hg, hcovers⟩, fun g' hg' => hshape.covers_unique hg'.1 hg hg'.2 hcovers⟩
  · intro g hg hcovers
    obtain ⟨raw, hkey⟩ := Option.ne_none_iff_exists'.mp (hshape.grants g hg).key
    have hgrant := keyPolicyGrant_of_covers hshape hg hcovers hkey
    refine ⟨raw, hkey, hgrant, ?_⟩
    rintro privateKey rfl catalog now ttl
    exact issue_iff_issuable hs hv ⟨_, hgrant⟩ catalog now ttl

namespace Sample

theorem verifiesSigned : Runtime.toy.VerifiesSigned := fun _ _ _ => decide_eq_true rfl

def rootKey : Bytes := List.replicate 64 9

def succession : List KeyGrant := [Manifest.Sample.grant 2 2 6 0, Manifest.Sample.grant 1 1 1 5]

theorem new_succession : ∀ g ∈ succession, NewGrant .toy g := by
  intro g hg
  simp only [succession, List.mem_cons, List.not_mem_nil, or_false] at hg
  rcases hg with rfl | rfl
  · exact ⟨List.replicate 32 2, 2, 6, 0, rfl⟩
  · exact ⟨List.replicate 32 1, 1, 1, 5, rfl⟩

theorem signed_succession : ∃ policy, signKeyPolicy .toy rootKey 7 succession = .ok policy :=
  exists_of_isOk (by decide)

end Sample

theorem written_policy_usable_succession : ∃ policy,
    signKeyPolicy .toy Sample.rootKey 7 Sample.succession = .ok policy ∧
      ∃ text, writePolicy .success policy = .ok text ∧ text.length ≤ maxKeyPolicyBytes ∧
        decodeKeyPolicy (Runtime.toy.withJson fun _ => .library "invalid character")
          (KeyPolicy.fields.decoder.decode fun _ => .library "invalid character") ⟨text, none⟩ =
            .ok policy := by
  obtain ⟨policy, h⟩ := Sample.signed_succession
  exact ⟨policy, h, (written_policy_usable (fun _ => .library "invalid character")
    Sample.verifiesSigned Sample.new_succession h).1⟩

end PolicyTool

end CloudHelp
