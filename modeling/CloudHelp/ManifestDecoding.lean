import CloudHelp.Issuance
import CloudHelp.PolicyTool
import CloudHelp.TimeReading

/-!
# Decoding the manifest's JSON

The decoders of the structs of `internal/manifest` and of the issuer's state, field by field.
`Runtime.withJson` puts them in the place of the decoders that a runtime leaves open. With them
what is asked of a decoder elsewhere is a theorem: documents, envelopes, states and policy files
are read back as they were written, and whatever is accepted has texts of valid UTF-8, so that it
can be written again and read back once more.
-/

namespace CloudHelp

/-! ## The structs -/

namespace Manifest

open Decoder (text uint16 uint32 uint64 text_inverts uint16_inverts uint32_inverts uint64_inverts
  always_text)

def KeyGrant.fields : Fields KeyGrant :=
  Fields.start KeyGrant.mk
    |>.field (str "key_id") text (by decide)
    |>.field (str "public_key") text (by decide)
    |>.field (str "epoch") uint64 (by decide)
    |>.field (str "not_before_version") uint64 (by decide)
    |>.field (str "not_after_version") uint64 (by decide)

theorem KeyGrant.inverts (html : Bool) : fields.decoder.Inverts (json html) Utf8 := by
  intro g hg
  apply Fields.Filled.takes
  exact Fields.filled_start KeyGrant.mk
    |>.field (text_inverts html _ hg.1)
    |>.field (text_inverts html _ hg.2)
    |>.field (uint64_inverts _ trivial)
    |>.field (uint64_inverts _ trivial)
    |>.field (uint64_inverts _ trivial)

theorem KeyGrant.always_utf8 : fields.decoder.Always Utf8 :=
  fun _ => ⟨always_text _, always_text _⟩

def KeyPolicy.fields : Fields KeyPolicy :=
  Fields.start KeyPolicy.mk
    |>.field (str "version") uint64 (by decide)
    |>.field (str "root_key_id") text (by decide)
    |>.field (str "keys") KeyGrant.fields.decoder.list (by decide)
    |>.field (str "signature") text (by decide)

theorem KeyPolicy.inverts (html : Bool) : fields.decoder.Inverts (json html) Utf8 := by
  intro p hp
  apply Fields.Filled.takes
  exact Fields.filled_start KeyPolicy.mk
    |>.field (uint64_inverts _ trivial)
    |>.field (text_inverts html _ hp.1)
    |>.field ((KeyGrant.inverts html).list _ hp.2.1)
    |>.field (text_inverts html _ hp.2.2)

theorem KeyPolicy.always_utf8 : fields.decoder.Always Utf8 :=
  fun _ => ⟨always_text _, KeyGrant.always_utf8.list _, always_text _⟩

def DiscoveryEndpoint.fields : Fields DiscoveryEndpoint :=
  Fields.start DiscoveryEndpoint.mk
    |>.field (str "id") text (by decide)
    |>.field (str "url") text (by decide)
    |>.field (str "priority") uint16 (by decide)

theorem DiscoveryEndpoint.inverts : fields.decoder.Inverts toJson Utf8 := by
  intro d hd
  apply Fields.Filled.takes
  exact Fields.filled_start DiscoveryEndpoint.mk
    |>.field (text_inverts true _ hd.1)
    |>.field (text_inverts true _ hd.2)
    |>.field (uint16_inverts _ trivial)

theorem DiscoveryEndpoint.always_utf8 : fields.decoder.Always Utf8 :=
  fun _ => ⟨always_text _, always_text _⟩

def Endpoint.fields : Fields Endpoint :=
  Fields.start Endpoint.mk
    |>.field (str "id") text (by decide)
    |>.field (str "transport") text (by decide)
    |>.field (str "address") text (by decide)
    |>.field (str "server_name") text (by decide)
    |>.field (str "credential_ref") text (by decide)
    |>.field (str "priority") uint16 (by decide)

/-- A server name that was left out is read as the empty one it was. -/
theorem Endpoint.inverts : fields.decoder.Inverts toJson Utf8 := by
  rintro ⟨id, transport, address, serverName, credentialRef, priority⟩
    ⟨hid, htransport, haddress, hserver, hcredential⟩
  by_cases hempty : serverName = []
  · subst hempty
    apply Fields.Filled.takes
    exact Fields.filled_start Endpoint.mk
      |>.field (text_inverts true _ hid)
      |>.field (text_inverts true _ htransport)
      |>.field (text_inverts true _ haddress)
      |>.skip
      |>.field (text_inverts true _ hcredential)
      |>.field (uint16_inverts _ trivial)
  · unfold toJson
    rw [if_neg hempty]
    apply Fields.Filled.takes
    exact Fields.filled_start Endpoint.mk
      |>.field (text_inverts true _ hid)
      |>.field (text_inverts true _ htransport)
      |>.field (text_inverts true _ haddress)
      |>.field (text_inverts true _ hserver)
      |>.field (text_inverts true _ hcredential)
      |>.field (uint16_inverts _ trivial)

theorem Endpoint.always_utf8 : fields.decoder.Always Utf8 :=
  fun _ => ⟨always_text _, always_text _, always_text _, always_text _, always_text _⟩

def Node.fields : Fields Node :=
  Fields.start Node.mk
    |>.field (str "id") text (by decide)
    |>.field (str "region") text (by decide)
    |>.field (str "country_code") text (by decide)
    |>.field (str "provider") text (by decide)
    |>.field (str "asn") uint32 (by decide)
    |>.field (str "endpoints") Endpoint.fields.decoder.list (by decide)

theorem Node.inverts : fields.decoder.Inverts toJson Utf8 := by
  intro n hn
  apply Fields.Filled.takes
  exact Fields.filled_start Node.mk
    |>.field (text_inverts true _ hn.1)
    |>.field (text_inverts true _ hn.2.1)
    |>.field (text_inverts true _ hn.2.2.1)
    |>.field (text_inverts true _ hn.2.2.2.1)
    |>.field (uint32_inverts _ trivial)
    |>.field (Endpoint.inverts.list _ hn.2.2.2.2)

theorem Node.always_utf8 : fields.decoder.Always Utf8 :=
  fun _ => ⟨always_text _, always_text _, always_text _, always_text _, Endpoint.always_utf8.list _⟩

def Catalog.fields : Fields Catalog :=
  Fields.start Catalog.mk
    |>.field (str "revision") uint64 (by decide)
    |>.field (str "discovery") DiscoveryEndpoint.fields.decoder.list (by decide)
    |>.field (str "nodes") Node.fields.decoder.list (by decide)

theorem Catalog.inverts : fields.decoder.Inverts toJson Utf8 := by
  intro c hc
  apply Fields.Filled.takes
  exact Fields.filled_start Catalog.mk
    |>.field (uint64_inverts _ trivial)
    |>.field (DiscoveryEndpoint.inverts.list _ hc.1)
    |>.field (Node.inverts.list _ hc.2)

theorem Catalog.always_utf8 : fields.decoder.Always Utf8 :=
  fun _ => ⟨DiscoveryEndpoint.always_utf8.list _, Node.always_utf8.list _⟩

/-- Of the times of a document only the instants are used. -/
def instant : Decoder ℤ := Rfc3339.decoder.map Prod.fst

theorem takes_instant {t : ℤ} {v : Json} (h : Rfc3339.marshalTime 0 t = .ok v) :
    instant.Takes v t :=
  (Rfc3339.takes_marshalTime h).map Prod.fst

def Document.fields : Fields Document :=
  Fields.start Document.mk
    |>.field (str "schema_version") .int (by decide)
    |>.field (str "version") uint64 (by decide)
    |>.field (str "catalog_revision") uint64 (by decide)
    |>.field (str "issued_at") instant (by decide)
    |>.field (str "expires_at") instant (by decide)
    |>.field (str "key_policy") KeyPolicy.fields.decoder (by decide)
    |>.field (str "discovery") DiscoveryEndpoint.fields.decoder.list (by decide)
    |>.field (str "nodes") Node.fields.decoder.list (by decide)

theorem Document.takes {d : Document} {issuedAt expiresAt : Json} (hd : d.Utf8)
    (hschema : -2 ^ 63 ≤ d.schemaVersion ∧ d.schemaVersion < 2 ^ 63)
    (hissued : Rfc3339.marshalTime 0 d.issuedAt = .ok issuedAt)
    (hexpires : Rfc3339.marshalTime 0 d.expiresAt = .ok expiresAt) :
    fields.decoder.Takes (d.toJson issuedAt expiresAt) d := by
  apply Fields.Filled.takes
  exact Fields.filled_start Document.mk
    |>.field (Decoder.int_inverts _ hschema)
    |>.field (uint64_inverts _ trivial)
    |>.field (uint64_inverts _ trivial)
    |>.field (takes_instant hissued)
    |>.field (takes_instant hexpires)
    |>.field (KeyPolicy.inverts true _ hd.1)
    |>.field (DiscoveryEndpoint.inverts.list _ hd.2.1)
    |>.field (Node.inverts.list _ hd.2.2)

theorem Document.always_utf8 : fields.decoder.Always Utf8 :=
  fun _ => ⟨KeyPolicy.always_utf8 _, DiscoveryEndpoint.always_utf8.list _, Node.always_utf8.list _⟩

def Envelope.fields : Fields Envelope :=
  Fields.start Envelope.mk
    |>.field (str "algorithm") text (by decide)
    |>.field (str "key_id") text (by decide)
    |>.field (str "payload") text (by decide)
    |>.field (str "signature") text (by decide)

theorem Envelope.inverts : fields.decoder.Inverts toJson Utf8 := by
  intro e he
  apply Fields.Filled.takes
  exact Fields.filled_start Envelope.mk
    |>.field (text_inverts true _ he.1)
    |>.field (text_inverts true _ he.2.1)
    |>.field (text_inverts true _ he.2.2.1)
    |>.field (text_inverts true _ he.2.2.2)

theorem Envelope.always_utf8 : fields.decoder.Always Utf8 :=
  fun _ => ⟨always_text _, always_text _, always_text _, always_text _⟩

end Manifest

namespace Issuance

open Decoder (text uint64 text_inverts uint64_inverts always_text)

/-- A state and its columns: the time comes with its zone. -/
def State.ofColumns (keyID : Bytes) (keyEpoch policyVersion : UInt64) (policySHA256 : Bytes)
    (lastVersion catalogRevision : UInt64) (catalogSHA256 : Bytes) (lastIssuedAt : ℤ × ℤ) : State :=
  ⟨keyID, keyEpoch, policyVersion, policySHA256, lastVersion, catalogRevision, catalogSHA256,
    lastIssuedAt.1, lastIssuedAt.2⟩

def State.fields : Fields State :=
  Fields.start State.ofColumns
    |>.field (str "key_id") text (by decide)
    |>.field (str "key_epoch") uint64 (by decide)
    |>.field (str "policy_version") uint64 (by decide)
    |>.field (str "policy_sha256") text (by decide)
    |>.field (str "last_version") uint64 (by decide)
    |>.field (str "catalog_revision") uint64 (by decide)
    |>.field (str "catalog_sha256") text (by decide)
    |>.field (str "last_issued_at") Rfc3339.decoder (by decide)

theorem State.exists_takes {state : State} {data : Bytes} (hs : state.Utf8)
    (h : state.marshal = .ok data) :
    ∃ v : Json, fields.decoder.Takes v state ∧ data = v.encode ++ [10] := by
  unfold State.marshal at h
  cases htime : Rfc3339.marshalTime state.zone state.lastIssuedAt with
  | error e =>
      rw [htime] at h
      cases h
  | ok lastIssuedAt =>
      rw [htime] at h
      refine ⟨_, ?_, (Except.ok.inj h).symm⟩
      apply Fields.Filled.takes
      exact Fields.filled_start State.ofColumns
        |>.field (text_inverts false _ hs.1)
        |>.field (uint64_inverts _ trivial)
        |>.field (uint64_inverts _ trivial)
        |>.field (text_inverts false _ hs.2.1)
        |>.field (uint64_inverts _ trivial)
        |>.field (uint64_inverts _ trivial)
        |>.field (text_inverts false _ hs.2.2)
        |>.field (Rfc3339.takes_marshalTime htime)

theorem State.always_utf8 : fields.decoder.Always Utf8 :=
  fun _ => ⟨always_text _, always_text _, always_text _⟩

end Issuance

/-! ## The runtime with these decoders -/

/-- `Decode` into a variable of type `any`. A number that no `float64` holds is reported as an
error; the input is refused for it as it is for a value. -/
def JsonValue.decodeAny (refusal : Bytes → Error) (s : Bytes) : Manifest.Trailing :=
  if skipSpace s = [] then .eof
  else match read s with
    | none => .error (refusal s)
    | some _ => .value

def Runtime.withJson (rt : Runtime) (refusal : Bytes → Error) : Runtime :=
  { rt with
    decodeDocument := Manifest.Document.fields.decoder.decode refusal
    decodeEnvelope := Manifest.Envelope.fields.decoder.decode refusal
    decodeState := Issuance.State.fields.decoder.decode refusal
    decodeAny := JsonValue.decodeAny refusal }

namespace Manifest

variable {α : Type} {rt : Runtime} {refusal : Bytes → Error} {D : Decoder α} {v : Json} {a : α}

/-- A text of the value, and white space after it. -/
theorem decodeStrict_of_read (h : D.Takes v a) {s r : Bytes} (hr : JsonValue.skipSpace r = [])
    (hread : JsonValue.read s = some (v.toValue, r)) :
    decodeStrict (rt.withJson refusal) (D.decode refusal) s = .ok a := by
  have hany : (rt.withJson refusal).decodeAny r = .eof := if_pos hr
  simp only [decodeStrict, Decoder.decode_of_takes h hread, hany]

theorem decodeStrict_encode (h : D.Takes v a) {r : Bytes} (hr : JsonValue.skipSpace r = [])
    (hends : NumberEnds r) :
    decodeStrict (rt.withJson refusal) (D.decode refusal) (v.encode ++ r) = .ok a :=
  decodeStrict_of_read h hr (JsonValue.read_encode h.texts hends)

theorem decodeStrict_marshal (h : D.Takes v a) :
    decodeStrict (rt.withJson refusal) (D.decode refusal) v.encode = .ok a := by
  rw [← List.append_nil v.encode]
  exact decodeStrict_encode h rfl JsonValue.numberEnds_nil

theorem decodeStrict_indent (h : D.Takes v a) (depth : ℕ) {r : Bytes}
    (hr : JsonValue.skipSpace r = []) (hends : NumberEnds r) :
    decodeStrict (rt.withJson refusal) (D.decode refusal) (v.indent depth ++ r) = .ok a :=
  decodeStrict_of_read h hr (JsonValue.read_indent h.texts depth hends)

/-- Whatever a variable can hold, an accepted text gives a value of that kind. -/
theorem always_of_decodeStrict {P : α → Prop} (hD : D.Always P) {s : Bytes}
    (h : decodeStrict rt (D.decode refusal) s = .ok a) : P a := by
  unfold decodeStrict Decoder.decode at h
  cases hread : JsonValue.read s with
  | none => simp [hread] at h
  | some found =>
      obtain ⟨value, r⟩ := found
      by_cases haccepts : D.accepts value = true
      · simp only [hread, haccepts, if_true] at h
        cases hany : rt.decodeAny r with
        | eof =>
            rw [hany] at h
            obtain rfl := Except.ok.inj h
            exact hD _
        | error e => simp [hany] at h
        | value => simp [hany] at h
      · simp [hread, haccepts] at h

theorem skipSpace_newline : JsonValue.skipSpace [10] = [] := rfl

theorem numberEnds_newline : NumberEnds [10] := JsonValue.numberEnds_space rfl []

theorem readsDocuments_withJson (rt : Runtime) (refusal : Bytes → Error) :
    (rt.withJson refusal).ReadsDocuments := by
  intro d b hutf8 hschema hb
  obtain ⟨issuedAt, expiresAt, hissued, hexpires, rfl⟩ := Document.marshal_eq_ok.mp hb
  exact decodeStrict_marshal (Document.takes hutf8 hschema hissued hexpires)

theorem readsEnvelopes_withJson (rt : Runtime) (refusal : Bytes → Error) :
    (rt.withJson refusal).ReadsEnvelopes :=
  fun e hutf8 => decodeStrict_encode (Envelope.inverts e hutf8) skipSpace_newline numberEnds_newline

theorem readsPolicy_withJson (rt : Runtime) (refusal : Bytes → Error) {policy : KeyPolicy}
    (hutf8 : policy.Utf8) :
    decodeStrict (rt.withJson refusal) (KeyPolicy.fields.decoder.decode refusal)
      (PolicyTool.encodePolicy policy) = .ok policy :=
  decodeStrict_indent (KeyPolicy.inverts false policy hutf8) 0 skipSpace_newline numberEnds_newline

def Sample.decoding : Runtime := Runtime.toy.withJson fun _ => .library "invalid character"

end Manifest

theorem Issuance.readsStates_withJson (rt : Runtime) (refusal : Bytes → Error) :
    ReadsStates (rt.withJson refusal) := by
  intro state data hutf8 hdata
  obtain ⟨v, htakes, rfl⟩ := State.exists_takes hutf8 hdata
  have hread := JsonValue.read_encode htakes.texts Manifest.numberEnds_newline
  have hany : (rt.withJson refusal).decodeAny [10] = .eof := rfl
  have hdecode : (rt.withJson refusal).decodeState (v.encode ++ [10]) = .ok (state, [10]) :=
    Decoder.decode_of_takes htakes hread
  simp only [decodeStrict, hdecode, hany]

end CloudHelp
