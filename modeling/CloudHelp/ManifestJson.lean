import CloudHelp.Lists
import CloudHelp.ManifestTypes

/-!
# The manifest's JSON

What `json.Marshal` writes for the manifest's structures, field by field and with HTML escaping on.
`Utf8` says that the strings of a value are valid UTF-8; on such values the text determines the
value. Nothing here is ever an empty slice when it is encoded, as the validators come first.
-/

namespace CloudHelp.Manifest

def jsonString (s : Bytes) : Json := .ofString true s

@[simp] theorem wellFormed_jsonString (s : Bytes) : (jsonString s).wellFormed = true :=
  Json.wellFormed_ofString true s

theorem jsonString_injOn {s t : Bytes} (hs : Utf8.validString s = true)
    (ht : Utf8.validString t = true) (h : jsonString s = jsonString t) : s = t :=
  Json.ofString_injOn hs ht h

/-- Member names are plain text. -/
@[simp] theorem wellFormedMembers_cons {name : Bytes} {v : Json} {ms : List (Bytes × Json)} :
    Json.wellFormedMembers ((name, v) :: ms) =
      (JsonText.stringText name && v.wellFormed && Json.wellFormedMembers ms) :=
  rfl

namespace KeyGrant

def Utf8 (g : KeyGrant) : Prop :=
  Utf8.validString g.keyID = true ∧ Utf8.validString g.publicKey = true

def json (html : Bool) (g : KeyGrant) : Json :=
  .obj [(str "key_id", .ofString html g.keyID), (str "public_key", .ofString html g.publicKey),
    (str "epoch", .num g.epoch.toNat), (str "not_before_version", .num g.notBeforeVersion.toNat),
    (str "not_after_version", .num g.notAfterVersion.toNat)]

def toJson (g : KeyGrant) : Json := g.json true

theorem wellFormed_json (html : Bool) (g : KeyGrant) : (g.json html).wellFormed = true := by
  simp only [json, Json.wellFormed, wellFormedMembers_cons, Json.wellFormed_ofString]
  rfl

theorem json_injOn (html : Bool) (g h : KeyGrant) (hg : g.Utf8) (hh : h.Utf8)
    (he : g.json html = h.json html) : g = h := by
  simp only [json, Json.obj.injEq, List.cons.injEq, Prod.mk.injEq, true_and, and_true,
    Json.num.injEq, Nat.cast_inj, UInt64.toNat_inj] at he
  obtain ⟨hid, hkey, hepoch, hstart, hend⟩ := he
  exact KeyGrant.ext (Json.ofString_injOn hg.1 hh.1 hid) (Json.ofString_injOn hg.2 hh.2 hkey) hepoch
    hstart hend

theorem wellFormed_toJson (g : KeyGrant) : g.toJson.wellFormed = true := wellFormed_json true g

theorem toJson_injOn (g h : KeyGrant) (hg : g.Utf8) (hh : h.Utf8) (he : g.toJson = h.toJson) :
    g = h :=
  json_injOn true g h hg hh he

end KeyGrant

namespace KeyPolicy

def Utf8 (p : KeyPolicy) : Prop :=
  Utf8.validString p.rootKeyID = true ∧ (∀ g ∈ p.keys, g.Utf8) ∧
    Utf8.validString p.signature = true

def json (html : Bool) (p : KeyPolicy) : Json :=
  .obj [(str "version", .num p.version.toNat), (str "root_key_id", .ofString html p.rootKeyID),
    (str "keys", .arr (p.keys.map (KeyGrant.json html))),
    (str "signature", .ofString html p.signature)]

def toJson (p : KeyPolicy) : Json := p.json true

theorem wellFormed_json (html : Bool) (p : KeyPolicy) : (p.json html).wellFormed = true := by
  simp only [json, Json.wellFormed, wellFormedMembers_cons, Json.wellFormed_ofString,
    Json.wellFormedItems_map (KeyGrant.wellFormed_json html)]
  rfl

theorem json_injOn (html : Bool) (p q : KeyPolicy) (hp : p.Utf8) (hq : q.Utf8)
    (he : p.json html = q.json html) : p = q := by
  simp only [json, Json.obj.injEq, List.cons.injEq, Prod.mk.injEq, true_and, and_true,
    Json.num.injEq, Nat.cast_inj, UInt64.toNat_inj, Json.arr.injEq] at he
  obtain ⟨hversion, hroot, hkeys, hsignature⟩ := he
  refine KeyPolicy.ext hversion (Json.ofString_injOn hp.1 hq.1 hroot) ?_
    (Json.ofString_injOn hp.2.2 hq.2.2 hsignature)
  exact map_injOn (KeyGrant.json_injOn html) hp.2.1 hq.2.1 hkeys

theorem wellFormed_toJson (p : KeyPolicy) : p.toJson.wellFormed = true := wellFormed_json true p

theorem toJson_injOn (p q : KeyPolicy) (hp : p.Utf8) (hq : q.Utf8) (he : p.toJson = q.toJson) :
    p = q :=
  json_injOn true p q hp hq he

end KeyPolicy

namespace DiscoveryEndpoint

def toJson (d : DiscoveryEndpoint) : Json :=
  .obj [(str "id", jsonString d.id), (str "url", jsonString d.url),
    (str "priority", .num d.priority.toNat)]

def Utf8 (d : DiscoveryEndpoint) : Prop :=
  Utf8.validString d.id = true ∧ Utf8.validString d.url = true

theorem wellFormed_toJson (d : DiscoveryEndpoint) : d.toJson.wellFormed = true := by
  simp only [toJson, Json.wellFormed, wellFormedMembers_cons, wellFormed_jsonString]
  rfl

theorem toJson_injOn (d e : DiscoveryEndpoint) (hd : d.Utf8) (he : e.Utf8)
    (h : d.toJson = e.toJson) : d = e := by
  simp only [toJson, Json.obj.injEq, List.cons.injEq, Prod.mk.injEq, true_and, and_true,
    Json.num.injEq, Nat.cast_inj, UInt16.toNat_inj] at h
  obtain ⟨hid, hurl, hpriority⟩ := h
  exact DiscoveryEndpoint.ext (jsonString_injOn hd.1 he.1 hid) (jsonString_injOn hd.2 he.2 hurl)
    hpriority

end DiscoveryEndpoint

namespace Endpoint

-- `server_name` is the one field left out when it is empty
def toJson (e : Endpoint) : Json :=
  .obj ([(str "id", jsonString e.id), (str "transport", jsonString e.transport),
    (str "address", jsonString e.address)] ++
    (if e.serverName = [] then [] else [(str "server_name", jsonString e.serverName)]) ++
    [(str "credential_ref", jsonString e.credentialRef), (str "priority", .num e.priority.toNat)])

def Utf8 (e : Endpoint) : Prop :=
  Utf8.validString e.id = true ∧ Utf8.validString e.transport = true ∧
    Utf8.validString e.address = true ∧ Utf8.validString e.serverName = true ∧
    Utf8.validString e.credentialRef = true

theorem wellFormed_toJson (e : Endpoint) : e.toJson.wellFormed = true := by
  unfold toJson
  by_cases hs : e.serverName = []
  · simp only [if_pos hs, List.cons_append, List.nil_append, Json.wellFormed,
      wellFormedMembers_cons, wellFormed_jsonString]
    rfl
  · simp only [if_neg hs, List.cons_append, List.nil_append, Json.wellFormed,
      wellFormedMembers_cons, wellFormed_jsonString]
    rfl

/-- A name that is left out and a name that is written do not give the same object. -/
theorem serverName_of_toJson {e f : Endpoint} (he : e.Utf8) (hf : f.Utf8)
    (h : e.toJson = f.toJson) : e.serverName = f.serverName := by
  unfold toJson at h
  by_cases hes : e.serverName = []
  · by_cases hfs : f.serverName = []
    · rw [hes, hfs]
    · simp [hes, hfs] at h
  · by_cases hfs : f.serverName = []
    · simp [hes, hfs] at h
    · simp only [hes, hfs, if_false, List.cons_append, List.nil_append, Json.obj.injEq,
        List.cons.injEq, Prod.mk.injEq, true_and] at h
      exact jsonString_injOn he.2.2.2.1 hf.2.2.2.1 h.2.2.2.1

theorem toJson_injOn (e f : Endpoint) (he : e.Utf8) (hf : f.Utf8) (h : e.toJson = f.toJson) :
    e = f := by
  have hname := serverName_of_toJson he hf h
  unfold toJson at h
  rw [hname] at h
  simp only [Json.obj.injEq, List.cons_append, List.nil_append, List.cons.injEq,
    Prod.mk.injEq, true_and, and_true, List.append_cancel_left_eq, Json.num.injEq, Nat.cast_inj,
    UInt16.toNat_inj] at h
  obtain ⟨hid, htransport, haddress, hcredential, hpriority⟩ := h
  exact Endpoint.ext (jsonString_injOn he.1 hf.1 hid)
    (jsonString_injOn he.2.1 hf.2.1 htransport)
    (jsonString_injOn he.2.2.1 hf.2.2.1 haddress) hname
    (jsonString_injOn he.2.2.2.2 hf.2.2.2.2 hcredential) hpriority

end Endpoint

namespace Node

def toJson (n : Node) : Json :=
  .obj [(str "id", jsonString n.id), (str "region", jsonString n.region),
    (str "country_code", jsonString n.countryCode), (str "provider", jsonString n.provider),
    (str "asn", .num n.asn.toNat), (str "endpoints", .arr (n.endpoints.map Endpoint.toJson))]

def Utf8 (n : Node) : Prop :=
  Utf8.validString n.id = true ∧ Utf8.validString n.region = true ∧
    Utf8.validString n.countryCode = true ∧ Utf8.validString n.provider = true ∧
    ∀ e ∈ n.endpoints, e.Utf8

theorem wellFormed_toJson (n : Node) : n.toJson.wellFormed = true := by
  simp only [toJson, Json.wellFormed, wellFormedMembers_cons, wellFormed_jsonString,
    Json.wellFormedItems_map Endpoint.wellFormed_toJson]
  rfl

theorem toJson_injOn (n m : Node) (hn : n.Utf8) (hm : m.Utf8) (h : n.toJson = m.toJson) :
    n = m := by
  simp only [toJson, Json.obj.injEq, List.cons.injEq, Prod.mk.injEq, true_and, and_true,
    Json.num.injEq, Nat.cast_inj, UInt32.toNat_inj, Json.arr.injEq] at h
  obtain ⟨hid, hregion, hcountry, hprovider, hasn, hendpoints⟩ := h
  exact Node.ext (jsonString_injOn hn.1 hm.1 hid) (jsonString_injOn hn.2.1 hm.2.1 hregion)
    (jsonString_injOn hn.2.2.1 hm.2.2.1 hcountry)
    (jsonString_injOn hn.2.2.2.1 hm.2.2.2.1 hprovider) hasn
    (map_injOn Endpoint.toJson_injOn hn.2.2.2.2 hm.2.2.2.2 hendpoints)

end Node

namespace Catalog

def toJson (c : Catalog) : Json :=
  .obj [(str "revision", .num c.revision.toNat),
    (str "discovery", .arr (c.discovery.map DiscoveryEndpoint.toJson)),
    (str "nodes", .arr (c.nodes.map Node.toJson))]

def Utf8 (c : Catalog) : Prop := (∀ d ∈ c.discovery, d.Utf8) ∧ ∀ n ∈ c.nodes, n.Utf8

theorem wellFormed_toJson (c : Catalog) : c.toJson.wellFormed = true := by
  simp only [toJson, Json.wellFormed, wellFormedMembers_cons,
    Json.wellFormedItems_map DiscoveryEndpoint.wellFormed_toJson,
    Json.wellFormedItems_map Node.wellFormed_toJson]
  rfl

theorem toJson_injOn (c d : Catalog) (hc : c.Utf8) (hd : d.Utf8) (h : c.toJson = d.toJson) :
    c = d := by
  simp only [toJson, Json.obj.injEq, List.cons.injEq, Prod.mk.injEq, true_and, and_true,
    Json.num.injEq, Nat.cast_inj, UInt64.toNat_inj, Json.arr.injEq] at h
  obtain ⟨hrevision, hdiscovery, hnodes⟩ := h
  exact Catalog.ext hrevision
    (map_injOn DiscoveryEndpoint.toJson_injOn hc.1 hd.1 hdiscovery)
    (map_injOn Node.toJson_injOn hc.2 hd.2 hnodes)

def marshal (c : Catalog) : Bytes := c.toJson.encode

theorem marshal_injOn {c d : Catalog} (hc : c.Utf8) (hd : d.Utf8) (h : c.marshal = d.marshal) :
    c = d :=
  toJson_injOn c d hc hd (Json.encode_injOn c.wellFormed_toJson d.wellFormed_toJson h)

end Catalog

namespace Document

/-- A document whose two instants are already encoded. -/
def toJson (d : Document) (issuedAt expiresAt : Json) : Json :=
  .obj [(str "schema_version", .num d.schemaVersion), (str "version", .num d.version.toNat),
    (str "catalog_revision", .num d.catalogRevision.toNat), (str "issued_at", issuedAt),
    (str "expires_at", expiresAt), (str "key_policy", d.keyPolicy.toJson),
    (str "discovery", .arr (d.discovery.map DiscoveryEndpoint.toJson)),
    (str "nodes", .arr (d.nodes.map Node.toJson))]

/-- `json.Marshal` of a document: only its instants can fail to encode. -/
def marshal (d : Document) : Except Error Bytes :=
  match Rfc3339.marshalTime 0 d.issuedAt with
  | .error e => .error e
  | .ok issuedAt =>
      match Rfc3339.marshalTime 0 d.expiresAt with
      | .error e => .error e
      | .ok expiresAt => .ok (d.toJson issuedAt expiresAt).encode

def Utf8 (d : Document) : Prop :=
  d.keyPolicy.Utf8 ∧ (∀ e ∈ d.discovery, e.Utf8) ∧ ∀ n ∈ d.nodes, n.Utf8

theorem marshal_eq_ok {d : Document} {b : Bytes} :
    d.marshal = .ok b ↔ ∃ issuedAt expiresAt, Rfc3339.marshalTime 0 d.issuedAt = .ok issuedAt ∧
      Rfc3339.marshalTime 0 d.expiresAt = .ok expiresAt ∧
        (d.toJson issuedAt expiresAt).encode = b := by
  unfold marshal
  cases Rfc3339.marshalTime 0 d.issuedAt with
  | error e => simp
  | ok issuedAt =>
      cases Rfc3339.marshalTime 0 d.expiresAt with
      | error e => simp
      | ok expiresAt => simp

theorem marshal_ne_nil {d : Document} {b : Bytes} (h : d.marshal = .ok b) : b ≠ [] := by
  obtain ⟨_, _, _, _, rfl⟩ := marshal_eq_ok.mp h
  exact Json.encode_ne_nil _

theorem wellFormed_toJson (d : Document) {issuedAt expiresAt : Json}
    (hi : issuedAt.wellFormed = true) (he : expiresAt.wellFormed = true) :
    (d.toJson issuedAt expiresAt).wellFormed = true := by
  simp only [toJson, Json.wellFormed, wellFormedMembers_cons, hi, he,
    KeyPolicy.wellFormed_toJson, Json.wellFormedItems_map DiscoveryEndpoint.wellFormed_toJson,
    Json.wellFormedItems_map Node.wellFormed_toJson]
  rfl

theorem toJson_eq_of_marshal {d e : Document} {b : Bytes} (hdb : d.marshal = .ok b)
    (heb : e.marshal = .ok b) :
    ∃ i x, (Rfc3339.marshalTime 0 d.issuedAt = .ok i ∧ Rfc3339.marshalTime 0 d.expiresAt = .ok x) ∧
      (Rfc3339.marshalTime 0 e.issuedAt = .ok i ∧ Rfc3339.marshalTime 0 e.expiresAt = .ok x) ∧
      d.toJson i x = e.toJson i x := by
  obtain ⟨i, x, hi, hx, rfl⟩ := marshal_eq_ok.mp hdb
  obtain ⟨j, y, hj, hy, hb⟩ := marshal_eq_ok.mp heb
  have hjson := Json.encode_injOn
    (e.wellFormed_toJson (Rfc3339.wellFormed_marshalTime hj) (Rfc3339.wellFormed_marshalTime hy))
    (d.wellFormed_toJson (Rfc3339.wellFormed_marshalTime hi) (Rfc3339.wellFormed_marshalTime hx)) hb
  have htimes := hjson
  simp only [toJson, Json.obj.injEq, List.cons.injEq, Prod.mk.injEq, true_and] at htimes
  obtain ⟨-, -, -, rfl, rfl, -⟩ := htimes
  exact ⟨j, y, ⟨hi, hx⟩, ⟨hj, hy⟩, hjson.symm⟩

/-- The signed bytes determine the version, whatever texts the document has. -/
theorem version_eq_of_marshal {d e : Document} {b : Bytes} (hdb : d.marshal = .ok b)
    (heb : e.marshal = .ok b) : d.version = e.version := by
  obtain ⟨i, x, -, -, hjson⟩ := toJson_eq_of_marshal hdb heb
  simp only [toJson, Json.obj.injEq, List.cons.injEq, Prod.mk.injEq, true_and, Json.num.injEq,
    Nat.cast_inj, UInt64.toNat_inj] at hjson
  exact hjson.2.1

/-- The signed bytes determine the document. -/
theorem marshal_injOn {d e : Document} {b : Bytes} (hd : d.Utf8) (he : e.Utf8)
    (hdb : d.marshal = .ok b) (heb : e.marshal = .ok b) : d = e := by
  obtain ⟨i, x, ⟨hi, hx⟩, ⟨hj, hy⟩, hjson⟩ := toJson_eq_of_marshal hdb heb
  simp only [toJson, Json.obj.injEq, List.cons.injEq, Prod.mk.injEq, true_and, and_true,
    Json.num.injEq, Nat.cast_inj, UInt64.toNat_inj, Json.arr.injEq] at hjson
  obtain ⟨hschema, hversion, hrevision, hpolicy, hdiscovery, hnodes⟩ := hjson
  exact Document.ext hschema hversion hrevision (Rfc3339.marshalTime_injOn hi hj).1
    (Rfc3339.marshalTime_injOn hx hy).1 (KeyPolicy.toJson_injOn _ _ hd.1 he.1 hpolicy)
    (map_injOn DiscoveryEndpoint.toJson_injOn hd.2.1 he.2.1 hdiscovery)
    (map_injOn Node.toJson_injOn hd.2.2 he.2.2 hnodes)

end Document

namespace Envelope

def toJson (e : Envelope) : Json :=
  .obj [(str "algorithm", jsonString e.algorithm), (str "key_id", jsonString e.keyID),
    (str "payload", jsonString e.payload), (str "signature", jsonString e.signature)]

def Utf8 (e : Envelope) : Prop :=
  Utf8.validString e.algorithm = true ∧ Utf8.validString e.keyID = true ∧
    Utf8.validString e.payload = true ∧ Utf8.validString e.signature = true

theorem wellFormed_toJson (e : Envelope) : e.toJson.wellFormed = true := by
  simp only [toJson, Json.wellFormed, wellFormedMembers_cons, wellFormed_jsonString]
  rfl

theorem toJson_injOn (e f : Envelope) (he : e.Utf8) (hf : f.Utf8) (h : e.toJson = f.toJson) :
    e = f := by
  simp only [toJson, Json.obj.injEq, List.cons.injEq, Prod.mk.injEq, true_and, and_true] at h
  obtain ⟨halgorithm, hkey, hpayload, hsignature⟩ := h
  exact Envelope.ext (jsonString_injOn he.1 hf.1 halgorithm) (jsonString_injOn he.2.1 hf.2.1 hkey)
    (jsonString_injOn he.2.2.1 hf.2.2.1 hpayload) (jsonString_injOn he.2.2.2 hf.2.2.2 hsignature)

end Envelope

end CloudHelp.Manifest
