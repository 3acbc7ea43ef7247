import CloudHelp.ManifestJson

/-!
# Catalog contents

The validators of discovery entries, nodes and endpoints and the canonical order of a catalog, from
`internal/manifest/manifest.go`. The two loops carry the identifiers seen so far; those of the
endpoints run on from one node to the next.
-/

namespace CloudHelp.Manifest

variable (rt : Runtime)

def transportAmneziaWG : Bytes := str "amneziawg"

def transportReality : Bytes := str "vless-reality"

def isLowerOrDigit (c : UInt8) : Bool := isLower c || isDigit c

def isLowerDigitOrDash (c : UInt8) : Bool := isLowerOrDigit c || c == 45

def idPattern : Bytes → Bool := matchesHeadTail isLowerOrDigit isLowerDigitOrDash 62

def regionPattern : Bytes → Bool := matchesHeadTail isLowerOrDigit isLowerDigitOrDash 63

def countryPattern : Bytes → Bool := matchesTwoUpper

def isCredentialStart (c : UInt8) : Bool := isLower c || isUpper c || isDigit c

def isCredentialChar (c : UInt8) : Bool := isCredentialStart c || c == 46 || c == 95 || c == 45

def credentialPattern : Bytes → Bool := matchesHeadTail isCredentialStart isCredentialChar 127

def validHost (host : Bytes) : Bool :=
  IP.parseIP host || (host.length ≤ 253 && Host.matchesHostname host)

/-- `err == nil && 1 <= port && port <= 65535` after `strconv.Atoi`. -/
def validPort (text : Bytes) : Bool :=
  match atoi text with
  | none => false
  | some port => 1 ≤ port && port ≤ 65535

/-- The loop of `validateDiscovery`. -/
def validateSources : ℕ → List Bytes → List DiscoveryEndpoint → Except Error Unit
  | _, _, [] => .ok ()
  | index, ids, source :: rest =>
      if idPattern source.id = false then
        .error (.errorf "manifest: discovery %d has invalid id %q" [.num index, .text source.id])
      else if source.id ∈ ids then
        .error (.errorf "manifest: duplicate discovery id %q" [.text source.id])
      else if source.priority = 0 ∨ 1000 < source.priority then
        .error (.errorf "manifest: discovery %q priority must be between 1 and 1000"
          [.text source.id])
      else match rt.parseRequestURI source.url with
        | none =>
            .error (.errorf
              "manifest: discovery %q must be an HTTPS URL without credentials, query, or fragment"
              [.text source.id])
        | some parsed =>
            if parsed.scheme ≠ str "https" ∨ parsed.host = [] ∨ parsed.user = true ∨
                parsed.rawQuery ≠ [] ∨ parsed.fragment ≠ [] then
              .error (.errorf
                "manifest: discovery %q must be an HTTPS URL without credentials, query, or fragment"
                [.text source.id])
            else if validHost parsed.hostname = false then
              .error (.errorf "manifest: discovery %q has invalid host" [.text source.id])
            else if parsed.port ≠ [] ∧ validPort parsed.port = false then
              .error (.errorf "manifest: discovery %q has invalid port" [.text source.id])
            else validateSources (index + 1) (source.id :: ids) rest

def validateDiscovery (discovery : List DiscoveryEndpoint) : Except Error Unit :=
  if discovery.length = 0 ∨ 16 < discovery.length then
    .error (.new "manifest: discovery must contain between 1 and 16 entries")
  else validateSources rt 0 [] discovery

def validateEndpoint (endpoint : Endpoint) : Except Error Unit :=
  if idPattern endpoint.id = false then .error (.errorf "invalid id %q" [.text endpoint.id])
  else match splitHostPort endpoint.address with
    | none => .error (.errorf "address %q must be host:port" [.text endpoint.address])
    | some (host, portText) =>
        if validHost host = false then
          .error (.errorf "address %q must be host:port" [.text endpoint.address])
        else if validPort portText = false then
          .error (.errorf "address %q has invalid port" [.text endpoint.address])
        else if credentialPattern endpoint.credentialRef = false then
          .error (.new "credential_ref is invalid")
        else if endpoint.priority = 0 ∨ 1000 < endpoint.priority then
          .error (.new "priority must be between 1 and 1000")
        else if endpoint.transport = transportAmneziaWG then
          if endpoint.serverName ≠ [] then .error (.new "server_name is not valid for amneziawg")
          else .ok ()
        else if endpoint.transport = transportReality then
          if 253 < endpoint.serverName.length ∨ IP.parseIP endpoint.serverName = true ∨
              Host.matchesHostname endpoint.serverName = false then
            .error (.new "server_name is required for vless-reality")
          else .ok ()
        else .error (.errorf "unsupported transport %q" [.text endpoint.transport])

/-- The inner loop of `validateCatalogContents`; it returns the endpoint identifiers seen. -/
def validateEndpoints (nodeID : Bytes) :
    ℕ → List Bytes → List Endpoint → Except Error (List Bytes)
  | _, endpointIDs, [] => .ok endpointIDs
  | index, endpointIDs, endpoint :: rest =>
      match validateEndpoint endpoint with
      | .error e => .error (.wrap "manifest: node %q endpoint %d: %w" [.text nodeID, .num index] e)
      | .ok () =>
          if endpoint.id ∈ endpointIDs then
            .error (.errorf "manifest: duplicate endpoint id %q" [.text endpoint.id])
          else validateEndpoints nodeID (index + 1) (endpoint.id :: endpointIDs) rest

/-- The outer loop of `validateCatalogContents`. -/
def validateNodes : ℕ → List Bytes → List Bytes → List Node → Except Error Unit
  | _, _, _, [] => .ok ()
  | index, nodeIDs, endpointIDs, node :: rest =>
      if idPattern node.id = false then
        .error (.errorf "manifest: node %d has invalid id %q" [.num index, .text node.id])
      else if node.id ∈ nodeIDs then
        .error (.errorf "manifest: duplicate node id %q" [.text node.id])
      else if regionPattern node.region = false then
        .error (.errorf "manifest: node %q has invalid region" [.text node.id])
      else if countryPattern node.countryCode = false then
        .error (.errorf "manifest: node %q has invalid country code" [.text node.id])
      else if idPattern node.provider = false then
        .error (.errorf "manifest: node %q has invalid provider" [.text node.id])
      else if node.asn = 0 then
        .error (.errorf "manifest: node %q must have a positive ASN" [.text node.id])
      else if node.endpoints.length = 0 ∨ 16 < node.endpoints.length then
        .error (.errorf "manifest: node %q must have between 1 and 16 endpoints" [.text node.id])
      else match validateEndpoints node.id 0 endpointIDs node.endpoints with
        | .error e => .error e
        | .ok endpointIDs => validateNodes (index + 1) (node.id :: nodeIDs) endpointIDs rest

def validateCatalogContents (discovery : List DiscoveryEndpoint) (nodes : List Node) :
    Except Error Unit :=
  match validateDiscovery rt discovery with
  | .error e => .error e
  | .ok () =>
      if nodes.length = 0 ∨ 1000 < nodes.length then
        .error (.new "manifest: nodes must contain between 1 and 1000 entries")
      else validateNodes 0 [] [] nodes

def canonicalDiscovery (discovery : List DiscoveryEndpoint) : List DiscoveryEndpoint :=
  rt.sort.run (lessBy (fun d => d.priority.toNat) DiscoveryEndpoint.id) discovery

def canonicalEndpoints (endpoints : List Endpoint) : List Endpoint :=
  rt.sort.run (lessBy (fun e => e.priority.toNat) Endpoint.id) endpoints

def canonicalNode (node : Node) : Node :=
  { node with endpoints := canonicalEndpoints rt node.endpoints }

def canonicalNodes (nodes : List Node) : List Node :=
  rt.sort.run (fun left right => decide (left.id < right.id)) (nodes.map (canonicalNode rt))

/-- The catalog `CatalogDigest` encodes. -/
def canonicalCatalog (catalog : Catalog) : Catalog :=
  { revision := catalog.revision
    discovery := canonicalDiscovery rt catalog.discovery
    nodes := canonicalNodes rt catalog.nodes }

def catalogDigest (catalog : Catalog) : Except Error Bytes :=
  let canonical := canonicalCatalog rt catalog
  match validateCatalogContents rt canonical.discovery canonical.nodes with
  | .error e => .error e
  | .ok () => .ok (rt.digest canonical.marshal)

end CloudHelp.Manifest
