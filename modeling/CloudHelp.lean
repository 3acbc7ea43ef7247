import CloudHelp.AcceptedUrls
import CloudHelp.Affixes
import CloudHelp.Agreement
import CloudHelp.ApiClients
import CloudHelp.ApiProgress
import CloudHelp.ApiRuns
import CloudHelp.ArtifactFetch
import CloudHelp.ArtifactLock
import CloudHelp.ArtifactPublication
import CloudHelp.ArtifactSafety
import CloudHelp.Availability
import CloudHelp.Base64Url
import CloudHelp.Catalog
import CloudHelp.CatalogOrder
import CloudHelp.ClientRun
import CloudHelp.ClientSafety
import CloudHelp.Continuity
import CloudHelp.Directory
import CloudHelp.DiscoveryBudget
import CloudHelp.DiscoveryClient
import CloudHelp.DiscoveryFallback
import CloudHelp.Equivocation
import CloudHelp.FileTree
import CloudHelp.GoValues
import CloudHelp.GroupBy
import CloudHelp.Hosts
import CloudHelp.Issuance
import CloudHelp.Issuer
import CloudHelp.IssuerCalls
import CloudHelp.IssuerInvariant
import CloudHelp.IssuerMonitor
import CloudHelp.IssuerSafety
import CloudHelp.IssuerSpec
import CloudHelp.IssuerStart
import CloudHelp.IssuerSystem
import CloudHelp.JsonDecoding
import CloudHelp.JsonEncoding
import CloudHelp.JsonLayout
import CloudHelp.JsonReading
import CloudHelp.JsonText
import CloudHelp.JsonUnquote
import CloudHelp.KeyFiles
import CloudHelp.KeyPolicy
import CloudHelp.KeyPolicyPartition
import CloudHelp.Lists
import CloudHelp.Manifest
import CloudHelp.ManifestAPI
import CloudHelp.ManifestDecoding
import CloudHelp.ManifestFiles
import CloudHelp.ManifestJson
import CloudHelp.ManifestSpec
import CloudHelp.ManifestTypes
import CloudHelp.Monitor
import CloudHelp.NodeObservations
import CloudHelp.PilotAPI
import CloudHelp.PilotAccess
import CloudHelp.PilotAudit
import CloudHelp.PilotMetrics
import CloudHelp.PilotReport
import CloudHelp.PilotStore
import CloudHelp.PilotTelemetry
import CloudHelp.Planner
import CloudHelp.PlannerSpec
import CloudHelp.PolicyIdentity
import CloudHelp.PolicyTool
import CloudHelp.Prometheus
import CloudHelp.Provisioning
import CloudHelp.RankDiversity
import CloudHelp.RankOrder
import CloudHelp.ReadCommitted
import CloudHelp.ReportTotals
import CloudHelp.RequestURI
import CloudHelp.Restart
import CloudHelp.RetryTime
import CloudHelp.RevokeRoute
import CloudHelp.Rfc3339
import CloudHelp.Rotation
import CloudHelp.RotationRun
import CloudHelp.RoundTrip
import CloudHelp.Runs
import CloudHelp.Selection
import CloudHelp.SigningKey
import CloudHelp.SortSlice
import CloudHelp.TelemetryChecks
import CloudHelp.TelemetryRuns
import CloudHelp.TelemetryStore
import CloudHelp.Tiling
import CloudHelp.TimeReading
import CloudHelp.Unicode
import CloudHelp.Utf8
