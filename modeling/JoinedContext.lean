import JoinedContext.Library.Text
import JoinedContext.Core.Json
import JoinedContext.Fanout.Run
import JoinedContext.Pdp.Additive
import JoinedContext.Pdp.Bleed
import JoinedContext.Pdp.OneGrant
import JoinedContext.Pdp.Prohibitions
import JoinedContext.Relationships.Batch
import JoinedContext.Relationships.Order
import JoinedContext.Fanout.Table
import JoinedContext.Fanout.Invariants
import JoinedContext.Fanout.Postings
import JoinedContext.Library.Outcome
import JoinedContext.Fanout.Keys
import JoinedContext.Fanout.Agreement
import JoinedContext.Limits.Creates
import JoinedContext.Library.Meter
import JoinedContext.Limits.RateLimit
import JoinedContext.Limits.InFlight
import JoinedContext.Pdp.Area
import JoinedContext.Auth.Subject
import JoinedContext.Pdp.Split
import JoinedContext.Auth.Groups
import JoinedContext.Jcctl.Manifest
import JoinedContext.Jcctl.Diff
import JoinedContext.Jcctl.Waves
import JoinedContext.Jcctl.Plan
import JoinedContext.Jcctl.Lanes
import JoinedContext.Jcctl.Exposure
import JoinedContext.Jcctl.Documents
import JoinedContext.Jcctl.Redact
import JoinedContext.Jcctl.Export
import JoinedContext.Jcctl.Csr
import JoinedContext.Odrl.Manifest
import JoinedContext.Odrl.Import
import JoinedContext.Odrl.Combinations
import JoinedContext.Odrl.ReadBack
import JoinedContext.Odrl.RoundTrip
import JoinedContext.Odrl.Agreement
import JoinedContext.Core.Yaml
import JoinedContext.Jcctl.Merge
import JoinedContext.Jcctl.Absorb
import JoinedContext.Jcctl.Terms
import JoinedContext.Jcctl.Tree
import JoinedContext.Jcctl.Import
import JoinedContext.Library.Ip
import JoinedContext.Library.Wildcard
import JoinedContext.Mqtt.Topics
import JoinedContext.Mqtt.Broker
import JoinedContext.Auth.Accounts
import JoinedContext.Mqtt.Connect
import JoinedContext.Mqtt.Expiry
import JoinedContext.Mqtt.Isolation
import JoinedContext.Auth.Principals
import JoinedContext.Mqtt.Brokers
import JoinedContext.Library.Url
import JoinedContext.AgentProxy.Proxy
import JoinedContext.AgentProxy.Data
import JoinedContext.AgentProxy.Forge
import JoinedContext.AgentProxy.Delegation
import JoinedContext.AgentProxy.Limits
import JoinedContext.WasmHost.Jobs
import JoinedContext.Gateway.DownloadCache
import JoinedContext.Assemble.Identities
import JoinedContext.Assemble.Addresses
import JoinedContext.Gateway.Previews
import JoinedContext.Gateway.Reach
import JoinedContext.WasmHost.Blob
import JoinedContext.Gateway.Bindings
import JoinedContext.Assemble.Reuse
import JoinedContext.Library.Utf8
import JoinedContext.Query.Codec
import JoinedContext.Query.Compound
import JoinedContext.Pdp.ScopeTerms
import JoinedContext.Pdp.ScopedWrites
import JoinedContext.Pdp.WriteNames
import JoinedContext.Pdp.Oracle
import JoinedContext.Query.Referenced
import JoinedContext.Auth.Verifier
import JoinedContext.Jcctl.ChangePath
import JoinedContext.Jcctl.Gate
import JoinedContext.Core.Address
import JoinedContext.Core.JsonText
import JoinedContext.Library.Interpolate
import JoinedContext.Library.Scan
import JoinedContext.Sources.Inputs
import JoinedContext.Sources.Secrets
import JoinedContext.Sources.Targets
import JoinedContext.Sources.Runner
import JoinedContext.Sources.Connections
import JoinedContext.Sources.DataSource
import JoinedContext.Sources.Checked
import JoinedContext.Sources.Sandbox
import JoinedContext.Pdp.Clamp
import JoinedContext.Pdp.Metadata
import JoinedContext.Pdp.Skipping
import JoinedContext.Pdp.Stripping
import JoinedContext.Pdp.MetadataQuery
import JoinedContext.Relationships.Targets
import JoinedContext.Writes.Division
import JoinedContext.Relationships.Claims
import JoinedContext.Library.Ways
import JoinedContext.Pdp.IdPatterns
import JoinedContext.Library.Arrangement
import JoinedContext.Pdp.Containment
import JoinedContext.Fanout.Coalescing
import JoinedContext.Jcctl.Windows
import JoinedContext.Gateway.Coalesce
import JoinedContext.Jcctl.Drift
import JoinedContext.Jcctl.Nest
import JoinedContext.Jcctl.Satisfaction
import JoinedContext.Limits.RetryAfter
import JoinedContext.Fanout.Resuming
import JoinedContext.Jcctl.SharedSpaces
import JoinedContext.Writes.Ingest
import JoinedContext.Writes.Minimisation
import JoinedContext.Mqtt.Networks
import JoinedContext.Library.Numeral
import JoinedContext.WasmHost.FileUrls
import JoinedContext.Jcctl.DerivedQuery
import JoinedContext.Gateway.PersonalReads
import JoinedContext.Library.Tally
import JoinedContext.Gateway.Usage
import JoinedContext.Core.Cron
import JoinedContext.Gateway.ODataWrites
import JoinedContext.AgentProxy.Llm
import JoinedContext.Writes.Units
import JoinedContext.Core.Mint
import JoinedContext.Mqtt.Allowance
import JoinedContext.Sources.EnvVars
import JoinedContext.Writes.Quality
import JoinedContext.Jcctl.Federation
import JoinedContext.Tabular.Flatten
import JoinedContext.Tabular.Table
import JoinedContext.Tabular.Collector
import JoinedContext.Tabular.Settle
import JoinedContext.Library.Csv
import JoinedContext.Tabular.Csv
import JoinedContext.Library.Pieces
import JoinedContext.Library.Zip
import JoinedContext.Sources.Archives
import JoinedContext.Sources.ArchiveReads
import JoinedContext.WasmHost.Words
import JoinedContext.Jcctl.Apply
import JoinedContext.Jcctl.Sync
import JoinedContext.AgentProxy.Doors
import JoinedContext.Writes.ContextGuard
