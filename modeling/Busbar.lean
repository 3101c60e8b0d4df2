import Busbar.Lib.Registry
import Busbar.Lib.Prog
import Busbar.Lib.Run
import Busbar.Api.Store
import Busbar.Store.Memory
import Busbar.Governance.Ops
import Busbar.Governance.Steps
import Busbar.Governance.Death
import Busbar.Governance.Freeze
import Busbar.Governance.Reloads
import Busbar.Governance.Binding
import Busbar.Auth.VerdictAge
import Busbar.Auth.Liveness
import Busbar.Proto.Chunking
import Busbar.Proto.Passthrough
import Busbar.Proto.OpenAi
import Busbar.Proto.Slotted
import Busbar.Proto.OpenAiBlocks
import Busbar.Proto.OpenAiOutput
import Busbar.Proto.Gemini
import Busbar.Proto.GeminiBlocks
import Busbar.Proto.GeminiResponse
import Busbar.Proto.GeminiAgree
import Busbar.Proto.GeminiCitations
import Busbar.Proto.GeminiCalls
import Busbar.Lib.JsonText
import Busbar.Lib.JsonMembers
import Busbar.Proto.UsageScan
import Busbar.Lib.TextLines
import Busbar.Proto.ToolIds
import Busbar.Health.SingleFlight
import Busbar.Health.Floor
import Busbar.Health.Recovery
import Busbar.Health.Swrr
import Busbar.Health.Proportional
import Busbar.Health.CarryOver
import Busbar.Health.Availability
import Busbar.Cost
import Busbar.Cost.Spend
import Busbar.Lib.Walk
import Busbar.Cost.Projection
import Busbar.Config.Restart
import Busbar.Config.Forest
import Busbar.Cost.BucketId
import Busbar.Governance.Tiling
import Busbar.Governance.Ledger
import Busbar.Governance.Metering
import Busbar.Lib.WriteBehind
import Busbar.Governance.Admit
import Busbar.Governance.Conservation
import Busbar.Governance.Eviction
import Busbar.Governance.Lifetime
import Busbar.EventStream.RoundTrip
import Busbar.Proxy.Settlement
import Busbar.Proto.Billing
import Busbar.Admin.Chain
import Busbar.Admin.Digest
import Busbar.Admin.Detach
import Busbar.Admin.Ceiling
import Busbar.Admin.Idempotency
import Busbar.Proxy.Hops
import Busbar.Store.Reissue
import Busbar.Store.Retention
import Busbar.Proto.JsonArray
import Busbar.Proto.CohereBlocks
import Busbar.Api.Durable
import Busbar.Health.Classify
import Busbar.Proto.GeminiPaths
import Busbar.Auth.Sigv4
import Busbar.Auth.SigTime
import Busbar.Auth.SigText
import Busbar.Auth.SigRoundTrip
import Busbar.Auth.SigBinding
import Busbar.Health.Budget
import Busbar.NetGuard
import Busbar.Config.LimitGrammar
import Busbar.Plugins.Trust
import Busbar.Plugins.ManifestText
import Busbar.Plugins.Binding
import Busbar.Plugins.Floors
import Busbar.Lib.Yaml
import Busbar.Config.Migrate.Ledger
import Busbar.Config.Migrate.Governance
import Busbar.Config.Migrate.Auth
import Busbar.Config.Migrate.Hooks
import Busbar.Config.Migrate.Export
import Busbar.Config.Migrate.Identity
import Busbar.Config.Migrate.Frames
import Busbar.Config.Migrate.Caps
import Busbar.Config.Migrate.CapsKept
import Busbar.Config.Migrate.CapsRun
import Busbar.Config.Migrate.Markers
import Busbar.Config.Migrate.Passes
import Busbar.Config.Migrate.Cleared
import Busbar.Config.Migrate.ClearedPools
import Busbar.Config.Migrate.ClearedExport
import Busbar.Config.Migrate.ClearedAuth
import Busbar.Config.Migrate.ClearedIdentity
import Busbar.Config.Migrate.Announced
import Busbar.Proxy.LazyBody
import Busbar.Proxy.IncludeUsage
import Busbar.Lib.Exclusive
import Busbar.Admin.Txn
import Busbar.Admin.Authority
import Busbar.Governance.Caps
import Busbar.Governance.Holds
import Busbar.Config.Versions
