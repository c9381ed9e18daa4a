import AnyConverter.Lib.Text
import AnyConverter.Lib.Transducer
import AnyConverter.Lib.Ending
import AnyConverter.Lib.Json
import AnyConverter.Lib.JsonText
import AnyConverter.Lib.JsonReader
import AnyConverter.Lib.Serde
import AnyConverter.Lib.Utf8
import AnyConverter.Lib.BlankLines
import AnyConverter.Lib.LineEnds
import AnyConverter.Lib.Runs
import AnyConverter.Lib.Largest
import AnyConverter.Lib.Migration
import AnyConverter.Ir
import AnyConverter.Sse
import AnyConverter.Shared
import AnyConverter.Formats.Claude.Types
import AnyConverter.Formats.Claude.Read
import AnyConverter.Formats.Claude.Build
import AnyConverter.Formats.Claude.Stream
import AnyConverter.Formats.Claude.StreamShape
import AnyConverter.Formats.OpenAIChat.Types
import AnyConverter.Formats.OpenAIChat.Read
import AnyConverter.Formats.OpenAIChat.Build
import AnyConverter.Formats.OpenAIChat.Stream
import AnyConverter.Formats.OpenAIChat.ToolTurns
import AnyConverter.Formats.Gemini.Types
import AnyConverter.Formats.Gemini.Read
import AnyConverter.Formats.Gemini.Build
import AnyConverter.Formats.Gemini.Stream
import AnyConverter.Formats.Gemini.Pairing
import AnyConverter.Formats.Gemini.ResponseNames
import AnyConverter.Formats.OpenAIResp.Types
import AnyConverter.Formats.OpenAIResp.Seal
import AnyConverter.Formats.OpenAIResp.Read
import AnyConverter.Formats.OpenAIResp.Build
import AnyConverter.Formats.OpenAIResp.Stream
import AnyConverter.Formats.OpenAIResp.Items
import AnyConverter.Formats.OpenAIResp.ItemNumbering
import AnyConverter.Converters.Body
import AnyConverter.Converters.Stream
import AnyConverter.Converters.Terminal
import AnyConverter.Converters.Ending
import AnyConverter.Converters.Writing
import AnyConverter.Converters.Reply
import AnyConverter.Converters.StopReasons
import AnyConverter.Converters.ClaudeFidelity
import AnyConverter.Converters.ResponsesCalls
import AnyConverter.Converters.GeminiCalls
import AnyConverter.Converters.SealedThinking
import AnyConverter.Formats.OpenAIChat.StreamIds
import AnyConverter.Formats.OpenAIChat.ChunkText
import AnyConverter.Converters.ChatRoundTrip
import AnyConverter.Converters.Usage
import AnyConverter.Converters.RoundTrip
import AnyConverter.Converters.SameFormat.Claude
import AnyConverter.Converters.SameFormat.OpenAIChat
import AnyConverter.Converters.SameFormat.Gemini
import AnyConverter.Converters.SameFormat.OpenAIResponses
import AnyConverter.Converters.SameFormat
import AnyConverter.Converters.ForeignSignatures
import AnyConverter.Converters.Effort
import AnyConverter.Converters.PassedEvents
import AnyConverter.Converters.ClaudeRoundTrip
import AnyConverter.Converters.ChatToClaude
import AnyConverter.Server.Proxy
import AnyConverter.Server.SecretStore
import AnyConverter.Server.Accounts.Resolver
import AnyConverter.Server.Accounts.Rotation
import AnyConverter.Server.Accounts.TokenManager
import AnyConverter.Server.Accounts.SignIn
import AnyConverter.Server.Accounts.Stored
import AnyConverter.Server.Accounts.Import
import AnyConverter.Server.Registry.Calls
import AnyConverter.Server.Registry.FailedCalls
import AnyConverter.Server.Registry.Drift
import AnyConverter.Server.Registry.Disconnected
import AnyConverter.Server.Registry.Keys
import AnyConverter.Server.Chunks
import AnyConverter.Server.Namespace
import AnyConverter.Server.Failover
import AnyConverter.Server.FailoverBound
import AnyConverter.Server.Routing.Plan
import AnyConverter.Server.Routing.Quota
import AnyConverter.Server.Routing.RoundRobin
import AnyConverter.Server.Routing.ModelRoutes
import AnyConverter.Server.Routing.ModelMap
import AnyConverter.Server.Routing.Catalog
import AnyConverter.Server.UpstreamHeaders
import AnyConverter.Server.SignIn.Tasks
import AnyConverter.Server.SignIn.Cancel
import AnyConverter.Server.SignIn.States
import AnyConverter.Server.LockFile
import AnyConverter.Server.PluginAuth
import AnyConverter.Wiring.Edit.Basic
import AnyConverter.Wiring.Edit.Jsonc
import AnyConverter.Wiring.Edit.Dotenv
import AnyConverter.Wiring.Edit.Assignments
import AnyConverter.Wiring.Edit.DotenvLaws
import AnyConverter.Wiring.Edit.Toml
import AnyConverter.Wiring.Edit.Presence
import AnyConverter.Wiring.Edit.Stripped
import AnyConverter.Wiring.Edit.Placed
import AnyConverter.Wiring.Edit.Parsed
import AnyConverter.Wiring.Edit.Documents
import AnyConverter.Wiring.Edit.Comments
import AnyConverter.Wiring.Edit.Paths
import AnyConverter.Wiring.Edit.Layout
import AnyConverter.Wiring.Edit.Inserted
import AnyConverter.Wiring.Edit.Written
import AnyConverter.Wiring.Files
import AnyConverter.Wiring.Spec.Basic
import AnyConverter.Wiring.Spec.Agents
import AnyConverter.Wiring.Wiring
import AnyConverter.Wiring.Spec.Probe
import AnyConverter.Wiring.FailedConnect
import AnyConverter.Wiring.IdleDisconnect
import AnyConverter.Wiring.Pristine
import AnyConverter.Converters.Reassembly.Client
import AnyConverter.Converters.Reassembly.Whole
import AnyConverter.Converters.Reassembly.ClaudeCut
import AnyConverter.Converters.Reassembly.ChatCut
import AnyConverter.Converters.Reassembly.Streamed
import AnyConverter.Converters.Reassembly.Reasoning
import AnyConverter.Converters.Reassembly.ToClaude
import AnyConverter.Converters.Reassembly.ToGemini
import AnyConverter.Converters.Reassembly.FromClaude
import AnyConverter.Converters.Reassembly.ChatCalls
import AnyConverter.Converters.Reassembly.FromChat
import AnyConverter.Converters.Reassembly
import AnyConverter.Server.RequestLog.Usage
import AnyConverter.Server.RequestLog.Pricing
import AnyConverter.Server.RequestLog.PriceTable
import AnyConverter.Server.RequestLog.Redactor
import AnyConverter.Server.Period.Resolve
import AnyConverter.Server.Period.Bounds
import AnyConverter.Server.Period.Mirror
import AnyConverter.Server.Storage.Write
import AnyConverter.Server.Storage.Transaction
import AnyConverter.Server.Storage.Maintenance
import AnyConverter.Server.Storage.Schema
import AnyConverter.Server.Storage.Rollup
import AnyConverter.Server.Storage.Retention
import AnyConverter.Server.Storage.Query
import AnyConverter.Server.Storage.Views
import AnyConverter.Server.Storage.Week
import AnyConverter.Server.Storage.Summary
import AnyConverter.Server.Storage.Sections
import AnyConverter.Server.Storage.AccountSections
import AnyConverter.Server.Storage.AccountSummary
import AnyConverter.Server.Storage.LedgerCsv
import AnyConverter.Server.Storage.LedgerSearch
import AnyConverter.Server.Storage.LedgerPages
import AnyConverter.Lib.Wildcard
import AnyConverter.Lib.Canonical
import AnyConverter.Lib.Crash
import AnyConverter.Server.Routing.GlobMatch
import AnyConverter.Wiring.CatalogDigest
import AnyConverter.Server.Recovery
import AnyConverter.Server.SecretStoreCrash
import AnyConverter.Server.PluginAuthCrash
import AnyConverter.Server.SignIn.PluginFlow
import AnyConverter.Server.SignIn.Retention
import AnyConverter.Server.SignIn.Query
import AnyConverter.Server.SignIn.Pkce
import AnyConverter.Server.SignIn.Device
import AnyConverter.Lib.Segmented
import AnyConverter.Server.RequestLog.Segments
import AnyConverter.Server.RequestLog.Writer
import AnyConverter.Server.Plugins.Transport
import AnyConverter.Server.Plugins.Answers
import AnyConverter.Server.Plugins.Release
import AnyConverter.Server.Plugins.Hosts
