import GuiShell.Bytes
import GuiShell.Sha256
import GuiShell.Hmac
import GuiShell.HashChain
import GuiShell.CheckedRun
import GuiShell.Files
import GuiShell.SortedMap
import GuiShell.Dict
import GuiShell.Decimal
import GuiShell.Calendar
import GuiShell.Json.Value
import GuiShell.Json.Text
import GuiShell.Json.RoundTrip
import GuiShell.Json.Escapers
import GuiShell.Json.Parts
import GuiShell.Json.Renaming
import GuiShell.Json.KeyOrder
import GuiShell.Json.Schema
import GuiShell.Json.Trailing
import GuiShell.JsonLines
import GuiShell.PythonJson
import GuiShell.PythonRecords
import GuiShell.Utf16
import GuiShell.PathWalk
import GuiShell.AgentRuntime
import GuiShell.AuditHash
import GuiShell.Broker.Audit
import GuiShell.Broker.AuditBinding
import GuiShell.Broker.Serde
import GuiShell.Broker.Canonical
import GuiShell.Broker.Crates
import GuiShell.Broker.AuthorityTokens
import GuiShell.Broker.Authority
import GuiShell.Broker.AuthorityWords
import GuiShell.Broker.AuthorityNormalForm
import GuiShell.Broker.AuthoritySpellings
import GuiShell.Broker.AuthorityNormalize
import GuiShell.Broker.StoreRecords
import GuiShell.Broker.Store
import GuiShell.Broker.ReplayNonces
import GuiShell.Broker.Directory
import GuiShell.Broker.AnchorKey
import GuiShell.Broker.NonceCap
import GuiShell.Broker.Time
import GuiShell.Broker.CivilDays
import GuiShell.Broker.TimeGrammar
import GuiShell.Broker.TimeArithmetic
import GuiShell.Broker.TimeRoundTrip
import GuiShell.Broker.Protocol
import GuiShell.Broker.Calls
import GuiShell.Broker.ResponseAudit
import GuiShell.Broker.CallerAuthority
import GuiShell.Broker.AuthorityCoherence
import GuiShell.Broker.MetadataGate
import GuiShell.Broker.GateSoundness
import GuiShell.Broker.ResponseSchema
import GuiShell.Broker.Runs
import GuiShell.Broker.IpcServer
import GuiShell.Broker.LineReading
import GuiShell.Broker.ConnectionAudit
import GuiShell.Broker.Shutdown
import GuiShell.Broker.Reopening
import GuiShell.Broker.AuditDurability
import GuiShell.Broker.ReplaySafety
import GuiShell.Broker.AuthorityChain
import GuiShell.ShellCore.CanonicalHash
import GuiShell.ShellCore.Normalization
import GuiShell.ShellCore.SchemaValidation
import GuiShell.ShellCore.AdapterLoader
import GuiShell.ShellCore.RuntimeState
import GuiShell.ShellCore.StateSnapshot
import GuiShell.ShellCore.ApprovalQueue
import GuiShell.ShellCore.Specs
import GuiShell.ShellCore.PythonValues
import GuiShell.ShellCore.PolicyEvaluator
import GuiShell.ShellCore.AuditChain
import GuiShell.ShellCore.AuditStore
import GuiShell.ShellCore.AuditLog
import GuiShell.ShellCore.Persistence
import GuiShell.ShellCore.DurableLog
import GuiShell.ShellCore.LogRecovery
import GuiShell.ShellCore.TamperedLog
import GuiShell.ShellCore.Laundering
import GuiShell.CanonicalParity
import GuiShell.NormalForms
import GuiShell.NormalizationParity
import GuiShell.NormalizationSpellings
import GuiShell.Authorization
import GuiShell.ShellCore.SensitiveActionRouter
import GuiShell.ShellCore.RegistrationHistory
import GuiShell.Broker.ReadValues
import GuiShell.MetadataParity
import GuiShell.LoadedAdapters
import GuiShell.PolicyParity
import GuiShell.PortableValues
import GuiShell.AuditChainParity
import GuiShell.NormalizationFirewall
import GuiShell.ApprovalBinding
import GuiShell.ContentProjection
import GuiShell.AdapterApproval
import GuiShell.ApprovalEdits
import GuiShell.EditParity
import GuiShell.ProjectionParity
import GuiShell.Tooling.CheckSchemas
import GuiShell.Tooling.ReleaseGate
import GuiShell.Desktop.BrokerClient
import GuiShell.Desktop.BrokerRequest
import GuiShell.Desktop.Sha256
import GuiShell.Desktop.NativeRange
import GuiShell.Desktop.ShellCoreClient
import GuiShell.ClientParity
import GuiShell.RemoteCall
import GuiShell.ClientRequests
import GuiShell.ClientSession
