import Veesker.Safety.BulkDml
import Veesker.Sidecar.Unlock
import Veesker.Sidecar.Confirmation
import Veesker.Command.Agree
import Veesker.Sidecar.ReadOnly
import Veesker.Sidecar.Ungated
import Veesker.Sidecar.Transaction
import Veesker.Audit.Edits
import Veesker.Vsk.Versions
import Veesker.Cloud.OpenClose
import Veesker.Cloud.SandboxPaths
import Veesker.Ai.Prompt
import Veesker.Ai.ToolCalls
import Veesker.Sidecar.Origin
import Veesker.Cloud.LastSeen
import Veesker.Sidecar.QueryRun
import Veesker.Cloud.Republish
import Veesker.Wizard.Publish
import Veesker.Wizard.Fresh
import Veesker.Host.SidecarCall
import Veesker.Host.Save
import Veesker.Host.ConnectString
import Veesker.Host.Requests
import Veesker.Host.Migrate
import Veesker.Editor.Switch
import Veesker.Sidecar.DebugSlot
import Veesker.Host.QueryAudit
import Veesker.Editor.Dialogs
import Veesker.Editor.Capture
import Veesker.Editor.TxModal
import Veesker.Cloud.StaleCache
import Veesker.Sidecar.DebugEvents
import Veesker.Sandbox.Dependencies
import Veesker.Cloud.OpenBytes
import Veesker.Shim.Translate
import Veesker.Sandbox.Reach
import Veesker.Sandbox.FkVia
import Veesker.Shim.DecodeNull
import Veesker.Sandbox.TypeAgree
import Veesker.Command.Formatter
import Veesker.Editor.Cursor
import Veesker.Editor.SingleText
import Veesker.Command.ScriptRun
import Veesker.Wizard.Tables
import Veesker.Perf.Latest
import Veesker.Debugger.Placeholders
import Veesker.Debugger.Sessions
import Veesker.Sidecar.PlanFlow
import Veesker.Sidecar.VisionReach
import Veesker.Export.InsertRead
import Veesker.Pii.Clean
import Veesker.Vsk.Binding
import Veesker.Sidecar.Locks
import Veesker.Host.History
import Veesker.Host.WalletFiles
import Veesker.Host.TnsNames
import Veesker.Debugger.TestBlock
import Veesker.Host.Schema
import Veesker.Host.Labels
import Veesker.Host.CommandHistory
