import Watchlist.Library.Transition
import Watchlist.Library.Bytes
import Watchlist.Library.Faulty
import Watchlist.Library.KeyedMap
import Watchlist.Library.Sqlite
import Watchlist.Library.PragmaText
import Watchlist.Concurrency.ThreadPoolManager
import Watchlist.Dispatch.Acknowledgements
import Watchlist.Library.SqlTokens
import Watchlist.Storage.DatabaseItem
import Watchlist.Storage.DeviceMap
import Watchlist.Storage.Initialize
import Watchlist.Storage.Refinement
import Watchlist.Gui.AcceptedCommands
import Watchlist.Gui.DeviceView
import Watchlist.Gui.EditorValidation
import Watchlist.Dispatch.ReadableAcks
import Watchlist.Library.Threads
import Watchlist.Mqtt.AppState
import Watchlist.Mqtt.ConnectionStatus
import Watchlist.Mqtt.ConsoleForm
import Watchlist.Mqtt.Disconnecting
import Watchlist.Mqtt.Operations
import Watchlist.Mqtt.StopRequests
import Watchlist.Mqtt.Subscriptions
import Watchlist.Concurrency.EventQueue
import Watchlist.Concurrency.EventLoopGenerator
import Watchlist.Concurrency.Submissions
import Watchlist.Concurrency.Shutdown
import Watchlist.Concurrency.Wakeups
import Watchlist.Dispatch.AcceptanceOrder
import Watchlist.Gui.LocalReplay
import Watchlist.Logger.IncrementalReading
import Watchlist.Messaging.Envelope
import Watchlist.Mqtt.Outbound
import Watchlist.Mqtt.TopicFilters
import Watchlist.Storage.SchemaErrors
import Watchlist.Storage.UserObjects
import Watchlist.Library.Script
import Watchlist.Server.Coexistence
import Watchlist.Dispatch.AckRoutes
import Watchlist.Storage.AddressGrammar
import Watchlist.Storage.ItemConstraints
import Watchlist.Storage.SchemaText
import Watchlist.Storage.InitializeContract
import Watchlist.Mqtt.MessageFanOut
import Watchlist.Concurrency.SequenceResults
import Watchlist.Concurrency.Punctuality
import Watchlist.Library.Utf8Chars
import Watchlist.Storage.TextEncoding
import Watchlist.Concurrency.Construction
import Watchlist.Mqtt.RejectedConnect
import Watchlist.Storage.HostnameGrammar
import Watchlist.Library.Decimals
import Watchlist.Library.Simulation
import Watchlist.Messaging.ConsoleRequest
import Watchlist.Protocol.Network
import Watchlist.Protocol.OneAnswer
import Watchlist.Gui.GuiLifecycle
import Watchlist.Concurrency.TaskWaiting
import Watchlist.Concurrency.LoopNotifications
import Watchlist.Concurrency.LoopWakeups
import Watchlist.Concurrency.CoroutineSettlement
import Watchlist.Server.Lifetime
import Watchlist.Application.DesktopRun
import Watchlist.Application.ExitCode
import Watchlist.Application.Completion
import Watchlist.Gui.ApplicationLogWindow
