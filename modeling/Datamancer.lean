import Datamancer.Core.Event
import Datamancer.Core.Error
import Datamancer.Core.Traits
import Datamancer.Core.Loss
import Datamancer.Lib.HalfOpen
import Datamancer.Lib.KeyedTable
import Datamancer.Lib.ActionSystem
import Datamancer.Lib.Channel
import Datamancer.Lib.EvictRing
import Datamancer.Storage.Coverage
import Datamancer.Storage.Turso
import Datamancer.Storage.Timeline
import Datamancer.Storage.ReplayLaw
import Datamancer.Storage.Isolation
import Datamancer.Storage.Agreement
import Datamancer.Lib.TxStore
import Datamancer.Storage.TapNames
import Datamancer.Storage.TapLog
import Datamancer.Storage.TapContents
import Datamancer.Storage.TapWriter
import Datamancer.Storage.TapRefinement
import Datamancer.Storage.TapRegistry
import Datamancer.Session.Tile
import Datamancer.Session.Controller
import Datamancer.Session.Segments
import Datamancer.Session.LossAccounting
import Datamancer.Session.HonestCoverage
import Datamancer.Session.Uninterrupted
import Datamancer.Session.ReadThrough
import Datamancer.Session.Transparency
import Datamancer.Session.Live
import Datamancer.Session.Seam
import Datamancer.Session.Consumer
import Datamancer.Session.Closing
import Datamancer.Session.ForcedClose
import Datamancer.Providers.AlpacaHistory
import Datamancer.Providers.ExactlyOnce
import Datamancer.Live.Registry
import Datamancer.Live.WellFormed
import Datamancer.Live.Opening
import Datamancer.Live.FanOut
import Datamancer.Live.FanOutLoss
import Datamancer.Live.Singleton
import Datamancer.Live.Connection
import Datamancer.Client.Sink
import Datamancer.Client.Ledger
import Datamancer.Client.Controller
import Datamancer.Client.Multiplex
import Datamancer.Client.Ordering
import Datamancer.Client.ResumeRing
import Datamancer.Client.Coalesce
import Datamancer.Client.Surfacing
import Datamancer.Client.ForcedClose
import Datamancer.Providers.AlpacaHub
import Datamancer.Providers.AlpacaStream
import Datamancer.Providers.HubTrace
import Datamancer.Providers.HubSets
import Datamancer.Providers.HubWaits
import Datamancer.Providers.Turnover
import Datamancer.Providers.HubLoop
import Datamancer.Providers.ParkReason
import Datamancer.Providers.LiveRouting
import Datamancer.Lib.WeakLocks
import Datamancer.Session.SingleFlight
import Datamancer.Session.Coalescing
import Datamancer.Session.SharedOptions
import Datamancer.Lib.HoldQueue
import Datamancer.Lib.WatchChannel
import Datamancer.Lib.Text
import Datamancer.Transport.SymbolTable
import Datamancer.Transport.Payload
import Datamancer.Transport.Sink
import Datamancer.Transport.Subscriber
import Datamancer.Transport.Delivery
import Datamancer.Transport.RoundTrip
import Datamancer.Transport.Wire
import Datamancer.Transport.Naming
import Datamancer.Daemon.ControlServer
import Datamancer.Daemon.Ownership
import Datamancer.Daemon.Registry
import Datamancer.Lib.Calendar
import Datamancer.Daemon.Rfc3339
import Datamancer.Daemon.StorePaths
import Datamancer.Lib.ReplaceFile
import Datamancer.Daemon.ConfigHub
import Datamancer.Daemon.ConfigAgreement
import Datamancer.Lib.WriteLog
import Datamancer.Daemon.CredentialHub
import Datamancer.Daemon.CredentialAgreement
import Datamancer.Daemon.WsConnection
import Datamancer.Daemon.WsDelivery
import Datamancer.Lib.Oneshot
import Datamancer.Remote.Iceoryx2Client
import Datamancer.Remote.QueryLifecycle
import Datamancer.Lib.ReplyTable
import Datamancer.Remote.WsClient
import Datamancer.Remote.RequestTable
import Datamancer.Health.Stats
import Datamancer.Health.View
import Datamancer.Health.Runs
import Datamancer.Session.Routing
import Datamancer.Lib.RebuildOnUse
import Datamancer.Providers.RestClients
import Datamancer.Daemon.Boot
import Datamancer.Daemon.SingleInstance
import Datamancer.Client.Lifecycle
import Datamancer.Daemon.ConfigTokens
import Datamancer.Storage.Catalog
import Datamancer.Session.Seed
import Datamancer.Lib.KeyTree
import Datamancer.Daemon.ConfigClass
import Datamancer.Daemon.WsHandshake
import Datamancer.Lib.Permits
import Datamancer.Daemon.WsListener
import Datamancer.Lib.Completion
import Datamancer.Session.Progress
import Datamancer.Daemon.QueryPump
