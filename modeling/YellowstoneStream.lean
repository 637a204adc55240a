import YellowstoneStream.App.Replay
import YellowstoneStream.Stream.Convergence
import YellowstoneStream.Storage.ChainRecords
import YellowstoneStream.Stream.Ingestion
import YellowstoneStream.Stream.Runtime
import YellowstoneStream.Stream.Pipeline
import YellowstoneStream.Reasoning.Channel
import YellowstoneStream.Storage.Cursor
import YellowstoneStream.Storage.Redelivery
import YellowstoneStream.Storage.ChainTermination
import YellowstoneStream.Stream.PipelineTrace
import YellowstoneStream.Stream.LiveProducer
import YellowstoneStream.App.Live
import YellowstoneStream.Stream.ReconnectBound
import YellowstoneStream.Reasoning.Triple
import YellowstoneStream.Stream.Accounting
import YellowstoneStream.Reasoning.GreedyWalk
import YellowstoneStream.Storage.FinalizedMap
import YellowstoneStream.Storage.ConcurrentAdvance
import YellowstoneStream.Reasoning.SharedValue
import YellowstoneStream.Stream.Reports
import YellowstoneStream.App.StatusRace
import YellowstoneStream.App.LiveStatus
import YellowstoneStream.Reasoning.Ensures
import YellowstoneStream.Reasoning.Text
import YellowstoneStream.Stream.GrpcRequest
import YellowstoneStream.App.Config
import YellowstoneStream.App.Startup
import YellowstoneStream.Storage.BindParameters
import YellowstoneStream.App.Capacity
import YellowstoneStream.App.ReplayPoint
import YellowstoneStream.Domain.Decoded
import YellowstoneStream.Domain.SwapRules
import YellowstoneStream.Storage.Swaps
import YellowstoneStream.Storage.RecordingCalls
import YellowstoneStream.Storage.DeadSlots
import YellowstoneStream.Stream.ReconnectLoop
import YellowstoneStream.Domain.Validation
import YellowstoneStream.Stream.Yellowstone
import YellowstoneStream.Stream.YellowstoneProto
import YellowstoneStream.Stream.TransactionUpdates
import YellowstoneStream.Reasoning.Base58
import YellowstoneStream.Stream.GrpcProducer
import YellowstoneStream.App.Metrics
import YellowstoneStream.App.BatchLatency
import YellowstoneStream.App.LiveRun
import YellowstoneStream.App.ReconnectStatus
import YellowstoneStream.App.DecodeErrors
import YellowstoneStream.App.AccountFilters
import YellowstoneStream.App.CompletedReplay
import YellowstoneStream.Reasoning.Lines
import YellowstoneStream.Reasoning.OrderedEntries
import YellowstoneStream.Domain.EventJson
import YellowstoneStream.Stream.ReplayFile
import YellowstoneStream.App.CrashEquivalence
import YellowstoneStream.Stream.StreamIsolation
import YellowstoneStream.Stream.InFlight
import YellowstoneStream.Storage.Api
import YellowstoneStream.Stream.SharedDatabase
import YellowstoneStream.App.ConsumerApi
import YellowstoneStream.Stream.SharedProgress
import YellowstoneStream.App.ReplayProcess
import YellowstoneStream.Stream.Announcements
import YellowstoneStream.App.RunMetrics
import YellowstoneStream.Stream.PersistedSlot
import YellowstoneStream.App.StartupText
import YellowstoneStream.App.StatusAnswer
import YellowstoneStream.App.GenerateFixture
