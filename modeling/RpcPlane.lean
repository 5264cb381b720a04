import RpcPlane.Keyed
import RpcPlane.Transition
import RpcPlane.Json
import RpcPlane.Config
import RpcPlane.Tips
import RpcPlane.Circuit
import RpcPlane.CircuitRuns
import RpcPlane.Outcome
import RpcPlane.Health
import RpcPlane.Router
import RpcPlane.Classify
import RpcPlane.Dispatch
import RpcPlane.Sequential
import RpcPlane.SequentialLaw
import RpcPlane.BatchAnswers
import RpcPlane.SequentialMiss
import RpcPlane.Broadcast
import RpcPlane.Handle
import RpcPlane.HistoryRouting
import RpcPlane.Interleaving
import RpcPlane.WriteRouting
import RpcPlane.Recovery
import RpcPlane.RateCap
import RpcPlane.Explained
import RpcPlane.Refinement
import RpcPlane.BroadcastOrder
import RpcPlane.CircuitLaw
import RpcPlane.Drift
import RpcPlane.RouteLaw
import RpcPlane.AgeIndex
import RpcPlane.Historical
import RpcPlane.Evictions
import RpcPlane.HistoricalJob
import RpcPlane.WindowLaw
import RpcPlane.HistoricalQueue
import RpcPlane.HistoricalTotals
import RpcPlane.HistoricalConservation
import RpcPlane.ByteReader
import RpcPlane.OneOutcome
import RpcPlane.Transaction
import RpcPlane.ComputeBudget
import RpcPlane.ShortVec
import RpcPlane.LegacyFormat
import RpcPlane.V1Format
import RpcPlane.ErrorWindow
import RpcPlane.ScoreLaw
import RpcPlane.FailoverLaw
import RpcPlane.Aggregator
import RpcPlane.AggregatorLaw
import RpcPlane.TransactionAnalytics
import RpcPlane.FlushTask
import RpcPlane.FlushBarrier
import RpcPlane.HotReload
import RpcPlane.KeyedPass
import RpcPlane.Standing
import RpcPlane.HotReloadLaw
import RpcPlane.ProbeLaw
import RpcPlane.HashJson
import RpcPlane.Labels
import RpcPlane.HashJsonClash
import RpcPlane.ByteBudget
import RpcPlane.Lifecycles
import RpcPlane.BucketLaw
import RpcPlane.PostSize
import RpcPlane.DecodeRequest
import RpcPlane.Truncation
import RpcPlane.DecodeSafety
import RpcPlane.DecodeTruncation
import RpcPlane.StartUp
import RpcPlane.CompactU16
import RpcPlane.Shares
import RpcPlane.WeightedRandom
import RpcPlane.OrderStatistic
import RpcPlane.Percentiles
import RpcPlane.ProviderView
import RpcPlane.RateLaw
import RpcPlane.ForwardAccounts
import RpcPlane.Admission
import RpcPlane.AnalyticsLedgers
import RpcPlane.AnalyticsFlush
import RpcPlane.FlushAccount
import RpcPlane.FlushDelivery
import RpcPlane.ProbeGrid
import RpcPlane.Sampling
import RpcPlane.SlotHistory
import RpcPlane.SamplingLaw
import RpcPlane.Shutdown
