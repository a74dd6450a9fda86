import QuantForge.Common.TickDisruptor
import QuantForge.Common.SpscThreads
import QuantForge.Oms.Redelivery
import QuantForge.Oms.FillAdmission
import QuantForge.Oms.FillCrediting
import QuantForge.Portfolio.Accounting
import QuantForge.Portfolio.Attribution
import QuantForge.Engine.FillPath
import QuantForge.Engine.PaperFeed
import QuantForge.Strategy.PositionLimit
import QuantForge.Risk.IntChecks
import QuantForge.Risk.MarketSession
import QuantForge.Risk.RateLimit
import QuantForge.Strategy.StrategyIdentity
import QuantForge.Ems.Placement
import QuantForge.Ems.SlicedOrders
import QuantForge.Ems.FinishedOrders
import QuantForge.MarketData.CandleGroups
import QuantForge.Main.PriceCache
import QuantForge.Main.MarketValue
import QuantForge.Main.FillDelivery
import QuantForge.Main.KillSwitch
import QuantForge.Main.InstrumentIdentity
import QuantForge.Main.Config
import QuantForge.Strategy.MomentumShutdown
import QuantForge.Portfolio.MarkToMarket
import QuantForge.Portfolio.SnapshotTotals
import QuantForge.Portfolio.FillLoop
import QuantForge.Oms.AverageFill
import QuantForge.Oms.PlacementFailure
import QuantForge.Oms.Sweep
import QuantForge.Strategy.PositionCap
import QuantForge.Strategy.IndicatorReads
import QuantForge.Common.ArenaAllocator
import QuantForge.Library.JsonText
import QuantForge.MarketData.Staleness
import QuantForge.MarketData.Subscriptions
import QuantForge.Transport.KafkaPublisher
import QuantForge.Transport.RedisClient
import QuantForge.Transport.RedisFlush
import QuantForge.Transport.RedisThreads
import QuantForge.MarketData.WsConnection
import QuantForge.Library.ExpAverage
import QuantForge.Library.Grouping
import QuantForge.MarketData.CandleRollup
import QuantForge.MarketData.TickPipeline
import QuantForge.Oms.PaperMode
import QuantForge.Oms.StateMachineThreads
import QuantForge.Strategy.EntrySignals
import QuantForge.Engine.PaperSession
import QuantForge.Library.GeneralFormat
import QuantForge.Library.Wire
import QuantForge.Main.LossLockout
import QuantForge.Risk.OrderFlow
import QuantForge.Strategy.StrategyThreads
import QuantForge.Transport.KafkaTopics
import QuantForge.Transport.PositionMirror
import QuantForge.Ems.PlacementBodies
import QuantForge.Library.Regex
import QuantForge.Main.CandleDelivery
import QuantForge.MarketData.ConnectionTrace
import QuantForge.Transport.RedisUrl
import QuantForge.Common.DisruptorThreads
