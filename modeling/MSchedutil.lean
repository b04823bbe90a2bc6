import MSchedutil.Word
import MSchedutil.Transition
import MSchedutil.FloorDecay
import MSchedutil.SchedAvg
import MSchedutil.DecayLoad
import MSchedutil.DecayOrder
import MSchedutil.Track
import MSchedutil.PeriodSum
import MSchedutil.SumBound
import MSchedutil.CoreMemorySplit
import MSchedutil.CapacityBound
import MSchedutil.Governor
import MSchedutil.GovernorUpdate
import MSchedutil.PolicyRequest
import MSchedutil.FreqCache
import MSchedutil.ForcedUpdate
import MSchedutil.FreqSystem
import MSchedutil.FreqTransition
import MSchedutil.CfsRq
import MSchedutil.Ledger
import MSchedutil.TrackOps
import MSchedutil.Aggregation
import MSchedutil.LoadOps
import MSchedutil.StockSignals
import MSchedutil.FlagWindows
import MSchedutil.SchedCore
import MSchedutil.SchedSteps
import MSchedutil.StallWindow
import MSchedutil.RateLimit
import MSchedutil.PerfMargin
import MSchedutil.SharedMargin
import MSchedutil.Balance
import MSchedutil.MemoryAware
import MSchedutil.BoostRatio
import MSchedutil.SharedRequest
import MSchedutil.StallRatio
import MSchedutil.GovernorSetup
import MSchedutil.SetupBalance
import MSchedutil.RateDelays
import MSchedutil.Meter
import MSchedutil.SchedClocks
import MSchedutil.WorkMeter
import MSchedutil.BusyTime
import MSchedutil.IdleTime
import MSchedutil.PeriodCounter
import MSchedutil.PeriodSplit
import MSchedutil.FreqProduct
import MSchedutil.UpdateLoad
import MSchedutil.RemovalReach
import MSchedutil.TouchesOnly
import MSchedutil.TaskTick
import MSchedutil.TickRatio
import MSchedutil.NewTasks
import MSchedutil.CalcDelta
import MSchedutil.Bandwidth
import MSchedutil.FairRq
import MSchedutil.FairOps
import MSchedutil.Shape
import MSchedutil.FairShape
import MSchedutil.Levels
import MSchedutil.Climb
import MSchedutil.FairLevels
import MSchedutil.FairRuntime
import MSchedutil.FairPick
import MSchedutil.FairRun
import MSchedutil.Counts
import MSchedutil.FairReach
import MSchedutil.FairOrder
import MSchedutil.FairChoice
import MSchedutil.FairFast
import MSchedutil.FairSlice
import MSchedutil.BandwidthRun
