import TokenBill.Core.PublishSafe
import TokenBill.Core.RescopePublished
import TokenBill.Core.ShapleyAxioms
import TokenBill.Store.Atomic
import TokenBill.Store.Twice
import TokenBill.Adapters.TeamRollupPrivate
import TokenBill.Adapters.VscodeCollectOnce
import TokenBill.Copilot.BudgetsAddUp
import TokenBill.Copilot.SummariesExplained
import TokenBill.Copilot.CellGameFair
import TokenBill.Copilot.MergeUnits
import TokenBill.Copilot.HandoffMerge
import TokenBill.Finops.Allocation
import TokenBill.Copilot.FocusRowsBill
import TokenBill.Plan.Efficient
import TokenBill.Plan.Accounted
import TokenBill.Recon.Conserves
import TokenBill.Verify.PanelRefines
import TokenBill.Store.Versions
import TokenBill.Copilot.RecordStoreOrder
import TokenBill.Copilot.CountUsersBound
import TokenBill.Pool.CellsConserve
import TokenBill.Pool.OpenMonths
import TokenBill.Pool.SeatChanges
import TokenBill.Pool.Overage
import TokenBill.Core.ServerTools
import TokenBill.Adapters.ClaudeLines
import TokenBill.Sim.CalibrateBatches
import TokenBill.Sim.ReplayMoves
import TokenBill.Adapters.FingerprintAgree
import TokenBill.Adapters.FingerprintCache
import TokenBill.Adapters.LanesSearch
import TokenBill.Verify.ReceiptsSound
import TokenBill.Adapters.RawUsageStable
import TokenBill.Verify.WashoutExcludes
import TokenBill.Verify.RolloutValid
import TokenBill.Detect.CacheMissBilled
import TokenBill.Adapters.TraceWriterAtomic
import TokenBill.Core.Lanes
import TokenBill.Core.Shards
import TokenBill.Adapters.OtelNested
import TokenBill.Sim.CacheReplaySound
import TokenBill.Verify.GateExact
import TokenBill.Recon.MergeFlat
import TokenBill.Adapters.VendorExact
import TokenBill.Adapters.SmallGroups
import TokenBill.Detect.Runaway
import TokenBill.Plan.AttachShapley
import TokenBill.Adapters.ShutdownRollups
import TokenBill.Copilot.TeamPacksApart
import TokenBill.Copilot.SeatCounts
import TokenBill.Adapters.OtelMetrics
import TokenBill.Outputs.FocusCosts
