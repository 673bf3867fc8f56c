import ShadowSpill.Library.AddressRanges
import ShadowSpill.Library.Bisection
import ShadowSpill.Library.Runs
import ShadowSpill.Library.SegmentTree
import ShadowSpill.Library.Word64
import ShadowSpill.Planner.Placement
import ShadowSpill.Planner.PlacementFit
import ShadowSpill.Planner.PlacementIndex
import ShadowSpill.Planner.PlacementLayout
import ShadowSpill.Planner.PlacementOccupancy
import ShadowSpill.Planner.PlacementOrder
import ShadowSpill.Reference.Placement
import ShadowSpill.Status
import ShadowSpill.Reference.PlacementAgreement
import ShadowSpill.Planner.Reuse
import ShadowSpill.Library.RangeLists
import ShadowSpill.Runtime.Ranges
import ShadowSpill.Runtime.RangeRequests
import ShadowSpill.Runtime.PoolRuns
import ShadowSpill.Runtime.AdmissionReplay
import ShadowSpill.Runtime.ReplayNodes
import ShadowSpill.Runtime.ReplayFrontier
import ShadowSpill.Planner.Residency.ReduceResult
import ShadowSpill.Reference.ResidencyAgreement
import ShadowSpill.Runtime.TransferQueueWindow
import ShadowSpill.Runtime.TransferRetries
import ShadowSpill.Runtime.ContractAcceptance
import ShadowSpill.Planner.Search.ArrivalOrder
import ShadowSpill.Runtime.CompletionEffects
import ShadowSpill.Ir.SelectionOutcome
import ShadowSpill.Runtime.HandoffOrders
import ShadowSpill.Network.LaneFailure
import ShadowSpill.Network.LanePipeline
import ShadowSpill.Library.RestoringDivision
import ShadowSpill.Simulator.TransferProgress
import ShadowSpill.Planner.AllocationResolution
import ShadowSpill.Library.Lockstep
import ShadowSpill.Planner.Search.ResolutionShares
import ShadowSpill.Reference.AliasAgreement
import ShadowSpill.Reference.FetchDelayAgreement
import ShadowSpill.Planner.Search.MemoTransparency
import ShadowSpill.Runtime.DestinationWaits
import ShadowSpill.Runtime.PlanClosing
import ShadowSpill.Ir.IndexLoss
import ShadowSpill.Planner.Search.ScheduleDigest
import ShadowSpill.Simulator.ScheduleCheck
import ShadowSpill.Planner.AdmissionProjection
