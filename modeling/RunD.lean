import RunD.StrictFold
import RunD.IrSafety
import RunD.FusionLegal
import RunD.DispatchPlan
import RunD.WeightedOverflow
import RunD.HistoryRetention
import RunD.HostRoundTrip
import RunD.HandleCanonical
import RunD.PayloadReload
import RunD.FusionMeaning
import RunD.RleSpan
import RunD.CheckpointArtifact
import RunD.WindowPaths
import RunD.StorageRun
import RunD.RangeResident
import RunD.HazardOrder
import RunD.HazardChecked
import RunD.RadixSorted
import RunD.ScatterHistory
import RunD.ScatterReduceAgree
import RunD.RangeTraffic
import RunD.SpillCacheRuns
import RunD.TimerRuns
import RunD.RawCaptureRuns
import RunD.PayloadBindExact
import RunD.ChannelDelivery
import RunD.BalancedPlan
import RunD.Bisection
import RunD.CapacityPlan
import RunD.FixedArithmetic
import RunD.FixedSqrt
import RunD.ReadyQueue
import RunD.TaskIndexRuns
import RunD.IrFixpoint
import RunD.ComputeResources
import RunD.MathMul
import RunD.MathDiv
import RunD.MathSqrt
import RunD.MathRequant
import RunD.MathSoftmax
import RunD.MathTurnCurve
import RunD.FoldTreeCounts
