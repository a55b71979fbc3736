import G1Jepa.Library.ForRange
import G1Jepa.Library.BoundedDeque
import G1Jepa.Library.Dict
import G1Jepa.Library.Debounce
import G1Jepa.Library.Fallible
import G1Jepa.TriggerHysteresis
import G1Jepa.OnlineOffline
import G1Jepa.Warmup
import G1Jepa.ReplanSchedule
import G1Jepa.EpisodeHistory
import G1Jepa.BucketAgreement
import G1Jepa.CalibrationRoundTrip
import G1Jepa.MakeCalib
import G1Jepa.EpisodeFiles
import G1Jepa.PolicyTrace
import G1Jepa.CollectLabels
import G1Jepa.TeleportSafety
import G1Jepa.RunRecord
import G1Jepa.Evaluate
import G1Jepa.LatentCache
import G1Jepa.Counterfactual
import G1Jepa.ThresholdExp
import G1Jepa.PerturbationTiming
import G1Jepa.Library.RowMajor
import G1Jepa.Pooling
import G1Jepa.PlannedTarget
import G1Jepa.Library.SaturatedStep
import G1Jepa.WaypointController
import G1Jepa.OperatingCurve
import G1Jepa.TailTruncation
import G1Jepa.FigureLoader
import G1Jepa.PlacementSeed
import G1Jepa.Library.EventRun
import G1Jepa.RpcClient
import G1Jepa.LeaseServer
import G1Jepa.LeaseProtocol
import G1Jepa.TriggerLog
import G1Jepa.Library.Quantile
import G1Jepa.Summary
import G1Jepa.PairedRuns
import G1Jepa.ClosedLoop
import G1Jepa.Recalibration
import G1Jepa.Library.LossyPipeline
import G1Jepa.RpcServer
import G1Jepa.RpcService
import G1Jepa.Library.SearchTree
import G1Jepa.ReorderAdmin
import G1Jepa.ReorderIntervals
import G1Jepa.ReorderSound
import G1Jepa.ReorderSamples
import G1Jepa.ReorderGaps
import G1Jepa.ReorderRun
import G1Jepa.ReorderNackmap
import G1Jepa.ReorderReceive
import G1Jepa.Library.PrefixCode
import G1Jepa.Library.ShiftRegister
import G1Jepa.Library.StructPack
import G1Jepa.Crc
import G1Jepa.CrcMessages
