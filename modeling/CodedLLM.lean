import CodedLLM.Runs
import CodedLLM.XorWords
import CodedLLM.Progress
import CodedLLM.WaitSets
import CodedLLM.ExecutorWakeups
import CodedLLM.Graph
import CodedLLM.Dataflow
import CodedLLM.Planner
import CodedLLM.Codec
import CodedLLM.Recovery
import CodedLLM.Coordinator
import CodedLLM.Lifecycle
import CodedLLM.Serving
import CodedLLM.GridStride
import CodedLLM.Kernels
import CodedLLM.PlanLayout
import CodedLLM.CudaDecode
import CodedLLM.CudaStaging
import CodedLLM.Executor
import CodedLLM.ExecutorRuns
import CodedLLM.ExecutorLedger
import CodedLLM.Runtime
import CodedLLM.ArrivalSections
import CodedLLM.Submission
import CodedLLM.GraphGenerator
import CodedLLM.RecoveryQueue
import CodedLLM.Batches
import CodedLLM.RequestSimulation
import CodedLLM.ClusterSimulator
import CodedLLM.ClusterRuns
import CodedLLM.ClusterTurns
import CodedLLM.ParameterSweep
import CodedLLM.ClusterRestart
import CodedLLM.ClusterIsolation
import CodedLLM.CoordinatorSimulation
import CodedLLM.Peeling
import CodedLLM.PeelingPlans
import CodedLLM.QueueService
import CodedLLM.AllOrNothing
import CodedLLM.Refusals
import CodedLLM.StagingCalls
import CodedLLM.StagingFailures
import CodedLLM.CoordinatorFailures
import CodedLLM.Replication
import CodedLLM.KernelAccesses
import CodedLLM.QueueDepth
import CodedLLM.TextScan
import CodedLLM.SweepOptions
import CodedLLM.Calibration
import CodedLLM.ExecutorShutdown
import CodedLLM.RuntimeProgress
import CodedLLM.RuntimeSettled
import CodedLLM.Waiters
import CodedLLM.ByteStreams
import CodedLLM.TransportSmoke
import CodedLLM.SmokeTest
import CodedLLM.SmokeRuns
import CodedLLM.SmokeDelivery
import CodedLLM.SmokeVerdict
import CodedLLM.OrderStatistics
import CodedLLM.SweepCommand
import CodedLLM.SweepMain
import CodedLLM.SweepRows
import CodedLLM.SweepOutput
import CodedLLM.CostExtraction
import CodedLLM.LaunchTuning
