import VibeRtos.Arch.ContextSwitch
import VibeRtos.Arch.IrqLock
import VibeRtos.Arch.Reset
import VibeRtos.Arch.RestartSystem
import VibeRtos.Arch.SwitchSystem
import VibeRtos.Async.Jobs
import VibeRtos.Async.Macros
import VibeRtos.Features.Conditions
import VibeRtos.Features.Evaluator
import VibeRtos.Features.Expansion
import VibeRtos.Features.Headers
import VibeRtos.Heap.Tlsf
import VibeRtos.Job.Bodies
import VibeRtos.Job.Scheduler
import VibeRtos.Job.Tick
import VibeRtos.Kernel.Device
import VibeRtos.Kernel.Dwork
import VibeRtos.Kernel.EventSystem
import VibeRtos.Kernel.Grants
import VibeRtos.Kernel.LockSystem
import VibeRtos.Kernel.MsgqSystem
import VibeRtos.Kernel.MutexOrder
import VibeRtos.Kernel.ObjectSystem
import VibeRtos.Kernel.Patience
import VibeRtos.Kernel.PipeSystem
import VibeRtos.Kernel.PoolSystem
import VibeRtos.Kernel.Printk
import VibeRtos.Kernel.Putuint
import VibeRtos.Kernel.SemSystem
import VibeRtos.Kernel.SleepSystem
import VibeRtos.Kernel.Snprintk
import VibeRtos.Kernel.StackSystem
import VibeRtos.Kernel.SubmitSystem
import VibeRtos.Kernel.System
import VibeRtos.Kernel.Tickless
import VibeRtos.Kernel.Timer
import VibeRtos.Kernel.TimerSystem
import VibeRtos.Kernel.TraceStats
import VibeRtos.Kernel.Workq
import VibeRtos.Kernel.WorkqSystem
import VibeRtos.Lib.Chan
import VibeRtos.Lib.Coroutine
import VibeRtos.Lib.CoroutineTriples
import VibeRtos.Lib.Crc
import VibeRtos.Lib.Records
import VibeRtos.Lib.Runs
import VibeRtos.Lib.Sections
import VibeRtos.Lib.Stores
import VibeRtos.Lib.Sweeps
import VibeRtos.Lib.TornStores
import VibeRtos.Lib.Words
import VibeRtos.Proof.Agreement
import VibeRtos.Proof.AsyncJobs
import VibeRtos.Proof.AsyncPipeline
import VibeRtos.Proof.AsyncResume
import VibeRtos.Proof.AsyncStages
import VibeRtos.Proof.BoostQueues
import VibeRtos.Proof.ConditionGroups
import VibeRtos.Proof.CoredumpCapture
import VibeRtos.Proof.CoredumpCrc
import VibeRtos.Proof.CoredumpStore
import VibeRtos.Proof.DeviceOrder
import VibeRtos.Proof.DworkCancel
import VibeRtos.Proof.EventWakeups
import VibeRtos.Proof.FeatureConsistency
import VibeRtos.Proof.FeatureMarks
import VibeRtos.Proof.FeatureNumerals
import VibeRtos.Proof.FeaturePasses
import VibeRtos.Proof.FeatureRewritten
import VibeRtos.Proof.FeatureSweeps
import VibeRtos.Proof.FeatureText
import VibeRtos.Proof.FeatureValues
import VibeRtos.Proof.GhostGrants
import VibeRtos.Proof.HdrRuns
import VibeRtos.Proof.HdrSearch
import VibeRtos.Proof.HeaderGraph
import VibeRtos.Proof.HeapRealloc
import VibeRtos.Proof.HeapRequests
import VibeRtos.Proof.Inheritance
import VibeRtos.Proof.IrqSections
import VibeRtos.Proof.JobAccounts
import VibeRtos.Proof.JobOrder
import VibeRtos.Proof.JobTermination
import VibeRtos.Proof.JobTick
import VibeRtos.Proof.ListFamilies
import VibeRtos.Proof.LogOrder
import VibeRtos.Proof.MsgqFifo
import VibeRtos.Proof.MsgqWakeups
import VibeRtos.Proof.MutexOrder
import VibeRtos.Proof.MutexOwner
import VibeRtos.Proof.ObjectCalls
import VibeRtos.Proof.OrderlyRuns
import VibeRtos.Proof.Parked
import VibeRtos.Proof.PendSv
import VibeRtos.Proof.PipeSteps
import VibeRtos.Proof.PipeStream
import VibeRtos.Proof.PipeWakeups
import VibeRtos.Proof.PoolBlocks
import VibeRtos.Proof.PoolSafety
import VibeRtos.Proof.PoolStorage
import VibeRtos.Proof.PoolWakeups
import VibeRtos.Proof.PrintkArgs
import VibeRtos.Proof.PrintkNumbers
import VibeRtos.Proof.PrintkTruncation
import VibeRtos.Proof.Removal
import VibeRtos.Proof.ResetHandler
import VibeRtos.Proof.RestartEffect
import VibeRtos.Proof.RingFifo
import VibeRtos.Proof.RoundRobin
import VibeRtos.Proof.RttFifo
import VibeRtos.Proof.RunTime
import VibeRtos.Proof.SchedFifo
import VibeRtos.Proof.SchedLock
import VibeRtos.Proof.SemTokens
import VibeRtos.Proof.ShellEditor
import VibeRtos.Proof.ShellWords
import VibeRtos.Proof.SleepOrder
import VibeRtos.Proof.SleepTicks
import VibeRtos.Proof.SpscSafety
import VibeRtos.Proof.StackLayout
import VibeRtos.Proof.StackOwner
import VibeRtos.Proof.SwitchContexts
import VibeRtos.Proof.TicklessWakeup
import VibeRtos.Proof.Timeouts
import VibeRtos.Proof.TimerFires
import VibeRtos.Proof.TimerList
import VibeRtos.Proof.TimerReentry
import VibeRtos.Proof.TimerRestart
import VibeRtos.Proof.TlsfBlocks
import VibeRtos.Proof.TlsfCalls
import VibeRtos.Proof.TlsfClasses
import VibeRtos.Proof.TlsfFreeLists
import VibeRtos.Proof.TlsfHeap
import VibeRtos.Proof.TlsfInit
import VibeRtos.Proof.TlsfMerging
import VibeRtos.Proof.TlsfRuns
import VibeRtos.Proof.TlsfSearch
import VibeRtos.Proof.TlsfStats
import VibeRtos.Proof.Uf2Image
import VibeRtos.Proof.Urgency
import VibeRtos.Proof.WaitCalls
import VibeRtos.Proof.WaitForever
import VibeRtos.Proof.WaitLists
import VibeRtos.Proof.WorkqOrder
import VibeRtos.Samples.AsyncPipeline
import VibeRtos.Sys.Coredump
import VibeRtos.Sys.CoredumpStore
import VibeRtos.Sys.Rtt
import VibeRtos.Sys.ShellArgs
import VibeRtos.Sys.Uf2
