import FosKernel.Lib.ActiveSet
import FosKernel.Lib.AgingStamps
import FosKernel.Lib.Calls
import FosKernel.Lib.ClockRing
import FosKernel.Lib.DemandPaging
import FosKernel.Lib.FramePool
import FosKernel.Lib.IntrusiveList
import FosKernel.Lib.Lockstep
import FosKernel.Lib.PagedStore
import FosKernel.Lib.RepeatGuard
import FosKernel.Lib.RingBuffer
import FosKernel.Lib.RoundRobin
import FosKernel.Lib.Runs
import FosKernel.Lib.SharedLists
import FosKernel.Lib.TwoLevelMap
import FosKernel.Boot.Loader
import FosKernel.Inc.Environment
import FosKernel.Inc.Layout
import FosKernel.Inc.Queue
import FosKernel.Mem.BootMapRange
import FosKernel.Mem.BootMemory
import FosKernel.Mem.Memory
import FosKernel.Mem.PageTable
import FosKernel.Mem.References
import FosKernel.Heap.AllocateFree
import FosKernel.Heap.Allocator
import FosKernel.Heap.BlockRelease
import FosKernel.Heap.Completeness
import FosKernel.Heap.Consistency
import FosKernel.Heap.Contents
import FosKernel.Heap.ContentsOfRun
import FosKernel.Heap.CustomFit
import FosKernel.Heap.Gaps
import FosKernel.Heap.HeapFrames
import FosKernel.Heap.Invariant
import FosKernel.Heap.KHeap
import FosKernel.Heap.Ownership
import FosKernel.Heap.PageBlocks
import FosKernel.Heap.PageMoves
import FosKernel.Heap.PageTables
import FosKernel.Heap.Pages
import FosKernel.Heap.ReverseMap
import FosKernel.Heap.RoundTrip
import FosKernel.Heap.ScanRuns
import FosKernel.Heap.Sizes
import FosKernel.Proc.EnvIdBits
import FosKernel.Proc.EnvIds
import FosKernel.Proc.KernStackRelease
import FosKernel.Proc.Kernel
import FosKernel.Proc.LoadedProgram
import FosKernel.Proc.ProgramHeaders
import FosKernel.Proc.ProgramLoad
import FosKernel.Proc.ProgramSegment
import FosKernel.Proc.SegmentMemory
import FosKernel.Proc.SegmentPages
import FosKernel.Proc.UserKernStack
import FosKernel.Disk.PageFile
import FosKernel.Disk.PageFileManager
import FosKernel.Disk.PageFileMap
import FosKernel.Trap.Aging
import FosKernel.Trap.ClockChoices
import FosKernel.Trap.ClockReplacement
import FosKernel.Trap.ClockWalk
import FosKernel.Trap.Eviction
import FosKernel.Trap.FaultGuard
import FosKernel.Trap.FaultHandler
import FosKernel.Trap.FirstTouch
import FosKernel.Trap.ForeignBytes
import FosKernel.Trap.FrameAccounts
import FosKernel.Trap.FrameLeak
import FosKernel.Trap.HeapMarks
import FosKernel.Trap.HeapResidency
import FosKernel.Trap.IllegalAccess
import FosKernel.Trap.KeptMarks
import FosKernel.Trap.LeastRecentlyUsed
import FosKernel.Trap.NoLostWrite
import FosKernel.Trap.Optimal
import FosKernel.Trap.OptimalFaults
import FosKernel.Trap.OptimalRuns
import FosKernel.Trap.PageFaults
import FosKernel.Trap.PageLoad
import FosKernel.Trap.PrivateFrames
import FosKernel.Trap.PrivateMemory
import FosKernel.Trap.PrivateRuns
import FosKernel.Trap.Progress
import FosKernel.Trap.Rejection
import FosKernel.Trap.Replaced
import FosKernel.Trap.Replacement
import FosKernel.Trap.SharedActive
import FosKernel.Trap.StabSearch
import FosKernel.Trap.StoredPages
import FosKernel.Trap.TimeStamps
import FosKernel.Trap.UserAccess
import FosKernel.Trap.UserHeap
import FosKernel.Trap.UserPages
import FosKernel.Trap.VictimSearch
import FosKernel.Trap.WorkingSet
import FosKernel.Trap.WorkingSetRuns
import FosKernel.Share.AddressCalls
import FosKernel.Share.AddressRuns
import FosKernel.Share.AddressSpaces
import FosKernel.Share.Confinement
import FosKernel.Share.FreePages
import FosKernel.Share.FreeShare
import FosKernel.Share.LargeObjects
import FosKernel.Share.MappedPages
import FosKernel.Share.ObjectSizes
import FosKernel.Share.ShareNames
import FosKernel.Share.SharedFrames
import FosKernel.Share.SharedMemory
import FosKernel.Share.SharedPages
import FosKernel.Share.UserAddresses
import FosKernel.Conc.Channel
import FosKernel.Conc.GuardedObject
import FosKernel.Conc.HoldingSleepLock
import FosKernel.Conc.KSemaphore
import FosKernel.Conc.LockOrder
import FosKernel.Conc.Multicore
import FosKernel.Conc.SleepLock
import FosKernel.Cpu.ExitRuns
import FosKernel.Cpu.Exits
import FosKernel.Cpu.NoStarvation
import FosKernel.Cpu.Placement
import FosKernel.Cpu.PriorityCalls
import FosKernel.Cpu.Promotion
import FosKernel.Cpu.Queues
import FosKernel.Cpu.ReadyAccesses
import FosKernel.Cpu.Rotation
import FosKernel.Cpu.SchedCalls
import FosKernel.Cpu.SchedRuns
import FosKernel.Cpu.SchedSteps
import FosKernel.Cpu.Scheduler
import FosKernel.Cpu.ServiceOrder
import FosKernel.Cpu.Settled
import FosKernel.Cpu.Starvation
import FosKernel.Cpu.Ticks
import FosKernel.Cpu.Undisturbed
import FosKernel.Cons.Console
import FosKernel.Cmd.CommandReadline
