import RexlibCuda.Lib.Prog
import RexlibCuda.Lib.Sequence
import RexlibCuda.Lib.Tiling
import RexlibCuda.Lib.Runs
import RexlibCuda.Lib.Completion
import RexlibCuda.MemoryBlockPool
import RexlibCuda.PoolInvariant
import RexlibCuda.PoolOperations
import RexlibCuda.PoolReset
import RexlibCuda.PoolSearch
import RexlibCuda.MemoryBlockAllocator
import RexlibCuda.AllocatorTrace
import RexlibCuda.AllocatorInvariant
import RexlibCuda.AllocatorRuns
import RexlibCuda.AllocatorSession
import RexlibCuda.Representation
import RexlibCuda.RequestSize
import RexlibCuda.HeapRelease
import RexlibCuda.TrimOutcome
import RexlibCuda.LeftAlone
import RexlibCuda.SourceLedger
import RexlibCuda.OutOfMemory
import RexlibCuda.CudaBuffer
import RexlibCuda.CachingMemoryAllocator
import RexlibCuda.BufferSafety
import RexlibCuda.Lib.Streams
import RexlibCuda.StreamTimeline
import RexlibCuda.Tickets
import RexlibCuda.TimelineInvariant
import RexlibCuda.TimelineAnswers
import RexlibCuda.CommandQueue
import RexlibCuda.QueueInvariant
import RexlibCuda.QueueSafety
import RexlibCuda.Lib.Coalesce
import RexlibCuda.PoolView
import RexlibCuda.PoolHandout
import RexlibCuda.PoolCoalescing
import RexlibCuda.AllocatorHandout
import RexlibCuda.Coalescing
import RexlibCuda.BulkMerging
import RexlibCuda.ReleaseOrder
import RexlibCuda.BlockChoice
import RexlibCuda.DeferredRelease
import RexlibCuda.GiveBack
import RexlibCuda.HeapOwnership
import RexlibCuda.SearchOutcome
import RexlibCuda.LargeRequests
import RexlibCuda.HeapRange
import RexlibCuda.GrowthRetries
import RexlibCuda.EventTickets
import RexlibCuda.GeometricGrowth
import RexlibCuda.PendingTokens
import RexlibCuda.RecordedUses
import RexlibCuda.CudaDeviceBackend
import RexlibCuda.DeviceIds
import RexlibCuda.TokenInvisible
import RexlibCuda.PoolBlindness
import RexlibCuda.Lib.TwoRuns
import RexlibCuda.Lib.History
import RexlibCuda.Plugin
import RexlibCuda.PluginClock
import RexlibCuda.PluginCalls
import RexlibCuda.BufferBytes
import RexlibCuda.PluginPlacement
import RexlibCuda.PluginInvariant
import RexlibCuda.PluginSafety
import RexlibCuda.Lib.Draining
import RexlibCuda.QueueLiveness
import RexlibCuda.Lib.Arena
import RexlibCuda.AddressSpace
import RexlibCuda.BufferAddresses
import RexlibCuda.Lib.Threads
import RexlibCuda.DeviceGuard
import RexlibCuda.DeviceSelection
import RexlibCuda.DeviceSelectionSafety
import RexlibCuda.Lib.Locks
import RexlibCuda.TimelineThreads
import RexlibCuda.TimelineLocks
import RexlibCuda.TimelineCoherence
import RexlibCuda.RecorderSpecs
import RexlibCuda.TimelineSpecs
import RexlibCuda.TimelineOrder
import RexlibCuda.TimelineThreadsSafety
import RexlibCuda.TimelineProgress
import RexlibCuda.Lib.Hex
import RexlibCuda.PciLocation
