import Orthotope.Lib.ByteMemory
import Orthotope.Lib.Ownership
import Orthotope.Lib.IndexedVec
import Orthotope.Lib.TotalRuns
import Orthotope.Lib.StepSystem
import Orthotope.Lib.AgentSums
import Orthotope.Lib.BlockHeap
import Orthotope.Lib.Linearization
import Orthotope.SizeClass
import Orthotope.Header
import Orthotope.HeaderCodec
import Orthotope.Arena
import Orthotope.ArenaRace
import Orthotope.ArenaProgress
import Orthotope.FreeList
import Orthotope.LocalCache
import Orthotope.CentralPool
import Orthotope.LargeObject
import Orthotope.ThreadCache
import Orthotope.ClassSizing
import Orthotope.Allocator
import Orthotope.FreeListRuns
import Orthotope.LocalCacheRuns
import Orthotope.CentralPoolRuns
import Orthotope.PoolLocks
import Orthotope.PoolLocksInvariant
import Orthotope.PoolLocksRuns
import Orthotope.PageRange
import Orthotope.System
import Orthotope.Clients
import Orthotope.Safety
import Orthotope.Refresh
import Orthotope.Isolation
import Orthotope.LargeRegistry
import Orthotope.Supply
import Orthotope.Failure
import Orthotope.Padding
import Orthotope.SlabLookup
import Orthotope.BestFit
import Orthotope.RejectedFrees
import Orthotope.Retention
import Orthotope.Quiescence
import Orthotope.ClassBooks
import Orthotope.DrainBatch
import Orthotope.HotReuse
import Orthotope.Frame
import Orthotope.DrainAll
import Orthotope.KindTag
import Orthotope.Discards
import Orthotope.Capacity
import Orthotope.Blowup
import Orthotope.Stats
import Orthotope.Snapshot
import Orthotope.WaitFree
import Orthotope.Histories
import Orthotope.HeaderTail
import Orthotope.LargeDoubleFrees
import Orthotope.Calm
import Orthotope.Reclaim
import Orthotope.GlobalAlloc
import Orthotope.ProcessMemory
import Orthotope.ThreadChurn
import Orthotope.Teardown
