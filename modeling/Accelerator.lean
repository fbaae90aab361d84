import Accelerator.Conv.Integers
import Accelerator.Json.Encoding
import Accelerator.Json.Integers
import Accelerator.Json.Comments
import Accelerator.Json.Grammar
import Accelerator.Checksum
import Accelerator.Io.Refinement
import Accelerator.Io.Chains
import Accelerator.Io.RWCursor
import Accelerator.Io.UnshareCursor
import Accelerator.Base64
import Accelerator.Thread.MPMCQueue
import Accelerator.Scheduler.DAGCycle
import Accelerator.Scheduler.DAGRun
import Accelerator.Range.ReplaceAll
import Accelerator.Text.SplitFixed
import Accelerator.Text.Lower
import Accelerator.Io.RecordIOWriter
import Accelerator.EvictingCacheMapBounds
import Accelerator.TimedHeap
import Accelerator.Thread.AtomicUnorderedMapRuns
import Accelerator.Thread.SharedMutexExclusion
import Accelerator.Thread.RWSpinLock
import Accelerator.Concurrency.CPUThreadPoolExecutorJoin
import Accelerator.Thread.ProducerConsumerQueue
import Accelerator.Thread.AtomicLinkedListRuns
import Accelerator.Thread.ConcurrentSkipListRefinement
import Accelerator.Gen.Contract
import Accelerator.Gen.ListPipeline
import Accelerator.Uri
import Accelerator.Uuid
import Accelerator.RendezvousHash
import Accelerator.FBString.Strings
import Accelerator.Compression.ZlibStreamCompressor
import Accelerator.Compression.ZlibStreamDecompressor
import Accelerator.LogBase
import Accelerator.Stats.Monitor
import Accelerator.DynamicOrder
import Accelerator.Hash
import Accelerator.Range.ByteSet
