import SoloRT.Transition
import SoloRT.StableSort
import SoloRT.Sequence
import SoloRT.Scheduler
import SoloRT.PageAllocator
import SoloRT.KVCache
import SoloRT.PrefixCache
import SoloRT.Runtime
import SoloRT.Execution
import SoloRT.Server
import SoloRT.ForegroundFirst
import SoloRT.ChunkedPrefill
import SoloRT.StreamText
import SoloRT.Sessions
import SoloRT.Failure
import SoloRT.CacheReferences
import SoloRT.EarlyClose
import SoloRT.PageOwnership
import SoloRT.PrefixSharing
import SoloRT.Generation
import SoloRT.Sampling
import SoloRT.Serving
import SoloRT.Transformers
import SoloRT.TransformersFrame
import SoloRT.StaticArena
import SoloRT.CudaGraph
import SoloRT.GraphRunner
import SoloRT.Simulation
import SoloRT.Solo
import SoloRT.GraphDecode
import SoloRT.GraphSpeculative
import SoloRT.Greedy
import SoloRT.Speculative
import SoloRT.StateKeeping
import SoloRT.InStep
import SoloRT.StateLifetime
import SoloRT.ServingLoop
import SoloRT.Completion
import SoloRT.KVTensors
import SoloRT.FlashInfer
import SoloRT.KVMirror
import SoloRT.BatchCoherence
import SoloRT.GraphPosition
import SoloRT.DecodeExclusion
import SoloRT.GraphIsolation
import SoloRT.PageHistory
import SoloRT.Admission
import SoloRT.CacheCapacity
import SoloRT.GraphBounds
import SoloRT.Utf8
import SoloRT.Detokenize
import SoloRT.DecodeChunks
import SoloRT.DraftCache
import SoloRT.SlotLookup
import SoloRT.PageRelease
import SoloRT.PageLayout
import SoloRT.CacheHistory
import SoloRT.EntriesInUse
import SoloRT.PrefixLookup
import SoloRT.PageLeaks
import SoloRT.Attention
import SoloRT.Nucleus
import SoloRT.Json
import SoloRT.EventStream
import SoloRT.Qwen3Runner
import SoloRT.Waiting
import SoloRT.TokenFilters
import SoloRT.Conversation
import SoloRT.PageBudget
import SoloRT.ExecutorRefinement
import SoloRT.Qwen3Serving
import SoloRT.StreamClients
