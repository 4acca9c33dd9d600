import Andsifr.Amd64.AddressModeExact
import Andsifr.Amd64.Stack
import Andsifr.Arm64.CollectAddends
import Andsifr.Arm64.Link
import Andsifr.CallEngine.SaveArea
import Andsifr.Closing.ModuleInstance
import Andsifr.Config.Immutable
import Andsifr.Execution.ConstNecessary
import Andsifr.Execution.PreappliedData
import Andsifr.Execution.SegmentInstances
import Andsifr.Execution.TypeSound
import Andsifr.Frontend.Cycles
import Andsifr.Frontend.ExceptionParams
import Andsifr.Runtime.InstantiateWithConfig
import Andsifr.Ssa.LoopNestingForest
import Andsifr.Sys.DirentReads
import Andsifr.Validation.ElementOrder
import Andsifr.Validation.InitialisedLocals
import Andsifr.Wasi.PathContainment
import Andsifr.Wasi.PollWaits
import Andsifr.Wasi.ReaddirComplete
import Andsifr.Wasi.VectoredProgress
import Andsifr.Wasm.TypeComparison
import Andsifr.Wazevo.CacheRoundTrip
import Andsifr.Wazevo.MemoryLength
import Andsifr.Wazevo.SharedTables
