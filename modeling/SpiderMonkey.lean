import SpiderMonkey.Ion.BceSoundness
import SpiderMonkey.Ion.ConstantPropagationSoundness
import SpiderMonkey.Ion.ParameterSpecializationSoundness
import SpiderMonkey.Ion.FoldingSoundness
import SpiderMonkey.Ion.UseChainsSoundness
import SpiderMonkey.Ion.TruncationSoundness
import SpiderMonkey.Ion.RangePropagationTermination
import SpiderMonkey.Ion.PhiEliminationSoundness
import SpiderMonkey.Ion.AliasAnalysisSoundness
import SpiderMonkey.Ion.EdgeCasesSoundness
import SpiderMonkey.Ion.HoistedChecksSoundness
import SpiderMonkey.Ion.SnapshotsSoundness
import SpiderMonkey.Vm.ScriptSoundness
import SpiderMonkey.Ion.SsaBuildSoundness
import SpiderMonkey.Ion.MoveEmitterSoundness
import SpiderMonkey.Ion.SafepointsSoundness
import SpiderMonkey.Vm.ArraySortSoundness
import SpiderMonkey.Vm.CloneReaderSafety
import SpiderMonkey.Vm.JsonRoundTrip
import SpiderMonkey.Ion.SafepointTableSoundness
import SpiderMonkey.Vm.ShapeTableRuns
import SpiderMonkey.Vm.DstOffsetCache
import SpiderMonkey.Vm.UriRoundTrip
import SpiderMonkey.Infer.TypeSetSoundness
import SpiderMonkey.Vm.ArrayLengthSoundness
import SpiderMonkey.Gc.ArenaListsSoundness
import SpiderMonkey.Analyze.ArgumentsUsageSoundness
import SpiderMonkey.Vm.TypedArraySoundness
import SpiderMonkey.Ion.StackSlotAllocator
import SpiderMonkey.Ion.CompactBufferRoundTrip
import SpiderMonkey.Ion.DominatorTree
import SpiderMonkey.Ion.PhiTypesSoundness
import SpiderMonkey.Ion.LinearSumExact
import SpiderMonkey.Ion.BetaRemovalSoundness
import SpiderMonkey.Vm.HashableValueSoundness
import SpiderMonkey.Ds.InlineMapSoundness
import SpiderMonkey.Ion.IntervalOperationsSoundness
import SpiderMonkey.Ion.CompareFoldSoundness
import SpiderMonkey.Vm.EscapeSoundness
import SpiderMonkey.Vm.SplitSoundness
import SpiderMonkey.Vm.FlatReplacementSoundness
import SpiderMonkey.Vm.DollarSoundness
import SpiderMonkey.Vm.IsoDateSoundness
import SpiderMonkey.Vm.PrefixIntegerSoundness
import SpiderMonkey.Vm.NumericConversionsSoundness
import SpiderMonkey.Ds.SortInPlaceSoundness
import SpiderMonkey.Vm.RegExpStaticsSoundness
import SpiderMonkey.Infer.HashSetSoundness
import SpiderMonkey.Ds.LifoAllocSoundness
import SpiderMonkey.Ion.ConstantPoolsExact
import SpiderMonkey.Frontend.LookaheadSoundness
import SpiderMonkey.Frontend.LineNumbersSoundness
import SpiderMonkey.Ion.SafepointIndex
import SpiderMonkey.Ion.BitSetSoundness
import SpiderMonkey.Vm.Enumeration
import SpiderMonkey.Vm.CloneScript
