import EbpfProfiler.Asm.Match
import EbpfProfiler.Dwarf.LineIter
import EbpfProfiler.ElfUnwind.ExpressionTheorems
import EbpfProfiler.ElfUnwind.FdeFilter
import EbpfProfiler.ElfUnwind.FdeTheorems
import EbpfProfiler.ElfUnwind.PcspTheorems
import EbpfProfiler.ExecInfo.FailedLoads
import EbpfProfiler.GoSym.LookupTheorems
import EbpfProfiler.GoSym.PcData
import EbpfProfiler.Interpreter.BeamFunctions
import EbpfProfiler.Interpreter.BeamStrings
import EbpfProfiler.Interpreter.DotnetNibbleMap10
import EbpfProfiler.Interpreter.DotnetR2R
import EbpfProfiler.Interpreter.GoSymbolizer
import EbpfProfiler.Interpreter.JitAreaTheorems
import EbpfProfiler.Interpreter.PythonLines
import EbpfProfiler.Interpreter.RecordingReader
import EbpfProfiler.Interpreter.StubNames
import EbpfProfiler.Interpreter.V8Bytecode
import EbpfProfiler.Interpreter.V8Inlining
import EbpfProfiler.Lpm.PrefixListTheorems
import EbpfProfiler.PfBufio.ReaderTheorems
import EbpfProfiler.PidEvents.RateLimitTheorems
import EbpfProfiler.ProcessContext.Coherence
import EbpfProfiler.ProcessManager.FrameCacheTheorems
import EbpfProfiler.ProcessManager.KeptMappings
import EbpfProfiler.ProcessManager.PageTheorems
import EbpfProfiler.ProcessManager.TraceMonitor
import EbpfProfiler.Reporter.AttrTable
import EbpfProfiler.Reporter.OtlpTheorems
import EbpfProfiler.Reporter.TraceEventsTheorems
import EbpfProfiler.RetPads.ExtractTheorems
import EbpfProfiler.SymbConv.MultiTheorems
import EbpfProfiler.SymbFile.UnknownMessages
import EbpfProfiler.Wire.TraceRecordTheorems
