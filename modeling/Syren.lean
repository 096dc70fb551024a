import Syren.Interaction.Program
import Syren.Interaction.Run
import Syren.Interaction.BoundedMap
import Syren.Common.Event
import Syren.Common.Text
import Syren.Common.Record
import Syren.Trace.Calls
import Syren.Trace.Ptrace
import Syren.Trace.PtraceCases
import Syren.Trace.PtraceRun
import Syren.Trace.PtraceSetup
import Syren.Trace.PtraceResume
import Syren.Trace.PtracePairing
import Syren.Trace.PtraceAttach
import Syren.Trace.PtraceGroups
import Syren.Trace.PtraceEnd
import Syren.Trace.PtraceKilled
import Syren.Kernel.Programs
import Syren.Kernel.Tasks
import Syren.Kernel.Pairing
import Syren.Kernel.Targets
import Syren.Common.Table
import Syren.Trace.Ebpf
import Syren.Cli.BuildTracer
import Syren.Kernel.Children
import Syren.Trace.EbpfSetup
import Syren.Cli.Fallback
import Syren.Trace.EbpfEnd
import Syren.Interaction.Loop
import Syren.Cli.Filter
import Syren.Cli.FilterMeaning
import Syren.Cli.FilterOrder
import Syren.Common.Errno
import Syren.Common.Signal
import Syren.Decode.Backends
import Syren.Folding.Tally
import Syren.Interaction.Keyed
import Syren.Interaction.Simulation
import Syren.Output.Failures
import Syren.Trace.EbpfQueue
import Syren.Trace.EbpfStory
import Syren.Trace.PtraceSignals
import Syren.Trace.PtraceStory
import Syren.Trace.PtraceTasks
import Syren.Trace.Streams
import Syren.Cli.BrokenPipe
import Syren.Cli.LostTail
import Syren.Decode.Arity
import Syren.Decode.Clean
import Syren.Decode.Escapes
import Syren.Decode.FlagText
import Syren.Decode.ReadCalls
import Syren.Folding.Bisect
import Syren.Gen.Lookup
import Syren.Output.Printable
import Syren.Cli.Command
import Syren.Cli.Interrupted
import Syren.Cli.Listing
import Syren.Interaction.Intervals
import Syren.Kernel.Enters
import Syren.Kernel.Recordings
import Syren.Kernel.Timing
import Syren.Output.Rounding
import Syren.Output.SummaryTable
import Syren.Output.TextFields
import Syren.Trace.PtraceClock
import Syren.Cli.EbpfCommand
import Syren.Gen.Codegen
import Syren.Gen.Compiled
import Syren.Cli.Counted
import Syren.Trace.PtraceReuse
