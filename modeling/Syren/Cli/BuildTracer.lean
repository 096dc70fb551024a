import Syren.Trace.Ebpf

/-! The choice of a backend, and the fallback of the command line from one to the other. -/
namespace Syren
open Interaction

/-- A boxed tracer of either backend. -/
inductive Tracer where
  | ptrace (tracer : PtraceTracer)
  | ebpf (tracer : EbpfTracer)

/-- Build a tracer for the backend. Without the `ebpf` feature that backend is not compiled in. -/
def tracer (feature : Bool) (table : List SyscallInfo) (backend : Backend) (target : Target)
    (options : TraceOptions) : Setup Tracer :=
  match backend with
  | .ptrace => return .ptrace (← PtraceTracer.new target options)
  | .ebpf =>
    if feature then return .ebpf (← EbpfTracer.new table target options)
    else throw (.backendUnavailable "ebpf")

/-- An error with the context that the command line puts before it. -/
structure CliError where
  context : String
  source : TraceError
  deriving DecidableEq

/-- The text of the errors that the command line falls back on. -/
def TraceError.fallback : TraceError → Option String
  | .ebpfUnsupported reason => some ("eBPF backend unavailable: " ++ reason)
  | .backendUnavailable name => some ("backend `" ++ name ++ "` is not available in this build")
  | _ => none

/-- `context`, then the result of the command. -/
def withContext {α : Type} (context : String) :
    Except TraceError α → Attempt Call Call.Answer CliError α
  | .ok a => pure a
  | .error e => throw ⟨context, e⟩

def buildTracer (feature : Bool) (table : List SyscallInfo) (backend : Backend) (target : Target)
    (options : TraceOptions) : Attempt Call Call.Answer CliError Tracer := do
  match ← Attempt.caught (tracer feature table backend target options) with
  | .ok t => return t
  | .error e =>
    match (if backend = .ebpf then e.fallback else none) with
    | some text => do
      Attempt.ask (Call.eprintln ("syren: " ++ text ++ "; falling back to the ptrace backend"))
      let second ← Attempt.caught (tracer feature table .ptrace target options)
      withContext "failed to start tracer" second
    | none => throw ⟨"failed to start tracer", e⟩

end Syren
