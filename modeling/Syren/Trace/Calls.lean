import Mathlib.Data.Finset.Basic
import Syren.Common.Event
import Syren.Common.Text
import Syren.Interaction.Program

/-! What the tracing backends ask of the operating system and of the BPF library, with the
answers they can get. Nothing is said here about which answers the kernel gives. -/
namespace Syren

/-- The bytes of a path or of an argument. -/
abbrev OsBytes := List UInt8

/-- A string without an inner NUL byte. -/
structure CString where
  bytes : OsBytes
  noNul : 0 ∉ bytes
  deriving DecidableEq

inductive Errno where
  | ECHILD | ESRCH | EPERM
  | other (code : Int32)
  deriving DecidableEq

inductive TraceError where
  | spawn (program : OsBytes) (rawOsError : Int32)
  | os (e : Errno)
  | backendUnavailable (name : String)
  | ebpfUnsupported (reason : String)
  | other (message : String)
  deriving DecidableEq

inductive Target where
  | spawn (program : OsBytes) (args : List OsBytes)
  | attach (pids : List Int32)
  deriving DecidableEq

structure TraceOptions where
  followForks : Bool
  deriving DecidableEq

inductive Backend where
  | ptrace | ebpf
  deriving DecidableEq

/-- The registers of a stopped task that the tracer reads. -/
structure Regs where
  origRax : UInt64
  rdi : UInt64
  rsi : UInt64
  rdx : UInt64
  r10 : UInt64
  r8 : UInt64
  r9 : UInt64
  rax : UInt64
  deriving DecidableEq

inductive WaitStatus where
  | exited (pid : Pid) (code : Int32)
  | signaled (pid : Pid) (sig : Signal) (coreDumped : Bool)
  | stopped (pid : Pid) (sig : Signal)
  | ptraceEvent (pid : Pid) (sig : Signal) (event : Int32)
  | ptraceSyscall (pid : Pid)
  | continued (pid : Pid)
  | stillAlive
  deriving DecidableEq

/-- The task that a status reports as stopped, if it reports a stop. -/
def WaitStatus.stop : WaitStatus → Option Pid
  | .stopped pid _ => some pid
  | .ptraceEvent pid _ _ => some pid
  | .ptraceSyscall pid => some pid
  | _ => none

/-- The task that a status reports as dead, if it reports a death. -/
def WaitStatus.death : WaitStatus → Option Pid
  | .exited pid _ => some pid
  | .signaled pid _ _ => some pid
  | _ => none

def PTRACE_EVENT_FORK : Int32 := 1
def PTRACE_EVENT_VFORK : Int32 := 2
def PTRACE_EVENT_CLONE : Int32 := 3
def PTRACE_EVENT_EXEC : Int32 := 4

/-- The `PTRACE_O_*` flags the tracer sets. -/
structure PtraceOptions where
  tracesysgood : Bool
  exitkill : Bool
  tracefork : Bool
  tracevfork : Bool
  traceclone : Bool
  traceexec : Bool
  deriving DecidableEq

/-- What the child does after a fork, one step after the other, every result ignored. -/
inductive ChildOp where
  | readPipe (fd : Int32)
  | traceme
  | execvp (program : CString) (argv : List CString)
  | exit (code : Int32)
  deriving DecidableEq

inductive Call where
  | fork (child : List ChildOp)
  | waitAny
  | waitpid (pid : Pid)
  | waitNohang (pid : Pid)
  | attach (pid : Pid)
  | detach (pid : Pid)
  | setoptions (pid : Pid) (options : PtraceOptions)
  | syscall (pid : Pid) (sig : Option Signal)
  | getregs (pid : Pid)
  | getevent (pid : Pid)
  | readStatus (pid : Pid)
  | now
  | pathExists (path : String)
  | geteuid
  | readSelfStatus
  | setrlimitMemlock
  | ebpfLoad
  | programMut (name : String)
  | asTracePoint (name : String)
  | programLoad (name : String)
  | programAttach (name category event : String)
  | mapMut (name : String)
  | mapTryFrom (name : String)
  | takeMap (name : String)
  | ringTryFrom
  | pathargSet (nr : UInt32) (slot : UInt8)
  | targetsInsert (tid : UInt32)
  | clockMonotonic
  | varPath
  | metadata (path : OsBytes)
  | pipe2
  | close (fd : Int32)
  | write (fd : Int32) (bytes : List UInt8)
  | ringNext
  | kill (pid : UInt32) (sig : Int32)
  | poll (timeoutMs : Int32)
  | eprintln (message : String)
  deriving DecidableEq

/-- The type of a call's answer. Errors of the BPF library are their messages. -/
def Call.Answer : Call → Type
  | .fork _ => Except Errno Pid
  | .waitAny => Except Errno WaitStatus
  | .waitpid _ => Except Errno WaitStatus
  | .waitNohang _ => Except Errno WaitStatus
  | .attach _ => Except Errno Unit
  | .detach _ => Except Errno Unit
  | .setoptions _ _ => Except Errno Unit
  | .syscall _ _ => Except Errno Unit
  | .getregs _ => Except Errno Regs
  | .getevent _ => Except Errno Int64
  | .readStatus _ => Option (List Char)
  | .now => ℕ
  | .pathExists _ => Bool
  | .geteuid => UInt32
  | .readSelfStatus => Option (List Char)
  | .setrlimitMemlock => Unit
  | .ebpfLoad => Except String Unit
  | .programMut _ => Bool
  | .asTracePoint _ => Except String Unit
  | .programLoad _ => Except String Unit
  | .programAttach _ _ _ => Except String Unit
  | .mapMut _ => Bool
  | .mapTryFrom _ => Except String Unit
  | .takeMap _ => Bool
  | .ringTryFrom => Except String Unit
  | .pathargSet _ _ => Except String Unit
  | .targetsInsert _ => Except String Unit
  | .clockMonotonic => UInt64
  | .varPath => Option OsBytes
  | .metadata _ => Option (Bool × UInt32)
  | .pipe2 => Except String (Int32 × Int32)
  | .close _ => Unit
  | .write _ _ => Unit
  | .ringNext => Option (List UInt8)
  | .kill _ _ => Except Errno Unit
  | .poll _ => Unit
  | .eprintln _ => Unit

/-- The kernel, seen from the tracer. -/
abbrev Kernel (σ : Type) := Interaction.Environment Call Call.Answer σ

/-- Code without a receiver that may fail. -/
abbrev Setup := Interaction.Attempt Call Call.Answer TraceError

def cstring (bytes : OsBytes) : Except TraceError CString :=
  if h : 0 ∈ bytes then
    .error (.other ("invalid (NUL-containing) argument: " ++
      s!"nul byte found in provided data at position: {bytes.idxOf 0}"))
  else .ok ⟨bytes, h⟩

def ENOENT : Int32 := 2

end Syren
