import Mathlib.Data.Finset.Insert
import Mathlib.Logic.Function.Basic
import Syren.Interaction.Loop
import Syren.Trace.Calls

/-! The `ptrace(2)` backend: setting up a spawned or attached target, one pass of the loop in
`next_event`, and the handling of one wait status. -/
namespace Syren
open Interaction

structure Inflight where
  nr : UInt64
  args : Vector UInt64 6
  enterNs : UInt64
  deriving DecidableEq

structure PtraceTracer where
  /-- The clock reading that `now_ns` counts from. -/
  start : ℕ
  follow : Bool
  live : Finset Pid
  inflight : Pid → Option Inflight
  tgid : Pid → Option UInt32
  pendingResume : Option (Pid × Option Signal)
  leader : Option UInt32

abbrev Tracing := Method Call Call.Answer PtraceTracer TraceError

namespace Setup

/-- The `?` operator on an answer of the tracing API. -/
def orOs {α : Type} : Except Errno α → Setup α
  | .ok a => pure a
  | .error e => throw (.os e)

end Setup

namespace PtraceTracer
open Function

/-- The `?` operator on an answer of the tracing API. -/
def orOs {α : Type} : Except Errno α → Tracing α
  | .ok a => pure a
  | .error e => throw (.os e)

def empty (options : TraceOptions) : Setup PtraceTracer := do
  let start ← Attempt.ask Call.now
  return { start, follow := options.followForks, live := ∅, inflight := fun _ => none,
           tgid := fun _ => none, pendingResume := none, leader := none }

def options (follow : Bool) : PtraceOptions where
  tracesysgood := true
  exitkill := true
  tracefork := follow
  tracevfork := follow
  traceclone := follow
  traceexec := follow

def configure (pid : Pid) : Tracing Unit := do
  orOs (← Method.ask (Call.setoptions pid (options (← get).follow)))

def nowNs : Tracing UInt64 := do
  let now : ℕ ← Method.ask Call.now
  return UInt64.ofNat (now - (← get).start)

def readTgid (status : Option (List Char)) : Option UInt32 := do
  let rest ← (Text.lines (← status)).findSome? (Text.stripStart "Tgid:".toList)
  (Text.parseUnsigned 32 10 (Text.trim rest)).map UInt32.ofNat

def tgidOf (pid : Pid) : Tracing UInt32 := do
  match (← get).tgid pid with
  | some t => return t
  | none =>
    let tgid := (readTgid (← Method.ask (Call.readStatus pid))).getD pid.toU32
    modify fun t => { t with tgid := update t.tgid pid (some tgid) }
    return tgid

def resume (pid : Pid) (sig : Option Signal) : Tracing Unit := do
  orOs (← Method.ask (Call.syscall pid sig))

def forget (pid : Pid) : Tracing Unit :=
  modify fun t => { t with
    live := t.live.erase pid
    inflight := update t.inflight pid none
    tgid := update t.tgid pid none }

/-- The argument registers in the order of the arguments. -/
def argsOf (regs : Regs) : Vector UInt64 6 :=
  #v[regs.rdi, regs.rsi, regs.rdx, regs.r10, regs.r8, regs.r9]

def onSyscallStop (pid : Pid) : Tracing (Option Event) := do
  match (← get).inflight pid with
  | some inflight =>
    modify fun t => { t with inflight := update t.inflight pid none }
    let regs ← orOs (← Method.ask (Call.getregs pid))
    let exitNs ← nowNs
    modify fun t => { t with pendingResume := some (pid, none) }
    let tgid ← tgidOf pid
    return some (.syscall {
      pid := tgid
      tid := pid.toU32
      nr := inflight.nr
      args := inflight.args
      retval := regs.rax.toInt64
      tsEnterNs := inflight.enterNs
      -- `saturating_sub`
      durationNs := if inflight.enterNs ≤ exitNs then exitNs - inflight.enterNs else 0 })
  | none =>
    let regs ← orOs (← Method.ask (Call.getregs pid))
    let enterNs ← nowNs
    modify fun t => { t with inflight := update t.inflight pid (some {
      nr := regs.origRax
      args := argsOf regs
      enterNs }) }
    resume pid none
    return none

/-- What a `PTRACE_EVENT_*` stop does to the tracer before the task is resumed. -/
def onEvent (pid : Pid) (event : Int32) : Tracing Unit := do
  if event = PTRACE_EVENT_EXEC then
    modify fun t => { t with inflight := update t.inflight pid none }
  else if (← get).follow ∧
      (event = PTRACE_EVENT_FORK ∨ event = PTRACE_EVENT_VFORK ∨ event = PTRACE_EVENT_CLONE) then
    match ← Method.ask (Call.getevent pid) with
    | .ok new => modify fun t => { t with live := insert (Pid.fromRaw new.toInt32) t.live }
    | .error _ => return ()

/-- The signal that a signal stop passes on to the task. -/
def deliver : Signal → Option Signal
  | .SIGSTOP | .SIGTRAP => none
  | other => some other

def handle : WaitStatus → Tracing (Option Event)
  | .ptraceSyscall pid => onSyscallStop pid
  | .exited pid code => do
    let tgid ← tgidOf pid
    forget pid
    return some (.processExit tgid code)
  | .signaled pid sig _ => do
    let tgid ← tgidOf pid
    forget pid
    return some (.processExit tgid (128 + sig.toI32))
  | .ptraceEvent pid _ event => do
    onEvent pid event
    resume pid none
    return none
  | .stopped pid sig => do
    resume pid (deliver sig)
    match deliver sig with
    | some s => do
      let tgid ← tgidOf pid
      return some (.signal tgid s.toI32)
    | none => return none
  | .continued _ | .stillAlive => return none

/-- Resume the task that the previous call left stopped at its syscall-exit. -/
def resumePending : Tracing Unit := do
  match (← get).pendingResume with
  | some (pid, sig) =>
    modify fun t => { t with pendingResume := none }
    resume pid sig
  | none => return ()

/-- One pass of the loop in `next_event`: `none` goes round again and `some r` returns `r`. -/
def nextEventPass : Tracing (Option (Option Event)) := do
  resumePending
  if (← get).live = ∅ then return some none
  else match ← Method.ask Call.waitAny with
    | .ok status => return (← handle status).map some
    | .error .ECHILD => return some none
    | .error e => throw (.os e)

/-- `next_event`, its loop cut off after `fuel` passes. -/
def nextEvent (fuel : ℕ) : Tracing (Option Event) :=
  Method.loop (fun _ => nextEventPass) (List.replicate fuel ())

/-- What `spawn` does with its child after the child's first stop. -/
def adopt (child : Pid) : Tracing Unit := do
  configure child
  modify fun t => { t with
    live := insert child t.live
    tgid := update t.tgid child (some child.toU32)
    leader := some child.toU32 }
  resume child none

def spawn (program : OsBytes) (args : List OsBytes) (options : TraceOptions) :
    Setup PtraceTracer := do
  let progC ← ExceptT.mk (.done (cstring program))
  let argv ← ExceptT.mk (.done (args.mapM cstring))
  let ops := [.traceme, .execvp progC (progC :: argv), .exit 127]
  let child ← Setup.orOs (← Attempt.ask (Call.fork ops))
  let tracer ← empty options
  match ← Setup.orOs (← Attempt.ask (Call.waitpid child)) with
  | .exited _ _ | .signaled _ _ _ => throw (.spawn program ENOENT)
  | _ => Attempt.construct tracer (adopt child)

/-- The loop of `attach` over the processes still to be attached. -/
def attachEach : List Int32 → Tracing Unit
  | [] => return ()
  | raw :: pids => do
    let pid := Pid.fromRaw raw
    orOs (← Method.ask (Call.attach pid))
    let _ ← orOs (← Method.ask (Call.waitpid pid))
    configure pid
    modify fun t => { t with live := insert pid t.live }
    resume pid none
    attachEach pids

def attach (pids : List Int32) (options : TraceOptions) : Setup PtraceTracer := do
  if pids = [] then throw (.other "no pids supplied to attach to")
  else
    let tracer ← empty options
    Attempt.construct { tracer with leader := pids.head?.map Int32.toUInt32 } (attachEach pids)

def new (target : Target) (options : TraceOptions) : Setup PtraceTracer :=
  match target with
  | .spawn program args => spawn program args options
  | .attach pids => attach pids options

end PtraceTracer

end Syren
