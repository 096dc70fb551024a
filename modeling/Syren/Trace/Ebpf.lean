import Syren.Common.Record
import Syren.Common.Table
import Syren.Trace.Ptrace

/-! The userspace side of the eBPF backend: loading the programs, starting or watching the target,
and draining the ring. The table of syscalls is generated by the build and is a parameter here. -/
namespace Syren
open Interaction

structure Capture where
  addr : UInt64
  bytes : List UInt8
  deriving DecidableEq

structure EbpfTracer where
  leader : Option UInt32
  baselineNs : UInt64
  child : Option Pid
  watch : List UInt32
  queue : List (Event × Option Capture)
  current : Option Capture
  finished : Bool
  deriving DecidableEq

abbrev Polling := Method Call Call.Answer EbpfTracer TraceError

namespace EbpfTracer
open Attempt

/-- `map_err` to `EbpfUnsupported`, then the `?` operator. -/
def orUnsupported (what : String) : Except String Unit → Setup Unit
  | .ok () => return ()
  | .error e => throw (.ebpfUnsupported (what ++ ": " ++ e))

/-- `ok_or_else` to `EbpfUnsupported`, then the `?` operator. -/
def orMissing (what : String) : Bool → Setup Unit
  | true => return ()
  | false => throw (.ebpfUnsupported (what ++ " missing"))

def attachTracepoint (progName category event : String) : Setup Unit := do
  orMissing s!"program `{progName}`" (← ask (Call.programMut progName))
  orUnsupported s!"`{progName}` is not a tracepoint" (← ask (Call.asTracePoint progName))
  orUnsupported s!"loading `{progName}`" (← ask (Call.programLoad progName))
  orUnsupported s!"attaching `{progName}`" (← ask (Call.programAttach progName category event))

def pathArgSlot (s : SyscallInfo) : Option UInt8 :=
  if s.name = "execve" ∨ s.name = "execveat" then none
  else do
    let idx ← s.args.findIdx? (·.ty = .Path)
    if s.number < MAX_SYSCALLS ∧ idx < 6 then some (UInt8.ofNat (idx + 1)) else none

/-- The loop of `populate_patharg` over the rows still to be entered. -/
def setPathargs : List SyscallInfo → Setup Unit
  | [] => return ()
  | s :: rows => do
    match pathArgSlot s with
    | some slot =>
      orUnsupported s!"PATHARG[{s.number}]" (← ask (Call.pathargSet s.number slot))
      setPathargs rows
    | none => setPathargs rows

def populatePatharg (table : List SyscallInfo) : Setup Unit := do
  orMissing "PATHARG map" (← ask (Call.mapMut "PATHARG"))
  orUnsupported "PATHARG map" (← ask (Call.mapTryFrom "PATHARG"))
  setPathargs table

def readCapEff (status : Option (List Char)) : Option UInt64 := do
  let hex ← (Text.lines (← status)).findSome? (Text.stripStart "CapEff:".toList)
  (Text.parseUnsigned 64 16 (Text.trim hex)).map UInt64.ofNat

def hasBpfCapability : Setup Bool := do
  let euid : UInt32 ← ask Call.geteuid
  if euid = 0 then return true
  else match readCapEff (← ask Call.readSelfStatus) with
    | none => return false
    -- CAP_SYS_ADMIN is 21, CAP_BPF is 39
    | some eff => return (eff >>> 21) &&& 1 = 1 ∨ (eff >>> 39) &&& 1 = 1

def probe : Setup Unit := do
  let btf : Bool ← ask (Call.pathExists "/sys/kernel/btf/vmlinux")
  if btf then
    if ← hasBpfCapability then return ()
    else throw (.ebpfUnsupported "loading BPF needs root or CAP_BPF (try sudo)")
  else
    throw (.ebpfUnsupported "kernel BTF (/sys/kernel/btf/vmlinux) is required but missing")

def slash : UInt8 := 47

def isExecutable (path : OsBytes) : Setup Bool := do
  match ← ask (Call.metadata path) with
  | some (isFile, mode) => return isFile ∧ mode &&& 0o111 ≠ 0
  | none => return false

/-- `dir.join(program)` for a program without a slash. -/
def join (dir program : OsBytes) : OsBytes :=
  if dir = [] then program
  else if dir.getLast? = some slash then dir ++ program
  else dir ++ slash :: program

/-- `split_paths(..).any(..)`. -/
def anyExecutable (program : OsBytes) : List OsBytes → Setup Bool
  | [] => return false
  | dir :: dirs => do
    if ← isExecutable (join dir program) then return true
    else anyExecutable program dirs

def colon : UInt8 := 58

def found (program : OsBytes) : Setup Bool :=
  if slash ∈ program then isExecutable program
  else do
    match ← ask Call.varPath with
    | some paths => anyExecutable program (paths.splitOn colon)
    | none => return false

def resolveProgram (program : OsBytes) : Setup Unit := do
  if ← found program then return ()
  else throw (.spawn program ENOENT)

/-- The insertions of `arm` still to be made. -/
def insertTargets : List UInt32 → Setup Unit
  | [] => return ()
  | tid :: tids => do
    orUnsupported "seeding TARGETS" (← ask (Call.targetsInsert tid))
    insertTargets tids

def arm (tids : List UInt32) : Setup Unit := do
  orMissing "TARGETS map" (← ask (Call.mapMut "TARGETS"))
  orUnsupported "TARGETS map" (← ask (Call.mapTryFrom "TARGETS"))
  insertTargets tids

/-- What the forked child does: it waits for the parent's byte and executes the program. -/
def childOps (readFd : Int32) (progC : CString) (argv : List CString) : List ChildOp :=
  [.readPipe readFd, .execvp progC argv, .exit 127]

/-- The parent's part of `spawn` once the child exists. -/
def release (tracer : EbpfTracer) (child : Pid) (readFd writeFd : Int32) : Setup EbpfTracer := do
  ask (Call.close readFd)
  let armed ← caught (arm [child.toU32])
  -- The child is let go whether it was armed or not.
  ask (Call.write writeFd [1])
  ask (Call.close writeFd)
  ExceptT.mk (.done armed)
  return { tracer with leader := some child.toU32, child := some child }

/-- The part of `spawn` that makes the pipe and the child. -/
def start (tracer : EbpfTracer) (progC : CString) (argv : List CString) : Setup EbpfTracer := do
  match ← ask Call.pipe2 with
  | .error e => throw (.other ("pipe2: " ++ e))
  | .ok (readFd, writeFd) =>
    let child ← Setup.orOs (← ask (Call.fork (childOps readFd progC argv)))
    release tracer child readFd writeFd

def spawn (tracer : EbpfTracer) (program : OsBytes) (args : List OsBytes) : Setup EbpfTracer := do
  resolveProgram program
  let progC ← ExceptT.mk (.done (cstring program))
  let argv ← ExceptT.mk (.done (args.mapM cstring))
  start tracer progC (progC :: argv)

def attach (tracer : EbpfTracer) (pids : List Int32) : Setup EbpfTracer := do
  if pids = [] then throw (.other "no pids supplied to attach to")
  else
    let watch := pids.map Int32.toUInt32
    arm watch
    return { tracer with leader := watch.head?, watch := watch }

/-- What `new` does between the tracepoints and the target. -/
def prepare (table : List SyscallInfo) : Setup EbpfTracer := do
  populatePatharg table
  orMissing "EVENTS map" (← ask (Call.takeMap "EVENTS"))
  orUnsupported "EVENTS ring buffer" (← ask Call.ringTryFrom)
  let baselineNs : UInt64 ← ask Call.clockMonotonic
  return { leader := none, baselineNs, child := none, watch := [], queue := [], current := none,
           finished := false }

/-- Everything `new` does before it turns to the target. -/
def load (table : List SyscallInfo) (options : TraceOptions) : Setup EbpfTracer := do
  probe
  ask Call.setrlimitMemlock
  orUnsupported "loading BPF object" (← ask Call.ebpfLoad)
  attachTracepoint "sys_enter" "raw_syscalls" "sys_enter"
  attachTracepoint "sys_exit" "raw_syscalls" "sys_exit"
  if options.followForks then
    attachTracepoint "sched_process_fork" "sched" "sched_process_fork"
  prepare table

def new (table : List SyscallInfo) (target : Target) (options : TraceOptions) :
    Setup EbpfTracer := do
  let tracer ← load table options
  match target with
  | .spawn program args => spawn tracer program args
  | .attach pids => attach tracer pids

def recordToEvent (rec : Record) (baseline : UInt64) : SyscallEvent where
  pid := rec.pid
  tid := rec.tid
  nr := rec.nr
  args := rec.args
  retval := rec.retval
  -- `saturating_sub`
  tsEnterNs := if baseline ≤ rec.tsEnterNs then rec.tsEnterNs - baseline else 0
  durationNs := rec.durationNs

/-- The queue entry of an item of the ring, if the item is a record. -/
def queued (baseline : UInt64) (item : List UInt8) : Option (Event × Option Capture) :=
  (Record.fromBytes item).map fun rec =>
    (.syscall (recordToEvent rec baseline),
      if rec.capLen > 0 then some ⟨rec.capAddr, rec.captured⟩ else none)

/-- `drain_ring`, its loop cut off after `fuel` items. -/
def drainRing : ℕ → Polling Unit
  | 0 => ExceptT.mk fun _ => .cut
  | fuel + 1 => do
    match ← Method.ask Call.ringNext with
    | none => return ()
    | some item =>
      modify fun t => { t with queue := t.queue ++ (queued t.baselineNs item).toList }
      drainRing fuel

def enqueueExit (fuel : ℕ) (code : Int32) : Polling Unit := do
  drainRing fuel
  modify fun t => { t with
    queue := t.queue ++ (t.leader.map fun pid => (Event.processExit pid code, none)).toList
    finished := true }

def pidAlive (pid : UInt32) : Polling Bool := do
  match ← Method.ask (Call.kill pid 0) with
  | .ok () => return true
  | .error e => return e = .EPERM

/-- `watch.iter().all(|&p| !pid_alive(p))`. -/
def allGone : List UInt32 → Polling Bool
  | [] => return true
  | p :: ps => do
    if ← pidAlive p then return false
    else allGone ps

def livenessDone (fuel : ℕ) : Polling Bool := do
  match (← get).child with
  | some child =>
    match ← Method.ask (Call.waitNohang child) with
    | .ok (.exited _ code) => do
      enqueueExit fuel code
      return true
    | .ok (.signaled _ sig _) => do
      enqueueExit fuel (128 + sig.toI32)
      return true
    | .ok _ => return false
    | .error _ => do
      enqueueExit fuel 0
      return true
  | none =>
    let watch := (← get).watch
    if watch = [] then return true
    else if ← allGone watch then do
      enqueueExit fuel 0
      return true
    else return false

/-- One pass of the loop in `next_event`: `none` goes round again and `some r` returns `r`. -/
def nextEventPass (fuel : ℕ) : Polling (Option (Option Event)) := do
  match (← get).queue with
  | (event, cap) :: queue =>
    modify fun t => { t with queue := queue, current := cap }
    return some (some event)
  | [] =>
    drainRing fuel
    if (← get).queue ≠ [] then return none
    else if (← get).finished then return some none
    else if ← livenessDone fuel then return none
    else
      Method.ask (Call.poll 100)
      return none

/-- `next_event`, its loop cut off after one pass for each of the bounds on the ring's items. -/
def nextEvent (fuels : List ℕ) : Polling (Option Event) := Method.loop nextEventPass fuels

end EbpfTracer

end Syren
