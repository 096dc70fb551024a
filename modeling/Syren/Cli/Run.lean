import Syren.Cli.Filter
import Syren.Output.Sinks

/-! The loop of the command line over the events of a trace, and how the command ends. The events
are those that the tracer returns, each with the memory it is decoded over. -/
namespace Syren
open Output Writers

/-- What `run` works with once the tracer and the output are there. -/
structure Session where
  table : List SyscallInfo
  filter : Filter
  leader : Option UInt32
  fmt : Formatting

/-- `ExitCode::from(exit_code.clamp(0, 255) as u8)`. -/
def exitCode (code : Int32) : UInt8 := UInt8.ofNat (max 0 (min code.toInt 255)).toNat

namespace Session

variable {σ : Type} (session : Session) (write : List UInt8 → Io IoError σ Unit)

/-- The loop over events, with the sink and the exit code so far. -/
def loop : List (Event × MemoryReader) → Sink → Int32 → Io IoError σ (Sink × Int32)
  | [], sink, code => return (sink, code)
  | (.syscall ev, mem) :: evs, sink, code => do
    if session.filter.allows ev.nr then
      loop evs (← sink.record session.fmt write (.syscall (decode session.table ev mem))) code
    else loop evs sink code
  | (.processExit pid status, _) :: evs, sink, code => do
    let code := if some pid = session.leader then status else code
    loop evs (← sink.record session.fmt write (.exit pid status)) code
  | (.signal pid sig, _) :: evs, sink, code => do
    loop evs (← sink.record session.fmt write (.signal pid sig)) code

def run (evs : List (Event × MemoryReader)) (sink : Sink) : Io IoError σ UInt8 := do
  let ended ← session.loop write evs sink 0
  ended.1.finish session.fmt write
  return exitCode ended.2

/-- The record of an event, if it is reported. -/
def recordOf (e : Event × MemoryReader) : Option Output.Record :=
  match e.1 with
  | .syscall ev =>
    if session.filter.allows ev.nr then some (.syscall (decode session.table ev e.2)) else none
  | .processExit pid status => some (.exit pid status)
  | .signal pid sig => some (.signal pid sig)

def records (evs : List (Event × MemoryReader)) : List Output.Record :=
  evs.filterMap session.recordOf

/-- The exit code after some events: that of the leader's last exit. -/
def codeAfter : List (Event × MemoryReader) → Int32 → Int32
  | [], code => code
  | e :: evs, code => codeAfter evs <|
    match e.1 with
    | .processExit pid status => if some pid = session.leader then status else code
    | _ => code

variable {session write}

theorem loop_eq (evs : List (Event × MemoryReader)) (sink : Sink) (code : Int32) :
    (session.loop write evs sink code >>= fun ended => do
      ended.1.finish session.fmt write
      return exitCode ended.2) =
    perform write (sink.allWrites session.fmt (session.records evs)) >>= fun _ =>
      pure (exitCode (session.codeAfter evs code)) := by
  induction evs generalizing sink code with
  | nil =>
    simp only [loop, records, List.filterMap_nil, Sink.allWrites, Sink.finish_eq, codeAfter,
      pure_bind]
  | cons e evs ih =>
    obtain ⟨event, mem⟩ := e
    cases event with
    | syscall ev =>
      by_cases hallowed : session.filter.allows ev.nr
      · simp only [loop, if_pos hallowed, Sink.record_eq, bind_assoc, pure_bind, ih]
        simp only [records, recordOf, List.filterMap_cons, if_pos hallowed, Sink.allWrites,
          perform_append, bind_assoc, codeAfter]
      · simp only [loop, if_neg hallowed, ih]
        simp only [records, recordOf, List.filterMap_cons, if_neg hallowed, codeAfter]
    | processExit pid status =>
      simp only [loop, Sink.record_eq, bind_assoc, pure_bind, ih]
      simp only [records, recordOf, List.filterMap_cons, Sink.allWrites, perform_append,
        bind_assoc, codeAfter]
    | signal pid sig =>
      simp only [loop, Sink.record_eq, bind_assoc, pure_bind, ih]
      simp only [records, recordOf, List.filterMap_cons, Sink.allWrites, perform_append,
        bind_assoc, codeAfter]

/-- A run makes the writes of its records, and ends with the exit code of the leader. -/
theorem run_eq (evs : List (Event × MemoryReader)) (sink : Sink) : session.run write evs sink =
    perform write (sink.allWrites session.fmt (session.records evs)) >>= fun _ =>
      pure (exitCode (session.codeAfter evs 0)) :=
  loop_eq evs sink 0

end Session

/-- How the command ends: its exit code, and the error that it prints. -/
structure Ending where
  code : UInt8
  printed : Option IoError
  deriving DecidableEq

/-- The chain of errors that `anyhow` goes along. -/
def Output.IoError.chain (e : IoError) : List Cause := .io e.kind :: e.sources

def isBrokenPipe (e : IoError) : Bool := e.chain.any (· = .io .BrokenPipe)

def main (result : Except IoError UInt8) : Ending :=
  match result with
  | .ok code => ⟨code, none⟩
  | .error e => if isBrokenPipe e then ⟨0, none⟩ else ⟨1, some e⟩

end Syren
