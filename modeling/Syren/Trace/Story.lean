import Syren.Trace.Calls

/-! What a spawned program of one task does, call by call, whichever backend watches it, and what
the syscall events of a trace say of it. -/
namespace Syren

/-- A call that has returned. -/
structure Made where
  nr : UInt64
  args : Vector UInt64 6
  ret : Int64
  deriving DecidableEq

/-- The number and the arguments, which are known when the call begins. -/
def Made.begun (c : Made) : UInt64 × Vector UInt64 6 := (c.nr, c.args)

/-- How a program dies. A task killed in a call still leaves it in the kernel, with the value that
the call returns, but makes no stop for its tracer there. -/
inductive Death where
  | outside
  | inside (nr : UInt64) (args : Vector UInt64 6)
  | killed (call : Made)

structure Story where
  program : OsBytes
  args : List OsBytes
  pid : Pid
  /-- What the child of the eBPF backend calls before the pipe, and its read of the pipe. -/
  opening : List Made
  read : Made
  /-- The executions along the search path that fail, and the one that succeeds. -/
  attempts : List Made
  exec : Made
  /-- The calls of the program that return. -/
  calls : List Made
  death : Death

namespace Story

/-- What the child calls and leaves again once nothing holds it back, whichever backend made it. -/
def launched (s : Story) : List Made := s.attempts ++ s.exec :: s.calls

/-- The call that a killed task leaves. -/
def abandoned (s : Story) : List Made :=
  match s.death with
  | .killed call => [call]
  | _ => []

theorem attempts_lt_launched (s : Story) : s.attempts.length < s.launched.length := by
  simp [launched]

end Story

/-- What a syscall event says: the tid, the number, the arguments and the result. -/
abbrev Line := UInt32 × UInt64 × Vector UInt64 6 × Int64

def Made.line (pid : Pid) (c : Made) : Line := (pid.toU32, c.nr, c.args, c.ret)

/-- The lines of the calls of `l` from the one numbered `m` to the one before `n`. -/
def span (pid : Pid) (l : List Made) (m n : ℕ) : List Line :=
  ((l.take n).drop m).map (Made.line pid)

variable {l : List Made} {m n : ℕ} {c : Made} {pid : Pid}

theorem span_succ (hc : l[n]? = some c) (hm : m ≤ n) :
    span pid l m (n + 1) = span pid l m n ++ [c.line pid] := by
  obtain ⟨hn, rfl⟩ := List.getElem?_eq_some_iff.mp hc
  have hlen : m ≤ (l.take n).length := by
    rw [List.length_take]
    omega
  rw [span, List.take_succ_eq_append_getElem hn, List.drop_append_of_le_length hlen,
    List.map_append, List.map_singleton, span]

theorem span_empty (h : n ≤ m) : span pid l m n = [] := by
  rw [span, List.drop_eq_nil_of_le ((List.length_take_le _ _).trans h), List.map_nil]

theorem span_length : span pid l m l.length = (l.drop m).map (Made.line pid) := by
  rw [span, List.take_length]

def lineOf : Event → Option Line
  | .syscall ev => some (ev.tid, ev.nr, ev.args, ev.retval)
  | _ => none

/-- The syscall that a pass of `next_event` returns, if it returns one. -/
def lineReturned : Except TraceError (Option (Option Event)) → Option Line
  | .ok (some (some ev)) => lineOf ev
  | _ => none

/-- The syscalls that the passes of a run return, in order. -/
def lines {σ : Type} (steps : List (Except TraceError (Option (Option Event)) × σ)) : List Line :=
  steps.filterMap fun x => lineReturned x.1

theorem lines_eq_of_labels {σ ρ : Type}
    {l : List (Except TraceError (Option (Option Event)) × σ)}
    {m : List (Except TraceError (Option (Option Event)) × ρ)}
    (h : l.map Prod.fst = m.map Prod.fst) : lines l = lines m := by
  have hlabels := congrArg (List.filterMap lineReturned) h
  rwa [List.filterMap_map, List.filterMap_map] at hlabels

theorem lines_concat {σ : Type} (l : List (Except TraceError (Option (Option Event)) × σ))
    (x : Except TraceError (Option (Option Event)) × σ) :
    lines (l ++ [x]) = lines l ++ (lineReturned x.1).toList := by
  cases h : lineReturned x.1 <;> simp [lines, h]

end Syren
