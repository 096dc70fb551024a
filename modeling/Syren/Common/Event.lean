import Mathlib.Tactic.Common

/-! The events of `syren-common`, the signals of the tracing API and the ids of tasks. -/
namespace Syren

/-- A process or task id, a signed 32-bit number as in the tracing API. -/
structure Pid where
  fromRaw ::
  asRaw : Int32
  deriving DecidableEq

/-- `pid.as_raw() as u32`. -/
def Pid.toU32 (p : Pid) : UInt32 := p.asRaw.toUInt32

theorem Pid.toU32_inj {p q : Pid} : p.toU32 = q.toU32 ↔ p = q := by
  constructor
  · obtain ⟨⟨a⟩⟩ := p
    obtain ⟨⟨b⟩⟩ := q
    rintro ⟨⟩
    rfl
  · rintro rfl
    rfl

inductive Signal where
  | SIGHUP | SIGINT | SIGQUIT | SIGILL | SIGTRAP | SIGABRT | SIGBUS | SIGFPE | SIGKILL | SIGUSR1
  | SIGSEGV | SIGUSR2 | SIGPIPE | SIGALRM | SIGTERM | SIGSTKFLT | SIGCHLD | SIGCONT | SIGSTOP
  | SIGTSTP | SIGTTIN | SIGTTOU | SIGURG | SIGXCPU | SIGXFSZ | SIGVTALRM | SIGPROF | SIGWINCH
  | SIGIO | SIGPWR | SIGSYS
  deriving DecidableEq

open Signal in
/-- `sig as i32`. -/
def Signal.toI32 : Signal → Int32
  | SIGHUP => 1 | SIGINT => 2 | SIGQUIT => 3 | SIGILL => 4 | SIGTRAP => 5 | SIGABRT => 6
  | SIGBUS => 7 | SIGFPE => 8 | SIGKILL => 9 | SIGUSR1 => 10 | SIGSEGV => 11
  | SIGUSR2 => 12 | SIGPIPE => 13 | SIGALRM => 14 | SIGTERM => 15 | SIGSTKFLT => 16
  | SIGCHLD => 17 | SIGCONT => 18 | SIGSTOP => 19 | SIGTSTP => 20 | SIGTTIN => 21
  | SIGTTOU => 22 | SIGURG => 23 | SIGXCPU => 24 | SIGXFSZ => 25 | SIGVTALRM => 26
  | SIGPROF => 27 | SIGWINCH => 28 | SIGIO => 29 | SIGPWR => 30 | SIGSYS => 31

/-- A completed syscall: arguments captured on entry, paired with the return value and timing
captured on exit. -/
structure SyscallEvent where
  pid : UInt32
  tid : UInt32
  nr : UInt64
  args : Vector UInt64 6
  retval : Int64
  tsEnterNs : UInt64
  durationNs : UInt64
  deriving DecidableEq

inductive Event where
  | syscall (ev : SyscallEvent)
  | processExit (pid : UInt32) (code : Int32)
  | signal (pid : UInt32) (signal : Int32)
  deriving DecidableEq

/-- The process an event speaks of. -/
def Event.pid : Event → UInt32
  | .syscall ev => ev.pid
  | .processExit pid _ => pid
  | .signal pid _ => pid

end Syren
