import Mathlib.Order.Lattice
import Syren.Common.Event
import Syren.Interaction.Intervals

/-! The times of syscall events, and the order in which the events of a trace come. -/
namespace Syren
open Interaction

/-- When the call returned, on the clock of its entry. -/
def SyscallEvent.exitNs (ev : SyscallEvent) : ℕ := ev.tsEnterNs.toNat + ev.durationNs.toNat

def SyscallEvent.interval (ev : SyscallEvent) : Interval UInt32 ℕ :=
  ⟨ev.tid, ev.tsEnterNs.toNat, ev.exitNs⟩

def Event.asSyscall : Event → Option SyscallEvent
  | .syscall ev => some ev
  | _ => none

/-- The syscalls among some events, in order. -/
def syscalls (evs : List Event) : List SyscallEvent := evs.filterMap Event.asSyscall

/-- Syscall events in the order of their returns, those of one task one after the other. -/
def InOrder (evs : List SyscallEvent) : Prop :=
  evs.Pairwise fun e f => e.exitNs ≤ f.exitNs ∧ (e.tid = f.tid → e.exitNs ≤ f.tsEnterNs.toNat)

theorem inOrder_of_timed {opened : UInt32 → Option ℕ} {evs : List SyscallEvent} {now : ℕ}
    (h : Timed opened (evs.map SyscallEvent.interval) now) : InOrder evs :=
  List.pairwise_map.mp h.ordered

end Syren
