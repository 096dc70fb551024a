import Syren.Trace.Ebpf

/-! Readers of a traced process's memory: what the decoder is given for an event. -/
namespace Syren

/-- `MemoryReader::read`: up to so many bytes from an address on, or nothing. -/
abbrev MemoryReader := UInt64 → ℕ → Option (List UInt8)

/-- The memory of a task: the byte at every address that is mapped. -/
structure Image where
  byte : ℕ → Option UInt8
  top : ∀ addr, 2 ^ 64 ≤ addr → byte addr = none

namespace Image

/-- The longest mapped run from an address on, of at most so many bytes. -/
def mapped (mem : Image) : ℕ → ℕ → List UInt8
  | _, 0 => []
  | addr, len + 1 => match mem.byte addr with
    | none => []
    | some b => b :: mem.mapped (addr + 1) len

/-- `/proc/<tid>/mem` of a task with this memory, as `ProcMemReader::read` uses it. -/
def reader (mem : Image) : MemoryReader := fun addr len =>
  let bytes := mem.mapped addr.toNat len
  if bytes = [] then none else some bytes

end Image

/-- A reader that serves the in-kernel path capture for the current event. -/
structure EbpfMemory where
  tid : UInt32
  capture : Option Capture

/-- Anything not captured is read through `/proc/<tid>/mem`, if that can be opened. -/
def EbpfMemory.read (proc : UInt32 → Option MemoryReader) (m : EbpfMemory) : MemoryReader :=
  fun addr len =>
    let fallback := (proc m.tid).bind fun reader => reader addr len
    match m.capture with
    | some cap =>
      let stop := cap.addr + UInt64.ofNat cap.bytes.length
      if addr ≥ cap.addr ∧ addr < stop then
        let off := (addr - cap.addr).toNat
        some ((cap.bytes.take (min (off + len) cap.bytes.length)).drop off)
      else fallback
    | none => fallback

/-- The reader for the event that `next_event` has returned last. -/
def EbpfTracer.memory (t : EbpfTracer) (ev : SyscallEvent) : EbpfMemory where
  tid := ev.tid
  capture := t.current

end Syren
