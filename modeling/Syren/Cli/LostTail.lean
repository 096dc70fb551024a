import Syren.Cli.Run
import Syren.Writers.Buffered

/-! What the file of the command line holds when the command succeeds. Nothing flushes the buffer in
front of it, so that what is still in the buffer is written when the sink is dropped. -/
namespace Syren
open Output Writers

/-- The capacity that `BufWriter::new` allocates. -/
def BUFFER : ℕ := 8 * 1024

/-- `open_output`: standard output and standard error are written to at once. -/
def outputStream (limit : ℕ) (refusal : IoError) : Outlet IoError (List UInt8) :=
  .direct limit refusal

/-- `open_output`: the file of `-o` is behind a buffer. -/
def outputFile (limit : ℕ) (refusal : IoError) : Outlet IoError Buffered :=
  .behind BUFFER limit refusal

theorem roomy_outputStream (refusal : IoError) :
    Outlet.Roomy fun limit => outputStream limit refusal := Outlet.roomy_direct refusal

theorem roomy_outputFile (refusal : IoError) :
    Outlet.Roomy fun limit => outputFile limit refusal := Outlet.roomy_behind BUFFER refusal

/-- A run that succeeds has written its whole output to a file that takes so many bytes. -/
def WholeTrace (session : Session) (evs : List (Event × MemoryReader)) (sink : Sink) (limit : ℕ)
    (refusal : IoError) : Prop :=
  let ended := outcome (session.run (Buffered.write BUFFER limit refusal) evs sink) Buffered.empty
  ∀ code, ended.1 = .ok code →
    (ended.2.drop limit refusal).taken = sink.output session.fmt (session.records evs)

/-- The bytes that are still in the buffer when the sink is finished. -/
def heldBack (session : Session) (evs : List (Event × MemoryReader)) (sink : Sink) : ℕ :=
  Buffered.held BUFFER (Buffered.lengths (sink.allWrites session.fmt (session.records evs)))

variable {session : Session} {evs : List (Event × MemoryReader)} {sink : Sink} {limit : ℕ}
  {refusal : IoError}

theorem wholeTrace_writes : WholeTrace session evs sink limit refusal ↔
    ((outcome (perform (Buffered.write BUFFER limit refusal)
      (sink.allWrites session.fmt (session.records evs))) Buffered.empty).1 = .ok () →
      ((outcome (perform (Buffered.write BUFFER limit refusal)
        (sink.allWrites session.fmt (session.records evs))) Buffered.empty).2.drop
          limit refusal).taken =
        (sink.allWrites session.fmt (session.records evs)).flatMap Prod.fst) := by
  unfold WholeTrace
  rw [Session.run_eq, Sink.allWrites_output]
  cases hout : outcome (perform (Buffered.write BUFFER limit refusal)
    (sink.allWrites session.fmt (session.records evs))) Buffered.empty with
  | mk result s =>
    cases result with
    | error e =>
      rw [outcome_bind_error hout]
      simp
    | ok u =>
      rw [outcome_bind_ok hout, outcome_pure]
      simp

/-- A successful run has written its whole output, if and only if the file takes all of it or
refuses a byte before those that the buffer still holds at the end. -/
theorem wholeTrace_iff (session : Session) (evs : List (Event × MemoryReader)) (sink : Sink)
    (limit : ℕ) (refusal : IoError) : WholeTrace session evs sink limit refusal ↔
      (sink.output session.fmt (session.records evs)).length ≤ limit ∨
        limit < (sink.output session.fmt (session.records evs)).length -
          heldBack session evs sink := by
  rw [wholeTrace_writes, Buffered.whole_iff, Sink.allWrites_output]
  rfl

/-- Of an output that is shorter than the buffer no refusal is ever reported. -/
theorem wholeTrace_short (h : (sink.output session.fmt (session.records evs)).length < BUFFER) :
    WholeTrace session evs sink limit refusal ↔
      (sink.output session.fmt (session.records evs)).length ≤ limit := by
  have hheld : heldBack session evs sink =
      (sink.output session.fmt (session.records evs)).length := by
    rw [← Sink.allWrites_output, ← Buffered.sum_lengths] at h ⊢
    exact Buffered.held_short h
  unfold heldBack at hheld
  rw [wholeTrace_writes, Buffered.whole_iff, Sink.allWrites_output, hheld]
  omega

/-- A full disk goes unnoticed: the only line of a trace is lost. -/
theorem full_disk_unnoticed : ¬ WholeTrace ⟨SYSCALLS, .All, some 1, .whole⟩
    [(.processExit 1 0, fun _ _ => none)] (.text ⟨false, false, false⟩) 0 ⟨.StorageFull, []⟩ := by
  rw [wholeTrace_writes, Buffered.whole_iff]
  decide +kernel

end Syren
