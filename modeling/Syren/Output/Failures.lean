import Syren.Gen.Syscalls
import Syren.Output.SummaryRows

/-! Whether a call failed, as the events, the decoder, the text lines and the summary say it. They
agree exactly on the events whose errno is in the errno table. -/
namespace Syren

theorem mem_errnos (code : Int32) : (nameAndDesc code).isSome ↔ code ∈ ERRNOS.map Prod.fst := by
  simp [nameAndDesc, List.find?_isSome]

theorem errnos_numbers : ERRNOS.map (·.1.toInt) =
    List.map Int.ofNat ((List.range 134).filter fun n => n ≠ 0 ∧ n ≠ 41 ∧ n ≠ 58) := by
  decide +kernel

/-- The table names the errnos up to 133, with two gaps. -/
theorem nameAndDesc_isSome {code : Int32} (h : 0 < code.toInt) :
    (nameAndDesc code).isSome ↔ code.toInt ≤ 133 ∧ code.toInt ≠ 41 ∧ code.toInt ≠ 58 := by
  have hmem : code ∈ ERRNOS.map Prod.fst ↔ code.toInt ∈ ERRNOS.map (·.1.toInt) := by
    simp [Int32.toInt_inj]
  rw [mem_errnos, hmem, errnos_numbers]
  simp only [List.mem_map, List.mem_filter, List.mem_range, decide_eq_true_eq, Int.ofNat_eq_natCast]
  constructor
  · rintro ⟨n, ⟨hn, h0, h41, h58⟩, hcode⟩
    omega
  · rintro ⟨h133, h41, h58⟩
    exact ⟨code.toInt.toNat, by omega, by omega⟩

namespace SyscallEvent

theorem isError_iff (ev : SyscallEvent) :
    ev.isError ↔ -4095 ≤ ev.retval.toInt ∧ ev.retval.toInt < 0 := by
  simp [isError, Int64.le_iff_toInt_le, Int64.lt_iff_toInt_lt]

theorem toInt_code {ev : SyscallEvent} (h : ev.isError) :
    (-ev.retval).toInt32.toInt = -ev.retval.toInt := by
  obtain ⟨hlow, hneg⟩ := ev.isError_iff.mp h
  have hcode : (-ev.retval).toInt = -ev.retval.toInt := by
    rw [Int64.toInt_neg, Int.bmod_eq_of_le] <;> omega
  rw [Int64.toInt_toInt32, hcode, Int.bmod_eq_of_le] <;> omega

/-- The errno of a failed call has a name. -/
def Named (ev : SyscallEvent) : Prop := -133 ≤ ev.retval ∧ ev.retval ≠ -41 ∧ ev.retval ≠ -58

theorem errno_named {ev : SyscallEvent} (h : ev.isError) :
    (ev.errno.bind Syren.errno).isSome ↔ ev.Named := by
  obtain ⟨hlow, hneg⟩ := ev.isError_iff.mp h
  have hcode := toInt_code h
  have hnamed := nameAndDesc_isSome (show 0 < (-ev.retval).toInt32.toInt by omega)
  rw [hcode] at hnamed
  rw [errno, if_pos h, Option.bind_some, Syren.errno, Option.isSome_map, hnamed, Named]
  have hne (code : Int64) : ev.retval ≠ code ↔ ev.retval.toInt ≠ code.toInt :=
    Int64.toInt_inj.not.symm
  have hlit : (-133 : Int64).toInt = -133 ∧ (-41 : Int64).toInt = -41 ∧
      (-58 : Int64).toInt = -58 := by decide
  rw [Int64.le_iff_toInt_le, hne, hne, hlit.1, hlit.2.1, hlit.2.2]
  omega

end SyscallEvent

/-- The decoder names the error of exactly the failed calls whose errno has a name. -/
theorem decode_error (table : List SyscallInfo) (ev : SyscallEvent) (mem : MemoryReader) :
    (decode table ev mem).error.isSome ↔ ev.isError ∧ ev.Named := by
  have herr : (decode table ev mem).error.isSome = (ev.errno.bind errno).isSome := Option.isSome_map
  rw [herr]
  by_cases h : ev.isError
  · rw [SyscallEvent.errno_named h, and_iff_right h]
  · rw [SyscallEvent.errno, if_neg h]
    simp [h]

namespace Output
open Folding Text

/-- An error return: -1 and the errno, with its colour. -/
def ErrorReturn (p : Palette) (ret : List Char) : Prop :=
  ∃ code ≠ [], ret = p.error ++ "-1 ".toList ++ code ++ p.reset

/-- The line of a call shows an error return. -/
def ShowsError (fmtSecs : UInt64 → List Char) (opts : TextOptions) (s : DecodedSyscall) : Prop :=
  let p := Palette.new opts.color
  ∃ ret, ErrorReturn p ret ∧ TextSink.record fmtSecs opts (.syscall s) =
    TextSink.pidPart opts s.pid ++ (TextSink.callPart p s ++ " = ".toList ++ ret) ++
      TextSink.timingPart fmtSecs opts s ++ ['\n']

theorem errorReturn_returnPart (p : Palette) (s : DecodedSyscall) :
    ErrorReturn p (TextSink.returnPart p s) ↔ s.error.isSome := by
  unfold TextSink.returnPart DecodedSyscall.retvalStr
  cases s.error with
  | some e =>
    refine iff_of_true
      ⟨e.name.toList ++ " (".toList ++ e.description.toList ++ [')'], by simp, ?_⟩ rfl
    simp only [Option.isSome_some, if_true, List.append_assoc]
  | none =>
    refine iff_of_false ?_ (by simp)
    rintro ⟨code, hcode, hret⟩
    have hspace : ' ' ∈ p.error ++ "-1 ".toList ++ code ++ p.reset := by
      simp
    rw [← hret, Option.isSome_none, if_neg Bool.false_ne_true] at hspace
    split_ifs at hspace
    · exact space_notMem_hex _ hspace
    · exact space_notMem_decInt _ hspace

theorem showsError_iff (fmtSecs : UInt64 → List Char) (opts : TextOptions) (s : DecodedSyscall) :
    ShowsError fmtSecs opts s ↔ s.error.isSome := by
  rw [← errorReturn_returnPart (Palette.new opts.color)]
  constructor
  · rintro ⟨ret, hret, hline⟩
    have hsame := List.append_cancel_right (List.append_cancel_right hline)
    rw [List.append_cancel_left (List.append_cancel_left hsame)]
    exact hret
  · exact fun h => ⟨_, h, rfl⟩

/-- The records of some events, each decoded over the memory of its task. -/
def decodeAll (table : List SyscallInfo) (evs : List (SyscallEvent × MemoryReader)) : List Record :=
  evs.map fun e => .syscall (decode table e.1 e.2)

/-- A line of the summary gives these numbers before the name; no errors are left blank. -/
def Gives (name : List Char) (calls errors : ℕ) (line : List Char) : Prop :=
  ∃ pct secs usecs, line = SummarySink.aligned pct secs usecs (dec calls)
    (if errors = 0 then [] else dec errors) name

/-- The calls of a syscall among some events, and those of them that failed. -/
def callsTo (table : List SyscallInfo) (evs : List (SyscallEvent × MemoryReader))
    (name : List Char) : ℕ := evs.countP fun e => syscallName table e.1.nr = name

def failuresOf (table : List SyscallInfo) (evs : List (SyscallEvent × MemoryReader))
    (name : List Char) : ℕ := evs.countP fun e => syscallName table e.1.nr = name ∧ e.1.isError

/-- Decoder, lines and summary say of the same calls that they failed: those with a return value
that encodes an error. The summary that is printed has one line for each syscall that was called,
with its calls and failures, and a last line with all calls and failures. -/
structure Classified (table : List SyscallInfo) (evs : List (SyscallEvent × MemoryReader)) :
    Prop where
  decoded : ∀ e ∈ evs, (decode table e.1 e.2).error.isSome ↔ e.1.isError
  shown : ∀ fmtSecs opts, ∀ e ∈ evs,
    ShowsError fmtSecs opts (decode table e.1 e.2) ↔ e.1.isError
  printed : ∀ floats entries, (SummarySink.run (decodeAll table evs)).Iterates entries →
    ∃ names lines last, SummarySink.finish floats entries =
        [SummarySink.header, SummarySink.rule] ++ lines ++ [SummarySink.rule, last] ∧
      names.Nodup ∧ (∀ name, name ∈ names ↔ ∃ e ∈ evs, syscallName table e.1.nr = name) ∧
      List.Forall₂ (fun name line =>
        Gives name (callsTo table evs name) (failuresOf table evs name) line) names lines ∧
      Gives "total".toList evs.length (evs.countP (·.1.isError)) last

variable {table : List SyscallInfo} {evs : List (SyscallEvent × MemoryReader)}

theorem syscalls_decodeAll :
    syscalls (decodeAll table evs) = evs.map fun e => decode table e.1 e.2 := by
  simp [syscalls, decodeAll, List.filterMap_map]

theorem calls_decodeAll (name : List Char) :
    (callsOf (decodeAll table evs) name).length = callsTo table evs name := by
  rw [callsOf, syscalls_decodeAll, ← List.countP_eq_length_filter, List.countP_map]
  rfl

theorem failures_decodeAll (h : ∀ e ∈ evs, (decode table e.1 e.2).error.isSome ↔ e.1.isError)
    (name : List Char) : (callsOf (decodeAll table evs) name).countP (·.error.isSome) =
      failuresOf table evs name := by
  rw [callsOf, syscalls_decodeAll, List.countP_filter, List.countP_map]
  refine List.countP_congr fun e he => ?_
  have hname : (decode table e.1 e.2).name = syscallName table e.1.nr := rfl
  simp [h e he, hname, and_comm]

/-- The printed summary gives what is counted of the events. -/
theorem printed_of_decoded (h : ∀ e ∈ evs, (decode table e.1 e.2).error.isSome ↔ e.1.isError)
    (floats : Floats) {entries : List Row}
    (hi : (SummarySink.run (decodeAll table evs)).Iterates entries) :
    ∃ names lines last, SummarySink.finish floats entries =
        [SummarySink.header, SummarySink.rule] ++ lines ++ [SummarySink.rule, last] ∧
      names.Nodup ∧ (∀ name, name ∈ names ↔ ∃ e ∈ evs, syscallName table e.1.nr = name) ∧
      List.Forall₂ (fun name line =>
        Gives name (callsTo table evs name) (failuresOf table evs name) line) names lines ∧
      Gives "total".toList evs.length (evs.countP (·.1.isError)) last := by
  have hsum := SummarySink.summarizes hi
  refine ⟨(SummarySink.sortRows entries).map Sigma.fst, _, _, rfl, hsum.distinct, fun name => ?_,
    ?_, ?_⟩
  · rw [hsum.complete, syscalls_decodeAll]
    simp [decode]
  · refine List.forall₂_map_left_iff.mpr (List.forall₂_map_right_iff.mpr
      (List.forall₂_same.mpr fun row hr => ?_))
    have hstat := (hsum.exact row hr).1
    have hcalls : row.2.calls = callsTo table evs row.1 :=
      (congrArg Stat.calls hstat).trans (calls_decodeAll row.1)
    have herrors : row.2.errors = failuresOf table evs row.1 :=
      (congrArg Stat.errors hstat).trans (failures_decodeAll h row.1)
    rw [SummarySink.rowLine_aligned, hcalls, herrors]
    exact ⟨_, _, _, rfl⟩
  · have hcalls := hsum.calls.2
    have herrors := hsum.errors.2
    rw [syscalls_decodeAll, List.length_map] at hcalls
    rw [syscalls_decodeAll, List.countP_map] at herrors
    rw [SummarySink.totalLine_aligned, hcalls, herrors.trans (List.countP_congr fun e he => h e he)]
    exact ⟨_, _, _, rfl⟩

theorem classified_of_decoded (h : ∀ e ∈ evs, (decode table e.1 e.2).error.isSome ↔ e.1.isError) :
    Classified table evs := by
  refine ⟨h, fun fmtSecs opts e he => (showsError_iff ..).trans (h e he), ?_⟩
  exact fun floats _ => printed_of_decoded h floats

/-- Failures are classified the same everywhere if and only if the errno of every failed call has a
name. -/
theorem classified_iff (table : List SyscallInfo) (evs : List (SyscallEvent × MemoryReader)) :
    Classified table evs ↔ ∀ e ∈ evs, e.1.isError → e.1.Named := by
  constructor
  · intro h e he herr
    exact ((decode_error ..).mp ((h.decoded e he).mpr herr)).2
  · intro h
    apply classified_of_decoded
    intro e he
    rw [decode_error]
    exact and_iff_left_of_imp (h e he)

/-- A call that a signal interrupted, to be restarted, is not classified as failed. -/
theorem restart_unnamed :
    ¬ Classified SYSCALLS [(⟨1, 1, 0, #v[0, 0, 0, 0, 0, 0], -512, 0, 0⟩, fun _ _ => none)] := by
  intro h
  have herr := (h.decoded _ (List.mem_singleton_self _)).mpr (by decide)
  exact absurd ((decode_error ..).mp herr).2.1 (by decide)

end Output

end Syren
