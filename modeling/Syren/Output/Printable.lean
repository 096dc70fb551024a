import Syren.Decode.Clean
import Syren.Output.Float
import Syren.Output.Text

/-! The text lines of a trace: one for each record, of printable characters only, and with colours
that change nothing else. -/
namespace Syren.Output
open Text Layout

theorem clean_padLeft {text : List Char} (h : Clean text) (width : ℕ) :
    Clean (padLeft width text) := by
  have hspace : Printable ' ' := by decide
  simp [padLeft, hspace, h]

theorem clean_fixed (digits : ℕ) (x : ℚ) : Clean (fixed digits x) := by
  have hpoint : Printable '.' := by decide
  have hzero : Printable '0' := by decide
  simp [fixed, hpoint, hzero]

/-- The record of an event, which is decoded over the memory of its task. -/
def toRecord (table : List SyscallInfo) (e : Event × MemoryReader) : Record :=
  match e.1 with
  | .syscall ev => .syscall (decode table ev e.2)
  | .processExit pid code => .exit pid code
  | .signal pid sig => .signal pid sig

/-- The call of a record, if there is one, has printable texts. -/
def CleanRecord (rec : Record) : Prop := ∀ s, rec = .syscall s → CleanCall s

theorem cleanRecord_toRecord {table : List SyscallInfo} (h : AllVisible table)
    (e : Event × MemoryReader) : CleanRecord (toRecord table e) := by
  intro s hs
  unfold toRecord at hs
  split at hs
  · cases hs
    exact cleanCall_decode h _ _
  · cases hs
  · cases hs

namespace TextSink

/-- The loop of `signature` over the arguments. -/
def pushArgs (out : List Char) (args : List DecodedArg) : List Char :=
  args.zipIdx.foldl (fun out a => (if a.2 > 0 then out ++ ", ".toList else out) ++ a.1.value) out

/-- The loop of `write_call` over the arguments: what is written, piece by piece. -/
def writeArgs (args : List DecodedArg) : List (List Char) :=
  args.zipIdx.flatMap fun a => (if a.2 > 0 then [", ".toList] else []) ++ [a.1.value]

/-- The colours of a record's line, in order. -/
def colors : Record → List (List Char)
  | .syscall s => [Palette.COLOR.name, Palette.COLOR.reset] ++
      if s.error.isSome then [Palette.COLOR.error, Palette.COLOR.reset] else []
  | _ => [Palette.COLOR.info, Palette.COLOR.reset]

/-- The line of a record, without its end. -/
def line (opts : TextOptions) (rec : Record) : List Char := (record fmtSecs opts rec).dropLast

/-- All that is written for some records. -/
def written (opts : TextOptions) (recs : List Record) : List Char :=
  recs.flatMap (record fmtSecs opts)

theorem intercalate_values (a : DecodedArg) (args : List DecodedArg) :
    [',', ' '].intercalate ((a :: args).map (·.value)) =
      a.value ++ args.flatMap fun b => ", ".toList ++ b.value := by
  induction args generalizing a with
  | nil => simp
  | cons b args ih => simpa [List.intercalate_cons_cons] using ih b

theorem pushArgs_later (args : List DecodedArg) (k : ℕ) (out : List Char) :
    (args.zipIdx (k + 1)).foldl
      (fun out a => (if a.2 > 0 then out ++ ", ".toList else out) ++ a.1.value) out =
      out ++ args.flatMap fun b => ", ".toList ++ b.value := by
  induction args generalizing k out with
  | nil => simp
  | cons b args ih =>
    have hlater := ih (k + 1) (out ++ ", ".toList ++ b.value)
    simpa [List.zipIdx_cons] using hlater

theorem writeArgs_later (args : List DecodedArg) (k : ℕ) :
    ((args.zipIdx (k + 1)).flatMap fun a =>
      (if a.2 > 0 then [", ".toList] else []) ++ [a.1.value]).flatten =
      args.flatMap fun b => ", ".toList ++ b.value := by
  induction args generalizing k with
  | nil => simp
  | cons b args ih => simpa [List.zipIdx_cons] using ih (k + 1)

/-- Both loops put a separator between the arguments. -/
theorem pushArgs_eq (out : List Char) (args : List DecodedArg) :
    pushArgs out args = out ++ [',', ' '].intercalate (args.map (·.value)) := by
  cases args with
  | nil => simp [pushArgs]
  | cons a args =>
    have hlater := pushArgs_later args 0 (out ++ a.value)
    rw [intercalate_values, pushArgs, List.zipIdx_cons, List.foldl_cons]
    simpa using hlater

theorem flatten_writeArgs (args : List DecodedArg) :
    (writeArgs args).flatten = [',', ' '].intercalate (args.map (·.value)) := by
  cases args with
  | nil => simp [writeArgs]
  | cons a args =>
    have hlater := writeArgs_later args 0
    rw [intercalate_values, writeArgs, List.zipIdx_cons, List.flatMap_cons, List.flatten_append]
    simpa using hlater

theorem signature_loop (s : DecodedSyscall) :
    s.signature = pushArgs (s.name ++ ['(']) s.args ++ [')'] := by
  simp [DecodedSyscall.signature, pushArgs_eq]

theorem callPart_loop (p : Palette) (s : DecodedSyscall) :
    callPart p s = p.name ++ s.name ++ p.reset ++ '(' :: (writeArgs s.args).flatten ++ [')'] := by
  rw [callPart, flatten_writeArgs]

theorem line_syscall (opts : TextOptions) (s : DecodedSyscall) : line opts (.syscall s) =
    pidPart opts s.pid ++ writeCall (Palette.new opts.color) s ++ timingPart fmtSecs opts s :=
  List.dropLast_concat

theorem line_exit (opts : TextOptions) (pid : UInt32) (code : Int32) : line opts (.exit pid code) =
    pidPart opts pid ++ (Palette.new opts.color).info ++ "+++ exited with ".toList ++
      decInt code.toInt ++ " +++".toList ++ (Palette.new opts.color).reset :=
  List.dropLast_concat

theorem line_signal (opts : TextOptions) (pid : UInt32) (sig : Int32) :
    line opts (.signal pid sig) = pidPart opts pid ++ (Palette.new opts.color).info ++
      "--- ".toList ++ signalName sig ++ " ---".toList ++ (Palette.new opts.color).reset :=
  List.dropLast_concat

theorem record_line (opts : TextOptions) (rec : Record) :
    record fmtSecs opts rec = line opts rec ++ ['\n'] := by
  cases rec with
  | syscall s => rw [line_syscall, record]
  | exit pid code => rw [line_exit, record]
  | signal pid sig => rw [line_signal, record]

/-- The parts of a line that have no colour. -/
theorem clean_pidPart (opts : TextOptions) (pid : UInt32) : Clean (pidPart opts pid) := by
  have hpid := clean_padLeft (clean_dec pid.toNat) 5
  unfold pidPart
  split_ifs
  · simp only [clean_append]
    exact ⟨⟨by decide, hpid⟩, by decide⟩
  · exact clean_nil

theorem clean_timingPart (opts : TextOptions) (s : DecodedSyscall) :
    Clean (timingPart fmtSecs opts s) := by
  unfold timingPart
  split_ifs
  · simp only [clean_append]
    exact ⟨⟨by decide, clean_fixed _ _⟩, by decide⟩
  · exact clean_nil

theorem clean_signalName (sig : Int32) : Clean (signalName sig) := by
  unfold signalName
  split
  next name hname => exact Syren.clean_signalName sig _ (by simp [hname])
  next => exact clean_append.mpr ⟨by decide, clean_decInt _⟩

theorem clean_args {s : DecodedSyscall} (h : CleanCall s) :
    Clean ([',', ' '].intercalate (s.args.map (·.value))) := by
  apply clean_intercalate (by decide)
  simpa using h.args

theorem decorates_clean {text : List Char} (h : Clean text) : Decorates [] text text :=
  decorates_plain h.esc_notMem

theorem decorates_code {code : List Char} (params : List Char) (h : params.all isParam = true)
    (hcode : code = sgr params) : Decorates [code] code [] := by
  rw [hcode]
  exact decorates_sgr (List.all_eq_true.mp h)

theorem decorates_reset :
    Decorates [Palette.COLOR.reset] Palette.COLOR.reset Palette.PLAIN.reset :=
  decorates_code ['0'] (by decide) (by decide)

/-- A call with and without its colours. -/
theorem decorates_call {s : DecodedSyscall} (h : CleanCall s) :
    Decorates (colors (.syscall s)) (writeCall Palette.COLOR s) (writeCall Palette.PLAIN s) := by
  have hname : Decorates [Palette.COLOR.name] Palette.COLOR.name Palette.PLAIN.name :=
    decorates_code ['3', '6'] (by decide) (by decide)
  have herror : Decorates [Palette.COLOR.error] Palette.COLOR.error Palette.PLAIN.error :=
    decorates_code ['3', '1'] (by decide) (by decide)
  have hret := decorates_clean h.retvalStr
  have hreturn : Decorates
      (if s.error.isSome then [Palette.COLOR.error, Palette.COLOR.reset] else [])
      (returnPart Palette.COLOR s) (returnPart Palette.PLAIN s) := by
    unfold returnPart
    split_ifs
    · exact (herror.append hret).append decorates_reset
    · exact hret
  have hargs : Clean ('(' :: [',', ' '].intercalate (s.args.map (·.value)) ++ ") = ".toList) := by
    simp only [clean_append, clean_cons]
    exact ⟨⟨by decide, clean_args h⟩, by decide⟩
  have hall := (((hname.append (decorates_clean h.name)).append decorates_reset).append
    (decorates_clean hargs)).append hreturn
  simpa [writeCall, callPart, colors] using hall

/-- The line of an exit or a signal with and without its colours. -/
theorem decorates_info {text : List Char} (h : Clean text) :
    Decorates [Palette.COLOR.info, Palette.COLOR.reset]
      (Palette.COLOR.info ++ text ++ Palette.COLOR.reset)
      (Palette.PLAIN.info ++ text ++ Palette.PLAIN.reset) := by
  have hinfo : Decorates [Palette.COLOR.info] Palette.COLOR.info Palette.PLAIN.info :=
    decorates_code ['3', '3'] (by decide) (by decide)
  exact (hinfo.append (decorates_clean h)).append decorates_reset

theorem clean_exit (code : Int32) :
    Clean ("+++ exited with ".toList ++ decInt code.toInt ++ " +++".toList) := by
  simp only [clean_append]
  exact ⟨⟨by decide, clean_decInt _⟩, by decide⟩

theorem clean_signal (sig : Int32) :
    Clean ("--- ".toList ++ signalName sig ++ " ---".toList) := by
  simp only [clean_append]
  exact ⟨⟨by decide, clean_signalName _⟩, by decide⟩

/-- The same options with or without colours. -/
def withColor (opts : TextOptions) (color : Bool) : TextOptions := { opts with color := color }

section WithColor

variable (opts : TextOptions) (color : Bool)

@[simp] theorem pidPart_withColor (pid : UInt32) :
    pidPart (withColor opts color) pid = pidPart opts pid := rfl

@[simp] theorem timingPart_withColor (s : DecodedSyscall) :
    timingPart fmtSecs (withColor opts color) s = timingPart fmtSecs opts s := rfl

@[simp] theorem palette_withColor :
    Palette.new (withColor opts color).color = Palette.new color := rfl

@[simp] theorem palette_true : Palette.new true = Palette.COLOR := rfl

@[simp] theorem palette_false : Palette.new false = Palette.PLAIN := rfl

end WithColor

/-- A line without colours is printable. -/
theorem clean_line {rec : Record} (h : CleanRecord rec) (opts : TextOptions) :
    Clean (line (withColor opts false) rec) := by
  cases rec with
  | syscall s =>
    have hs := h s rfl
    have hcall : Clean (writeCall Palette.PLAIN s) := by
      have hdelims : Printable '(' ∧ Printable ')' ∧ Printable ' ' ∧ Printable '=' := by decide
      simp [writeCall, callPart, returnPart, Palette.PLAIN, hs.name, clean_args hs, hs.retvalStr,
        hdelims]
    simp [line_syscall, clean_pidPart, clean_timingPart, hcall]
  | exit pid code =>
    simpa [line_exit, clean_pidPart, Palette.PLAIN] using clean_exit code
  | signal pid sig =>
    simpa [line_signal, clean_pidPart, Palette.PLAIN] using clean_signal sig

/-- With colours, a line is the plain line with the sink's own sequences put in. -/
theorem decorates_line {rec : Record} (h : CleanRecord rec) (opts : TextOptions) :
    Decorates (colors rec) (line (withColor opts true) rec) (line (withColor opts false) rec) := by
  have hpid (pid : UInt32) := decorates_clean (clean_pidPart opts pid)
  cases rec with
  | syscall s =>
    have htiming := decorates_clean (clean_timingPart opts s)
    have hall := ((hpid s.pid).append (decorates_call (h s rfl))).append htiming
    simpa [line_syscall] using hall
  | exit pid code =>
    have hall := (hpid pid).append (decorates_info (clean_exit code))
    simpa [line_exit, colors] using hall
  | signal pid sig =>
    have hall := (hpid pid).append (decorates_info (clean_signal sig))
    simpa [line_signal, colors] using hall

theorem newline_notMem_colors (rec : Record) : '\n' ∉ (colors rec).flatten := by
  unfold colors
  split
  · split_ifs <;> decide
  · decide

theorem newline_notMem_line {rec : Record} (h : CleanRecord rec) (opts : TextOptions) :
    '\n' ∉ line opts rec := by
  have hplain := (clean_line h opts).newline_notMem
  have hopts : withColor opts opts.color = opts := rfl
  rw [← hopts]
  cases opts.color with
  | false => exact hplain
  | true =>
    intro hline
    rcases (decorates_line h opts).chars _ hline with hline | hline
    · exact hplain hline
    · exact newline_notMem_colors rec hline

theorem decorates_written {recs : List Record} (h : ∀ rec ∈ recs, CleanRecord rec)
    (opts : TextOptions) : Decorates (recs.flatMap colors) (written (withColor opts true) recs)
      (written (withColor opts false) recs) := by
  apply Decorates.flatMap
  intro rec hrec
  have hnewline : Decorates [] ['\n'] ['\n'] := decorates_plain (by decide)
  rw [record_line, record_line]
  simpa using (decorates_line (h rec hrec) opts).append hnewline

theorem written_plain {recs : List Record} (h : ∀ rec ∈ recs, CleanRecord rec)
    (opts : TextOptions) : ∀ c ∈ written (withColor opts false) recs, Printable c ∨ c = '\n' := by
  intro c hc
  obtain ⟨rec, hrec, hcrec⟩ := List.mem_flatMap.mp hc
  rw [record_line, List.mem_append, List.mem_singleton] at hcrec
  exact hcrec.imp_left (clean_line (h rec hrec) opts c)

theorem count_newline {recs : List Record} (h : ∀ rec ∈ recs, CleanRecord rec)
    (opts : TextOptions) : (written opts recs).count '\n' = recs.length := by
  induction recs with
  | nil => rfl
  | cons rec recs ih =>
    have hline := List.count_eq_zero_of_not_mem (newline_notMem_line (h rec (by simp)) opts)
    have hrest := ih fun r hr => h r (List.mem_cons_of_mem rec hr)
    unfold written at hrest ⊢
    rw [List.flatMap_cons, record_line, List.count_append, List.count_append, hline, hrest]
    simp [Nat.add_comm]

/-- Without colours, pids and timing, a call is written as its signature and its return value. -/
theorem record_bare (s : DecodedSyscall) : record fmtSecs ⟨false, false, false⟩ (.syscall s) =
    s.signature ++ " = ".toList ++ s.retvalStr ++ ['\n'] := by
  simp [record, pidPart, timingPart, writeCall, callPart, returnPart, Palette.PLAIN,
    DecodedSyscall.signature]

/-- What is written for some records is one line for each, in which only the sink's own colours are
not printable, and the colours change nothing else. -/
structure Unforged (opts : TextOptions) (recs : List Record) : Prop where
  line : ∀ rec ∈ recs, ∃ text, record fmtSecs opts rec = text ++ ['\n'] ∧ '\n' ∉ text
  lines : (written opts recs).count '\n' = recs.length
  printable : ∀ c ∈ stripSgr 0 (written opts recs), Printable c ∨ c = '\n'
  own : sgrs 0 (written opts recs) = if opts.color then recs.flatMap colors else []
  decoration : stripSgr 0 (written (withColor opts true) recs) =
    written (withColor opts false) recs
  call : ∀ s, .syscall s ∈ recs → record fmtSecs ⟨false, false, false⟩ (.syscall s) =
    s.signature ++ " = ".toList ++ s.retvalStr ++ ['\n']

theorem unforged_of_clean {recs : List Record} (h : ∀ rec ∈ recs, CleanRecord rec)
    (opts : TextOptions) : Unforged opts recs := by
  have hdecor := (decorates_written h opts).stripped
  have hesc : ESC ∉ written (withColor opts false) recs := by
    intro hmem
    exact absurd (written_plain h opts ESC hmem) (by decide)
  have hplain := (decorates_plain hesc).stripped
  have hopts : withColor opts opts.color = opts := rfl
  have hstripped : stripSgr 0 (written opts recs) = written (withColor opts false) recs := by
    rw [← hopts]
    cases opts.color with
    | false => exact hplain.1
    | true => exact hdecor.1
  refine ⟨fun rec hrec => ⟨_, record_line opts rec, newline_notMem_line (h rec hrec) opts⟩,
    count_newline h opts, ?_, ?_, hdecor.1, fun s _ => record_bare s⟩
  · rw [hstripped]
    exact written_plain h opts
  · rw [← hopts]
    cases opts.color with
    | false => exact hplain.2
    | true => exact hdecor.2

/-- Whatever a traced process does and whatever its memory holds, its trace cannot be forged. -/
theorem unforged (opts : TextOptions) (evs : List (Event × MemoryReader)) :
    Unforged opts (evs.map (toRecord SYSCALLS)) := by
  apply unforged_of_clean
  intro rec hrec
  obtain ⟨e, -, rfl⟩ := List.mem_map.mp hrec
  exact cleanRecord_toRecord visible_SYSCALLS e

end TextSink

end Syren.Output
