import Syren.Decode.Fields
import Syren.Output.Consumer
import Syren.Output.Printable

/-! A line of the text output, read by one who knows the options: what process it is about, and the
name, the arguments and the result of the call. -/
namespace Syren.Output
open Text Layout

namespace TextSink

/-- What a line says. The process and the seconds are there if the options show them. -/
inductive Line where
  | syscall (pid : Option ℕ) (name : List Char) (args : List (List Char)) (ret : List Char)
      (secs : Option (List Char))
  | exit (pid : Option ℕ) (code : ℤ)
  | signal (pid : Option ℕ) (name : List Char)
  deriving DecidableEq

/-- What the line of a record is to say. -/
def lineOf (opts : TextOptions) : Record → Line
  | .syscall s => .syscall (if opts.showPid then some s.pid.toNat else none) s.name
      (s.args.map (·.value)) s.retvalStr
      (if opts.showTiming then some (fmtSecs s.durationNs) else none)
  | .exit pid code => .exit (if opts.showPid then some pid.toNat else none) code.toInt
  | .signal pid sig => .signal (if opts.showPid then some pid.toNat else none) (signalName sig)

/-- A signed number of so many bits. -/
def readInt (bits : ℕ) (text : List Char) : Option ℤ :=
  match text with
  | '-' :: text => (parseUnsigned bits 10 text).map fun n => -Int.ofNat n
  | text => (parseUnsigned bits 10 text).map Int.ofNat

def readPid (opts : TextOptions) (text : List Char) : Option (Option ℕ × List Char) :=
  if opts.showPid then do
    let (number, rest) ← splitOnce ']' (← stripStart "[pid ".toList text)
    let pid ← parseUnsigned 32 10 (number.dropWhile (· = ' '))
    return (some pid, ← stripStart [' '] rest)
  else some (none, text)

/-- The result of a call, and its duration if it is shown. -/
def readResult (opts : TextOptions) (text : List Char) :
    Option (List Char × Option (List Char)) :=
  if opts.showTiming then do
    let (ret, secs) ← splitOnce '<' text
    return (ret.dropLast, some secs.dropLast)
  else some (text, none)

/-- The rest of a line, after the process. -/
def readRest (opts : TextOptions) (pid : Option ℕ) (text : List Char) : Option Line :=
  match stripStart "+++ exited with ".toList text, stripStart "--- ".toList text with
  | some rest, _ => do
    let (code, _) ← splitOnce ' ' rest
    return .exit pid (← readInt 32 code)
  | none, some rest => some (.signal pid (rest.take (rest.length - " ---".toList.length)))
  | none, none => do
    let (name, args, rest) ← readCall text
    let (ret, secs) ← readResult opts (← stripStart " = ".toList rest)
    return .syscall pid name args ret secs

def readLine (opts : TextOptions) (text : List Char) : Option Line := do
  let (pid, rest) ← readPid opts (stripSgr 0 text)
  readRest opts pid rest

theorem stripStart_append (s rest : List Char) : stripStart s (s ++ rest) = some rest := by
  induction s with
  | nil => rfl
  | cons c s ih => simp [stripStart, ih]

theorem stripStart_none {c : Char} {s text : List Char} (h : text.head? ≠ some c) :
    stripStart (c :: s) text = none := by
  cases text with
  | nil => rfl
  | cons d text =>
    have hne : d ≠ c := fun he => h (congrArg some he)
    simp [stripStart, hne]

theorem readInt_decInt (code : Int32) : readInt 32 (decInt code.toInt) = some code.toInt := by
  have hlow := code.le_toInt
  have hhigh := code.toInt_lt
  have hfits : code.toInt.natAbs < Nat.pow 2 32 := by
    show code.toInt.natAbs < 4294967296
    omega
  have hparse : parseUnsigned 32 10 (Nat.toDigits 10 code.toInt.natAbs) =
      some code.toInt.natAbs := parseUnsigned_toDigits (by decide) (by decide) hfits
  unfold decInt
  split_ifs with hneg
  · show (parseUnsigned 32 10 (dec code.toInt.natAbs)).map _ = _
    rw [dec, hparse, Option.map_some]
    exact congrArg some (show -(code.toInt.natAbs : ℤ) = code.toInt by omega)
  · have hminus := minus_notMem_dec code.toInt.natAbs
    unfold readInt
    split
    next rest heq => exact absurd (heq ▸ List.mem_cons_self) hminus
    next =>
      rw [dec, hparse, Option.map_some]
      exact congrArg some (Int.ofNat_natAbs_of_nonneg (Int.not_lt.mp hneg))

theorem readPid_pidPart (opts : TextOptions) (pid : UInt32) (rest : List Char) :
    readPid opts (pidPart opts pid ++ rest) =
      some (if opts.showPid then some pid.toNat else none, rest) := by
  unfold readPid pidPart
  split_ifs with hshow
  · have hspace : ' ' ∉ dec pid.toNat := space_notMem_dec _
    have hclose : ']' ∉ padLeft 5 (dec pid.toNat) := by
      have hdigit := notMem_toDigits (b := 10) (by decide)
        (fun _ => Nat.digitChar_ne ']' (by decide)) pid.toNat
      simpa [padLeft, dec] using hdigit
    have hdrop : (padLeft 5 (dec pid.toNat)).dropWhile (· = ' ') = dec pid.toNat := by
      rw [padLeft, List.dropWhile_append_of_pos (by simp)]
      cases hdigits : dec pid.toNat with
      | nil => rfl
      | cons c digits =>
        have hc : c ≠ ' ' := fun he => hspace (hdigits ▸ he ▸ List.mem_cons_self)
        exact List.dropWhile_cons_of_neg (by simpa using hc)
    have hparse : parseUnsigned 32 10 (Nat.toDigits 10 pid.toNat) = some pid.toNat :=
      parseUnsigned_toDigits (by decide) (by decide) pid.toNat_lt
    have hend : "] ".toList ++ rest = ']' :: ' ' :: rest := rfl
    rw [List.append_assoc, List.append_assoc, hend, stripStart_append]
    simp only [Option.bind_eq_bind, Option.bind_some, splitOnce_append hclose, hdrop]
    rw [dec, hparse]
    rfl
  · rfl

/-- The name of a call opens no parenthesis and begins with none of the signs of the other lines. -/
theorem syscallName_notMem {table : List SyscallInfo} (h : AllNames table) (nr : UInt64) :
    '(' ∉ syscallName table nr ∧ '+' ∉ syscallName table nr ∧ '-' ∉ syscallName table nr := by
  unfold syscallName
  split
  next info hinfo =>
    obtain ⟨number, -, hrow⟩ := Option.bind_eq_some_iff.mp hinfo
    have hlacks := h info (List.mem_of_find?_eq_some hrow)
    exact ⟨hlacks.notMem (b := 40) (by decide) (by decide),
      hlacks.notMem (b := 43) (by decide) (by decide),
      hlacks.notMem (b := 45) (by decide) (by decide)⟩
  next =>
    have hdigit {c : Char} (hc : ∀ n : ℕ, n.digitChar ≠ c) : c ∉ dec nr.toNat :=
      notMem_toDigits (by decide) hc _
    simp only [List.mem_append, not_or]
    exact ⟨⟨by decide, hdigit fun _ => Nat.digitChar_ne '(' (by decide)⟩,
      ⟨by decide, hdigit fun _ => Nat.digitChar_ne '+' (by decide)⟩,
      ⟨by decide, hdigit fun _ => Nat.digitChar_ne '-' (by decide)⟩⟩

/-- What is shown as the result of a call does not look like a duration. -/
theorem less_notMem_retvalStr (table : List SyscallInfo) (ev : SyscallEvent) (mem : MemoryReader) :
    '<' ∉ (decode table ev mem).retvalStr := by
  have hall : ∀ p ∈ ERRNOS, Lacks [60] p.2.1 ∧ Lacks [60] p.2.2 := by decide +kernel
  have hdigit {b : ℕ} (hb : 1 < b) (n : ℕ) : '<' ∉ Nat.toDigits b n :=
    notMem_toDigits hb (fun _ => Nat.digitChar_ne '<' (by decide)) n
  unfold DecodedSyscall.retvalStr
  split
  next e he =>
    simp only [decode, Option.map_eq_some_iff, Option.bind_eq_some_iff] at he
    obtain ⟨d, ⟨code, -, hd⟩, rfl⟩ := he
    simp only [errno, nameAndDesc, Option.map_map, Option.map_eq_some_iff] at hd
    obtain ⟨p, hp, rfl⟩ := hd
    obtain ⟨hname, hdesc⟩ := hall p (List.mem_of_find?_eq_some hp)
    have hshown := hname.notMem (c := '<') (b := 60) (by decide) (by decide)
    have htold := hdesc.notMem (c := '<') (b := 60) (by decide) (by decide)
    simp only [List.mem_append, not_or]
    exact ⟨⟨⟨⟨by decide, hshown⟩, by decide⟩, htold⟩, by decide⟩
  next =>
    split_ifs
    · simpa [hex] using hdigit (by decide) _
    · unfold decInt
      split_ifs
      · simpa [dec] using hdigit (by decide) _
      · exact hdigit (by decide) _

theorem readResult_timing (opts : TextOptions) (s : DecodedSyscall) (h : '<' ∉ s.retvalStr) :
    readResult opts (s.retvalStr ++ timingPart fmtSecs opts s) = some (s.retvalStr,
      if opts.showTiming then some (fmtSecs s.durationNs) else none) := by
  unfold readResult timingPart
  split_ifs
  · have hmove : s.retvalStr ++ (" <".toList ++ fmtSecs s.durationNs ++ ['>']) =
        (s.retvalStr ++ [' ']) ++ '<' :: (fmtSecs s.durationNs ++ ['>']) := by
      have hsep : " <".toList = [' ', '<'] := by decide
      simp [hsep]
    have hret : '<' ∉ s.retvalStr ++ [' '] := by simpa using h
    rw [hmove, splitOnce_append hret]
    simp
  · rw [List.append_nil]

/-- The colours of a line are no part of what it tells. -/
theorem strip_line {rec : Record} (h : CleanRecord rec) (opts : TextOptions) :
    stripSgr 0 (line opts rec) = line (withColor opts false) rec := by
  have hopts : withColor opts opts.color = opts := rfl
  rw [← hopts]
  cases opts.color with
  | false => exact (decorates_plain (clean_line h opts).esc_notMem).stripped.1
  | true => exact (decorates_line h opts).stripped.1

section Kinds

variable {opts : TextOptions} {pid : Option ℕ}

theorem readRest_exit (opts : TextOptions) (code : Int32) : readRest opts pid
    ("+++ exited with ".toList ++ (decInt code.toInt ++ " +++".toList)) =
      some (.exit pid code.toInt) := by
  have hspace : splitOnce ' ' (decInt code.toInt ++ ' ' :: "+++".toList) =
      some (decInt code.toInt, "+++".toList) := splitOnce_append (space_notMem_decInt code.toInt)
  have hend : " +++".toList = ' ' :: "+++".toList := by decide
  rw [readRest, stripStart_append, hend]
  dsimp only
  rw [hspace]
  show (readInt 32 (decInt code.toInt)).bind _ = _
  rw [readInt_decInt]
  rfl

theorem readRest_signal (opts : TextOptions) (name : List Char) :
    readRest opts pid ("--- ".toList ++ (name ++ " ---".toList)) = some (.signal pid name) := by
  have hother : stripStart "+++ exited with ".toList ("--- ".toList ++ (name ++ " ---".toList)) =
      none := stripStart_none (c := '+') (by simp)
  have hlen : (name ++ " ---".toList).length - " ---".toList.length = name.length := by simp
  rw [readRest, hother, stripStart_append]
  dsimp only
  rw [hlen, List.take_left]

theorem readRest_syscall {s : DecodedSyscall} (hopen : '(' ∉ s.name) (hplus : '+' ∉ s.name)
    (hminus : '-' ∉ s.name) (hargs : ∀ a ∈ s.args, IsField a.value) (hret : '<' ∉ s.retvalStr) :
    readRest opts pid (s.name ++ '(' :: [',', ' '].intercalate (s.args.map (·.value)) ++
      ')' :: (" = ".toList ++ (s.retvalStr ++ timingPart fmtSecs opts s))) =
      some (.syscall pid s.name (s.args.map (·.value)) s.retvalStr
        (if opts.showTiming then some (fmtSecs s.durationNs) else none)) := by
  have hfields : ∀ f ∈ s.args.map (·.value), IsField f := by
    intro f hf
    obtain ⟨a, ha, rfl⟩ := List.mem_map.mp hf
    exact hargs a ha
  have hhead {c : Char} (hc : c ∉ s.name) (hparen : c ≠ '(') (inside rest : List Char) :
      (s.name ++ '(' :: inside ++ rest).head? ≠ some c := by
    cases hname : s.name with
    | nil => simpa using Ne.symm hparen
    | cons d name =>
      rintro ⟨⟩
      exact hc (hname ▸ List.mem_cons_self)
  have hexit (inside rest : List Char) :
      stripStart "+++ exited with ".toList (s.name ++ '(' :: inside ++ rest) = none :=
    stripStart_none (hhead hplus (by decide) inside rest)
  have hsignal (inside rest : List Char) :
      stripStart "--- ".toList (s.name ++ '(' :: inside ++ rest) = none :=
    stripStart_none (hhead hminus (by decide) inside rest)
  rw [readRest, hexit, hsignal]
  dsimp only
  rw [readCall_call hopen hfields]
  simp only [Option.bind_eq_bind, Option.bind_some, stripStart_append,
    readResult_timing opts s hret]
  rfl

end Kinds

theorem readLine_line (opts : TextOptions) (e : Event × MemoryReader) :
    readLine opts (line opts (toRecord SYSCALLS e)) =
      some (lineOf opts (toRecord SYSCALLS e)) := by
  rw [readLine, strip_line (cleanRecord_toRecord visible_SYSCALLS e)]
  obtain ⟨event, mem⟩ := e
  cases event with
  | syscall ev =>
    let s := decode SYSCALLS ev mem
    obtain ⟨hopen, hplus, hminus⟩ := syscallName_notMem names_SYSCALLS ev.nr
    have hline : line (withColor opts false) (.syscall s) = pidPart opts s.pid ++
        (s.name ++ '(' :: [',', ' '].intercalate (s.args.map (·.value)) ++
          ')' :: (" = ".toList ++ (s.retvalStr ++ timingPart fmtSecs opts s))) := by
      simp [line_syscall, writeCall, callPart, returnPart, Palette.PLAIN]
    show (readPid opts (line (withColor opts false) (.syscall s))).bind _ = _
    rw [hline, readPid_pidPart]
    exact readRest_syscall hopen hplus hminus (isField_decode SYSCALLS ev mem)
      (less_notMem_retvalStr SYSCALLS ev mem)
  | processExit pid code =>
    have hline : line (withColor opts false) (.exit pid code) = pidPart opts pid ++
        ("+++ exited with ".toList ++ (decInt code.toInt ++ " +++".toList)) := by
      simp [line_exit, Palette.PLAIN]
    show (readPid opts (line (withColor opts false) (.exit pid code))).bind _ = _
    rw [hline, readPid_pidPart]
    exact readRest_exit opts code
  | signal pid sig =>
    have hline : line (withColor opts false) (.signal pid sig) = pidPart opts pid ++
        ("--- ".toList ++ (signalName sig ++ " ---".toList)) := by
      simp [line_signal, Palette.PLAIN]
    show (readPid opts (line (withColor opts false) (.signal pid sig))).bind _ = _
    rw [hline, readPid_pidPart]
    exact readRest_signal opts (signalName sig)

/-- What a consumer who knows the options gets from a text output. -/
def readText (opts : TextOptions) (bytes : List UInt8) : Option (List Line) := do
  (← endedLines bytes).mapM (readLine opts)

/-- Every line of the text output gives back what it was written for: the process, the name of the
call, each argument by itself, the result and the duration. No argument and no memory of the traced
process can be made to look like another part of the line or like another line. -/
theorem text_readsBack (fmt : Formatting) (opts : TextOptions)
    (evs : List (Event × MemoryReader)) :
    readText opts (((Sink.text opts).allWrites fmt (evs.map (toRecord SYSCALLS))).flatMap
      Prod.fst) = some (evs.map fun e => lineOf opts (toRecord SYSCALLS e)) := by
  have hlines : ∀ text ∈ (evs.map (toRecord SYSCALLS)).map (line opts), '\n' ∉ text := by
    intro text htext
    obtain ⟨rec, hrec, rfl⟩ := List.mem_map.mp htext
    obtain ⟨e, -, rfl⟩ := List.mem_map.mp hrec
    exact newline_notMem_line (cleanRecord_toRecord visible_SYSCALLS e) opts
  have hwritten : (Sink.text opts).output fmt (evs.map (toRecord SYSCALLS)) =
      utf8 (((evs.map (toRecord SYSCALLS)).map (line opts)).flatMap (· ++ ['\n'])) := by
    rw [List.flatMap_map]
    show utf8 _ = _
    congr 1
    exact congrArg (List.flatMap · _) (funext (record_line opts))
  rw [readText, Sink.allWrites_output, hwritten, endedLines_utf8 hlines]
  show ((evs.map (toRecord SYSCALLS)).map (line opts)).mapM (readLine opts) = _
  clear hlines hwritten
  induction evs with
  | nil => rfl
  | cons e evs ih => simp only [List.map_cons, List.mapM_cons, readLine_line, ih]; rfl

end TextSink

end Syren.Output
