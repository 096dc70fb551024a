import Syren.Output.Consumer
import Syren.Output.Printable
import Syren.Output.Rounding

/-! The table of the summary as its readers take it apart: the counts are exact, the rounded columns
are near what they stand for, and neither of them rises from one row to the next. -/
namespace Syren.Output
open Text Layout Gen

namespace SummarySink

/-- What the cells of a row say. -/
structure Cells where
  pct : ℕ
  micros : ℕ
  usecs : ℕ
  calls : ℕ
  errors : ℕ
  name : List Char

/-- What the table says: its rows, and the last line. -/
structure Table where
  rows : List Cells
  micros : ℕ
  calls : ℕ
  errors : ℕ

def readRow (line : List Char) : Option Cells :=
  match splitWhitespace line with
  | [pct, secs, usecs, calls, name] => do
    return ⟨← readFixed 2 pct, ← readFixed 6 secs, ← readCount usecs, ← readCount calls, 0, name⟩
  | [pct, secs, usecs, calls, errors, name] => do
    return ⟨← readFixed 2 pct, ← readFixed 6 secs, ← readCount usecs, ← readCount calls,
      ← readCount errors, name⟩
  | _ => none

def readTotal (line : List Char) (rows : List Cells) : Option Table :=
  match splitWhitespace line with
  | [_, secs, calls, _] => do return ⟨rows, ← readFixed 6 secs, ← readCount calls, 0⟩
  | [_, secs, calls, errors, _] => do
    return ⟨rows, ← readFixed 6 secs, ← readCount calls, ← readCount errors⟩
  | _ => none

/-- Between a header and a total, each with a rule, there is a line for each row. -/
def readTable (bytes : List UInt8) : Option Table := do
  let lines ← endedLines bytes
  let rows ← ((lines.drop 2).dropLast.dropLast).mapM readRow
  readTotal (← lines.getLast?) rows

/-- What a table tells of some records. Times are sums of nanoseconds. -/
structure Tells (recs : List Record) (t : Table) : Prop where
  distinct : (t.rows.map Cells.name).Nodup
  complete : ∀ name, name ∈ t.rows.map Cells.name ↔ ∃ s ∈ syscalls recs, s.name = name
  counts : ∀ c ∈ t.rows, c.calls = (callsOf recs c.name).length ∧
    c.errors = (callsOf recs c.name).countP (·.error.isSome) ∧
    c.usecs = (statOf (callsOf recs c.name)).totalNs / c.calls / 1000
  near : ∀ c ∈ t.rows, |(1000 * c.micros : ℚ) - (statOf (callsOf recs c.name)).totalNs| ≤
    500 + (statOf (callsOf recs c.name)).totalNs / 2 ^ 51
  share : ∀ c ∈ t.rows, c.pct ≤ 10000 ∧ (0 < (statOf (syscalls recs)).totalNs →
    |(c.pct : ℚ) - 10000 * ((statOf (callsOf recs c.name)).totalNs /
      (statOf (syscalls recs)).totalNs)| ≤ 1 / 2 + 1 / 2 ^ 36)
  falling : t.rows.Pairwise fun a b => b.micros ≤ a.micros ∧ b.pct ≤ a.pct
  totals : t.calls = (syscalls recs).length ∧
    t.errors = (syscalls recs).countP (·.error.isSome) ∧
    |(1000 * t.micros : ℚ) - (statOf (syscalls recs)).totalNs| ≤
      500 + (statOf (syscalls recs)).totalNs / 2 ^ 51

/-- The percentage that is printed for a row. -/
def pctOf (ns grand : ℕ) : ℕ := if grand = 0 then 0 else hundredths ns grand

def cellsOf (grand : ℕ) (row : Row) : Cells :=
  ⟨pctOf row.2.totalNs grand, micros row.2.totalNs, usecs row.2, row.2.calls, row.2.errors, row.1⟩

theorem oneWord_fixed (digits : ℕ) (x : ℚ) : OneWord (fixed digits x) := by
  refine ⟨by simp [fixed], fun c hc => ?_⟩
  simp only [fixed, List.append_assoc, List.cons_append, List.mem_append, List.mem_cons] at hc
  rcases hc with hc | rfl | hc | hc
  · exact isWhite_digit (isDigit_dec _ c hc)
  · decide
  · rw [List.eq_of_mem_replicate hc]
    decide
  · exact isWhite_digit (isDigit_dec _ c hc)

theorem oneWord_formatSecs (ns : ℕ) : OneWord (formatSecs ns) := oneWord_fixed _ _

section Rows

variable {row : Row}

/-- The text of a percentage. -/
def pctText (ns total : ℕ) : List Char :=
  if total = 0 then "0.00".toList else floats.pct ns total

theorem readFixed_pctText (ns total : ℕ) : readFixed 2 (pctText ns total) =
    some (pctOf ns total) := by
  unfold pctText pctOf
  split_ifs
  · decide
  · exact readFixed_formatPct ns total

theorem oneWord_pctText (ns total : ℕ) : OneWord (pctText ns total) := by
  unfold pctText
  split_ifs
  · constructor <;> decide
  · exact oneWord_fixed _ _

/-- The words of an error count, of which there is none if it is zero. -/
def errorWords (n : ℕ) : List (List Char) := if n = 0 then [] else [dec n]

theorem splitWhitespace_errors (n : ℕ) (rest : List Char) :
    splitWhitespace (padLeft 9 (errorsCell n) ++ ' ' :: rest) =
      errorWords n ++ splitWhitespace rest := by
  unfold errorsCell errorWords
  split_ifs
  · exact splitWhitespace_empty 9 rest
  · exact splitWhitespace_cell (oneWord_dec n) 9 rest

theorem rowLine_eq (total : ℕ) (row : Row) : rowLine floats total row =
    padLeft 6 (pctText row.2.totalNs total) ++ ' ' :: (padLeft 11 (formatSecs row.2.totalNs) ++
      ' ' :: (padLeft 11 (dec (usecs row.2)) ++ ' ' :: (padLeft 9 (dec row.2.calls) ++
        ' ' :: (padLeft 9 (errorsCell row.2.errors) ++ ' ' :: row.1)))) := by
  simp only [rowLine, pctText, List.append_assoc, List.cons_append]
  rfl

theorem splitWhitespace_rowLine (total : ℕ) (hname : OneWord row.1) :
    splitWhitespace (rowLine floats total row) =
      [pctText row.2.totalNs total, formatSecs row.2.totalNs, dec (usecs row.2),
        dec row.2.calls] ++ (errorWords row.2.errors ++ [row.1]) := by
  rw [rowLine_eq, splitWhitespace_cell (oneWord_pctText _ _),
    splitWhitespace_cell (oneWord_formatSecs _), splitWhitespace_cell (oneWord_dec _),
    splitWhitespace_cell (oneWord_dec _), splitWhitespace_errors, hname.split]
  rfl

/-- A row is read as it was printed. -/
theorem readRow_rowLine (total : ℕ) (hname : OneWord row.1) :
    readRow (rowLine floats total row) = some (cellsOf total row) := by
  have hsplit := splitWhitespace_rowLine total hname
  have hsecs := readFixed_formatSecs row.2.totalNs
  unfold errorWords at hsplit
  split_ifs at hsplit with hzero
  · rw [readRow, hsplit]
    simp [readFixed_pctText, hsecs, readCount_dec, cellsOf, hzero]
  · rw [readRow, hsplit]
    simp [readFixed_pctText, hsecs, readCount_dec, cellsOf]

theorem readTotal_totalLine (total calls errors : ℕ) (rows : List Cells) :
    readTotal (totalLine floats total calls errors) rows =
      some ⟨rows, micros total, calls, errors⟩ := by
  have hwhole : OneWord "100.00".toList := by constructor <;> decide
  have hword : splitWhitespace "total".toList = ["total".toList] :=
    OneWord.split (by constructor <;> decide)
  have hline : totalLine floats total calls errors = padLeft 6 "100.00".toList ++
      ' ' :: (padLeft 11 (formatSecs total) ++ ' ' :: (padLeft 11 [] ++
        ' ' :: (padLeft 9 (dec calls) ++ ' ' :: (padLeft 9 (errorsCell errors) ++
          ' ' :: "total".toList)))) := by
    have hlast : " total".toList = ' ' :: "total".toList := by decide
    simp only [totalLine, hlast, List.append_assoc, List.cons_append]
    rfl
  have hsplit : splitWhitespace (totalLine floats total calls errors) =
      ["100.00".toList, formatSecs total, dec calls] ++
        (errorWords errors ++ ["total".toList]) := by
    rw [hline, splitWhitespace_cell hwhole, splitWhitespace_cell (oneWord_formatSecs _),
      splitWhitespace_empty, splitWhitespace_cell (oneWord_dec _), splitWhitespace_errors, hword]
    rfl
  have hsecs := readFixed_formatSecs total
  unfold errorWords at hsplit
  split_ifs at hsplit with hzero
  · rw [readTotal, hsplit]
    simp [hsecs, readCount_dec, hzero]
  · rw [readTotal, hsplit]
    simp [hsecs, readCount_dec]

end Rows

section Lines

variable {entries : List Row}

theorem newline_notMem_padLeft {width : ℕ} {text : List Char} (h : '\n' ∉ text) :
    '\n' ∉ padLeft width text := by
  simp [padLeft, h]

theorem newline_notMem_finish (h : ∀ row ∈ entries, OneWord row.1) :
    ∀ line ∈ finish floats entries, '\n' ∉ line := by
  have hdec (n : ℕ) : '\n' ∉ dec n := newline_notMem_split (oneWord_dec n).2
  have hsecs (n : ℕ) : '\n' ∉ floats.secs n := newline_notMem_split (oneWord_formatSecs n).2
  have herrors (n : ℕ) : '\n' ∉ errorsCell n := by
    unfold errorsCell
    split_ifs
    · simp
    · exact hdec n
  intro line hline
  simp only [finish, List.mem_append, List.mem_cons, List.mem_map, List.not_mem_nil,
    or_false] at hline
  rcases hline with ((rfl | rfl) | ⟨row, hrow, rfl⟩) | (rfl | rfl)
  · decide
  · decide
  · have hpct := newline_notMem_split (oneWord_pctText row.2.totalNs (grand entries)).2
    have hname := newline_notMem_split (h row ((sortRows_perm entries).mem_iff.mp hrow)).2
    have htime : '\n' ∉ formatSecs row.2.totalNs := hsecs _
    simp [rowLine_eq, newline_notMem_padLeft, hpct, hdec, htime, herrors, hname]
  · decide
  · simp [totalLine, newline_notMem_padLeft, hdec, hsecs, herrors]

/-- The table is read as it was printed. -/
theorem readTable_finish (h : ∀ row ∈ entries, OneWord row.1) :
    readTable (utf8 ((finish floats entries).flatMap (· ++ ['\n']))) =
      some ⟨(sortRows entries).map (cellsOf (grand entries)), micros (grand entries),
        totalCalls (sortRows entries), totalErrors (sortRows entries)⟩ := by
  have hrows : ((sortRows entries).map (rowLine floats (grand entries))).mapM readRow =
      some ((sortRows entries).map (cellsOf (grand entries))) := by
    have hone : ∀ row ∈ sortRows entries, OneWord row.1 := fun row hr =>
      h row ((sortRows_perm entries).mem_iff.mp hr)
    generalize sortRows entries = rows at hone
    induction rows with
    | nil => rfl
    | cons row rows ih =>
      have hfirst := readRow_rowLine (grand entries) (hone row List.mem_cons_self)
      simp [List.mapM_cons, hfirst, ih fun r hr => hone r (List.mem_cons_of_mem row hr)]
  have hbody : ((finish floats entries).drop 2).dropLast.dropLast =
      (sortRows entries).map (rowLine floats (grand entries)) := by
    have htail : (finish floats entries).drop 2 =
        (sortRows entries).map (rowLine floats (grand entries)) ++ [rule] ++
          [totalLine floats (grand entries) (totalCalls (sortRows entries))
            (totalErrors (sortRows entries))] := by
      simp [finish]
    rw [htail, List.dropLast_concat, List.dropLast_concat]
  have hlast : (finish floats entries).getLast? = some (totalLine floats (grand entries)
      (totalCalls (sortRows entries)) (totalErrors (sortRows entries))) := by
    have hsplit : finish floats entries = ([header, rule] ++
        (sortRows entries).map (rowLine floats (grand entries)) ++ [rule]) ++
          [totalLine floats (grand entries) (totalCalls (sortRows entries))
            (totalErrors (sortRows entries))] := by
      simp [finish]
    rw [hsplit, List.getLast?_concat]
  rw [readTable, endedLines_utf8 (newline_notMem_finish h)]
  show (((finish floats entries).drop 2).dropLast.dropLast.mapM readRow).bind _ = _
  rw [hbody, hrows, Option.bind_some, hlast]
  exact readTotal_totalLine _ _ _ _

end Lines

section Told

variable {recs : List Record} {entries : List Row}

theorem sum_le_grand {row : Row} (h : row ∈ entries) : row.2.totalNs ≤ grand entries :=
  List.le_sum_of_mem (List.mem_map_of_mem h)

theorem pctOf_le {ns total : ℕ} (h : ns ≤ total) : pctOf ns total ≤ 10000 := by
  unfold pctOf
  split_ifs
  · exact Nat.zero_le _
  · exact hundredths_le h

theorem pctOf_mono {m n total : ℕ} (h : m ≤ n) : pctOf m total ≤ pctOf n total := by
  unfold pctOf
  split_ifs
  · exact le_rfl
  · exact hundredths_mono h

/-- The cells of the sorted rows tell of the records what the table is to tell. -/
theorem tells (h : Iterates (run recs) entries) : Tells recs
    ⟨(sortRows entries).map (cellsOf (grand entries)), micros (grand entries),
      totalCalls (sortRows entries), totalErrors (sortRows entries)⟩ := by
  have hsum := summarizes h
  have hgrand := grand_eq h
  have hnames : ((sortRows entries).map (cellsOf (grand entries))).map Cells.name =
      (sortRows entries).map Sigma.fst := by
    rw [List.map_map]
    rfl
  have hpart : ∀ row ∈ sortRows entries, row.2.totalNs ≤ grand entries := fun row hr =>
    sum_le_grand ((sortRows_perm entries).mem_iff.mp hr)
  refine ⟨hnames ▸ hsum.distinct, fun name => by rw [hnames]; exact hsum.complete name, ?_, ?_, ?_,
    ?_, hsum.calls.2, hsum.errors.2, hgrand ▸ micros_close _⟩
  · intro c hc
    obtain ⟨row, hr, rfl⟩ := List.mem_map.mp hc
    obtain ⟨hstat, -, husecs⟩ := hsum.exact row hr
    refine ⟨congrArg Stat.calls hstat, congrArg Stat.errors hstat, ?_⟩
    show usecs row.2 = _
    rw [husecs]
    exact congrArg (· / row.2.calls / 1000) (congrArg Stat.totalNs hstat)
  · intro c hc
    obtain ⟨row, hr, rfl⟩ := List.mem_map.mp hc
    have htotal : row.2.totalNs =
        (statOf (callsOf recs (cellsOf (grand entries) row).name)).totalNs :=
      congrArg Stat.totalNs (hsum.exact row hr).1
    show |(1000 * micros row.2.totalNs : ℚ) - _| ≤ _
    rw [← htotal]
    exact micros_close _
  · intro c hc
    obtain ⟨row, hr, rfl⟩ := List.mem_map.mp hc
    have htotal : row.2.totalNs =
        (statOf (callsOf recs (cellsOf (grand entries) row).name)).totalNs :=
      congrArg Stat.totalNs (hsum.exact row hr).1
    refine ⟨pctOf_le (hpart row hr), fun hpos => ?_⟩
    rw [← hgrand] at hpos ⊢
    show |(pctOf row.2.totalNs (grand entries) : ℚ) - _| ≤ _
    rw [← htotal, pctOf, if_neg hpos.ne']
    exact hundredths_close (hpart row hr) hpos
  · apply List.pairwise_map.mpr
    apply hsum.ordered.imp
    intro a b hab
    have hle : b.2.totalNs ≤ a.2.totalNs := by
      rcases hab with hless | ⟨hsame, -⟩
      · exact hless.le
      · exact hsame.le
    exact ⟨micros_mono hle, pctOf_mono hle⟩

theorem readTable_output (fmt : Formatting) (hnames : ∀ s ∈ syscalls recs, OneWord s.name) :
    ∃ t, readTable ((Sink.summary new).output fmt recs) = some t ∧ Tells recs t := by
  have hentries : Iterates (run recs) (fmt.iterate (run recs)) := fmt.iterates _
  refine ⟨_, readTable_finish fun row hrow => ?_, tells hentries⟩
  obtain ⟨s, hs, hname⟩ := hentries.mem_names.mp (List.mem_map_of_mem hrow)
  exact hname ▸ hnames s hs

end Told

/-- What the summary prints for a trace can be read back as a table: a row for each syscall that was
called, with the exact numbers of its calls and errors, the time of each row and of all calls half a
microsecond off at most and the percentages half a hundredth, but for the precision of an `f64`, and
both columns never rise. -/
theorem summary_readsBack (fmt : Formatting) (evs : List (Event × MemoryReader)) :
    ∃ t, readTable (((Sink.summary new).allWrites fmt (evs.map (toRecord SYSCALLS))).flatMap
      Prod.fst) = some t ∧ Tells (evs.map (toRecord SYSCALLS)) t := by
  rw [Sink.allWrites_output]
  refine readTable_output fmt fun s hs => ?_
  obtain ⟨rec, hrec, hcall⟩ := List.mem_filterMap.mp hs
  obtain ⟨⟨event, mem⟩, -, rfl⟩ := List.mem_map.mp hrec
  cases event with
  | syscall ev =>
    cases hcall
    exact oneWord_syscallName ev.nr
  | processExit pid code => cases hcall
  | signal pid sig => cases hcall

end SummarySink

end Syren.Output
