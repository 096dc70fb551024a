import Mathlib.Data.List.DropRight
import Syren.Gen.Syscalls

/-! The parser of the kernel's `syscall_64.tbl`, and the rows of the table it generates. -/
namespace Syren.Gen
open Text

inductive Abi where
  | Common | B64 | X32
  deriving DecidableEq

def Abi.parse (s : List Char) : Option Abi :=
  if s = "common".toList then some .Common
  else if s = "64".toList then some .B64
  else if s = "x32".toList then some .X32
  else none

/-- A row of the kernel's table. -/
structure SyscallEntry where
  number : UInt32
  abi : Abi
  name : String
  entry : Option String
  deriving DecidableEq

/-- `str::split_whitespace`. -/
def splitWhitespace (s : List Char) : List (List Char) := (s.splitOnP isWhite).filter (· ≠ [])

/-- A line that a line feed ends, without a carriage return before it. -/
def chomp (line : List Char) : List Char :=
  if line.getLast? = some '\r' then line.dropLast else line

/-- `str::lines`: a last line that no line feed ends is kept as it is if it is not empty. -/
def strLines (s : List Char) : List (List Char) :=
  let pieces := s.splitOn '\n'
  pieces.dropLast.map chomp ++ pieces.getLast?.toList.filter (· ≠ [])

def parseLine (line : List Char) : Option SyscallEntry :=
  let line := trim line
  if line = [] ∨ line.head? = some '#' then none
  else do
    let cols := splitWhitespace line
    let number ← parseUnsigned 32 10 (← cols[0]?)
    let abi ← Abi.parse (← cols[1]?)
    let name ← cols[2]?
    return ⟨UInt32.ofNat number, abi, String.ofList name, cols[3]?.map String.ofList⟩

/-- The rows of a table that are not of the x32 ABI, by number. -/
def parseTbl (input : List Char) : List SyscallEntry :=
  (((strLines input).filterMap parseLine).filter fun e => e.abi ≠ .X32).mergeSort
    fun a b => a.number ≤ b.number

/-- The rows of the generated table. -/
def generate (tbl : List Char) : List SyscallInfo :=
  (parseTbl tbl).map fun e => row (e.number, e.name)

-- Of a text that is written out, only its own characters are gone through.
scoped instance decidableChars (p : Char → Prop) [DecidablePred p] (s : List Char) :
    Decidable (∀ c ∈ s, p c) :=
  List.decidableBAll p s

/-- White space within a line. -/
structure Gap where
  chars : List Char
  white : ∀ c ∈ chars, isWhite c ∧ c ≠ '\n' := by decide

/-- White space between two columns. -/
structure Sep extends Gap where
  ne : chars ≠ [] := by decide

/-- What is in a column. -/
structure Word where
  chars : List Char
  ne : chars ≠ [] := by decide
  solid : ∀ c ∈ chars, isWhite c = false := by decide

/-- A decimal number below `2 ^ 32`. -/
structure Numeral extends Word where
  digit : ∀ c ∈ chars, c.isDigit := by decide
  fits : Nat.ofDigitChars 10 chars 0 < 2 ^ 32 := by decide

def Abi.word : Abi → Word
  | Common => { chars := "common".toList }
  | B64 => { chars := "64".toList }
  | X32 => { chars := "x32".toList }

/-- A row `<number> <abi> <name> [<entry> [<compat>]]`, with its white space. -/
structure TblRow where
  lead : Gap
  number : Numeral
  beforeAbi : Sep
  abi : Abi
  beforeName : Sep
  name : Word
  more : List (Sep × Word)
  trail : Gap

/-- A line of a table. -/
inductive TblLine where
  | blank (gap : Gap)
  | comment (lead : Gap) (rest : List Char) (oneLine : '\n' ∉ rest)
  | row (r : TblRow)

namespace TblRow

def value (r : TblRow) : UInt32 := UInt32.ofNat (Nat.ofDigitChars 10 r.number.chars 0)

/-- The columns after the number. -/
def columns (r : TblRow) : List (Sep × Word) :=
  (r.beforeAbi, r.abi.word) :: (r.beforeName, r.name) :: r.more

def text (r : TblRow) : List Char :=
  r.lead.chars ++ (r.number.chars ++ (r.columns.flatMap fun c => c.1.chars ++ c.2.chars) ++
    r.trail.chars)

/-- What a row says. -/
def entry (r : TblRow) : SyscallEntry :=
  ⟨r.value, r.abi, String.ofList r.name.chars, r.more.head?.map fun c => String.ofList c.2.chars⟩

end TblRow

namespace TblLine

def text : TblLine → List Char
  | blank gap => gap.chars
  | comment lead rest _ => lead.chars ++ '#' :: rest
  | row r => r.text

def row? : TblLine → Option TblRow
  | row r => some r
  | _ => none

end TblLine

/-- The text of a table. A last line feed is followed by a blank line. -/
def tblText (ls : List TblLine) : List Char := ['\n'].intercalate (ls.map TblLine.text)

/-- The rows of a table that are not of the x32 ABI. -/
def kept (ls : List TblLine) : List TblRow :=
  (ls.filterMap TblLine.row?).filter fun r => r.abi ≠ .X32

section Columns

variable {s t : List Char}

@[simp] theorem splitWhitespace_nil : splitWhitespace [] = [] := by simp [splitWhitespace]

theorem splitWhitespace_white {c : Char} (hc : isWhite c) (s t : List Char) :
    splitWhitespace (s ++ c :: t) = splitWhitespace s ++ splitWhitespace t := by
  simp [splitWhitespace, List.splitOnP_append_cons _ _ hc]

theorem splitWhitespace_gap (h : ∀ c ∈ s, isWhite c) (t : List Char) :
    splitWhitespace (s ++ t) = splitWhitespace t := by
  induction s with
  | nil => rfl
  | cons c s ih =>
    have hcons := splitWhitespace_white (h c (by simp)) [] (s ++ t)
    have hs := ih fun d hd => h d (List.mem_cons_of_mem c hd)
    rwa [splitWhitespace_nil, hs] at hcons

theorem splitWhitespace_trail (s : List Char) (h : ∀ c ∈ t, isWhite c) :
    splitWhitespace (s ++ t) = splitWhitespace s := by
  cases t with
  | nil => rw [List.append_nil]
  | cons c t =>
    have ht := splitWhitespace_gap (fun d hd => h d (List.mem_cons_of_mem c hd)) []
    rw [List.append_nil, splitWhitespace_nil] at ht
    rw [splitWhitespace_white (h c (by simp)), ht, List.append_nil]

theorem splitWhitespace_word (w : Word) : splitWhitespace w.chars = [w.chars] := by
  simp [splitWhitespace, List.splitOnP_eq_singleton w.solid, w.ne]

/-- The words of a line, whatever is between them. -/
theorem splitWhitespace_columns (w : Word) (cols : List (Sep × Word)) (trail : Gap) :
    splitWhitespace (w.chars ++ (cols.flatMap fun c => c.1.chars ++ c.2.chars) ++ trail.chars) =
      w.chars :: cols.map fun c => c.2.chars := by
  rw [splitWhitespace_trail _ fun c hc => (trail.white c hc).1]
  induction cols generalizing w with
  | nil => simpa using splitWhitespace_word w
  | cons col cols ih =>
    obtain ⟨⟨⟨chars, white⟩, ne⟩, v⟩ := col
    cases chars with
    | nil => contradiction
    | cons c sep =>
      have hsep := splitWhitespace_gap (fun d hd => (white d (List.mem_cons_of_mem c hd)).1)
        (v.chars ++ cols.flatMap fun c => c.1.chars ++ c.2.chars)
      have hsplit := splitWhitespace_white (white c (by simp)).1 w.chars
        (sep ++ (v.chars ++ cols.flatMap fun c => c.1.chars ++ c.2.chars))
      rw [hsep, splitWhitespace_word, ih] at hsplit
      simpa using hsplit

/-- Trimming a line leaves its columns. -/
theorem splitWhitespace_trim (s : List Char) : splitWhitespace (trim s) = splitWhitespace s := by
  have hfront (u : List Char) :
      splitWhitespace (u.dropWhile isWhite) = splitWhitespace u := by
    have hgap := splitWhitespace_gap (s := u.takeWhile isWhite)
      (fun c hc => List.mem_takeWhile_imp hc) (u.dropWhile isWhite)
    rwa [List.takeWhile_append_dropWhile, eq_comm] at hgap
  have hback (u : List Char) :
      splitWhitespace (u.reverse.dropWhile isWhite).reverse = splitWhitespace u := by
    have hgap := splitWhitespace_trail (u.reverse.dropWhile isWhite).reverse
      (t := (u.reverse.takeWhile isWhite).reverse)
      (fun c hc => List.mem_takeWhile_imp (List.mem_reverse.mp hc))
    rwa [← List.reverse_append, List.takeWhile_append_dropWhile, List.reverse_reverse,
      eq_comm] at hgap
  rw [trim, hback, hfront]

theorem trim_white (h : ∀ c ∈ s, isWhite c) : trim s = [] := by
  have hnil := List.dropWhile_eq_nil_iff.mpr h
  simp [trim, hnil]

/-- The first character that is not white stays where it is. -/
theorem trim_solid (h : ∀ c ∈ s, isWhite c) {c : Char} (hc : isWhite c = false) :
    ∃ rest, trim (s ++ c :: t) = c :: rest := by
  have hfront : (s ++ c :: t).dropWhile isWhite = c :: t := by
    rw [List.dropWhile_append_of_pos h, List.dropWhile_cons_of_neg (by simp [hc])]
  rw [trim, hfront, List.reverse_cons, List.dropWhile_append]
  split_ifs
  · exact ⟨[], by simp [hc]⟩
  · exact ⟨(t.reverse.dropWhile isWhite).reverse, by simp⟩

theorem trim_concat {c : Char} (hc : isWhite c) (s : List Char) : trim (s ++ [c]) = trim s := by
  rw [trim, List.dropWhile_append]
  split_ifs with hnil
  · have hs := List.isEmpty_iff.mp hnil
    simp [trim, hs, hc]
  · simp [trim, hc]

end Columns

/-- A line with three columns or more that starts with no comment. -/
theorem parseLine_columns {line : List Char} {c : Char} (hc : c ≠ '#') {rest : List Char}
    (hline : trim line = c :: rest) {number abi name : List Char} {more : List (List Char)}
    (hcols : splitWhitespace line = number :: abi :: name :: more) {n : ℕ} {a : Abi}
    (hn : parseUnsigned 32 10 number = some n) (ha : Abi.parse abi = some a) :
    parseLine line =
      some ⟨UInt32.ofNat n, a, String.ofList name, more.head?.map String.ofList⟩ := by
  have hsame := splitWhitespace_trim line
  rw [hcols] at hsame
  have hcomment : ¬ (trim line = [] ∨ (trim line).head? = some '#') := by simp [hline, hc]
  unfold parseLine
  dsimp only
  rw [if_neg hcomment, hsame]
  simp [hn, ha, List.head?_eq_getElem?]

theorem Abi.parse_word (a : Abi) : Abi.parse a.word.chars = some a := by
  cases a <;> decide

theorem digits_numeral {s : List Char} (h : ∀ c ∈ s, c.isDigit) (acc : ℕ) :
    digits 10 acc s = some (Nat.ofDigitChars 10 s acc) := by
  induction s generalizing acc with
  | nil => simp [digits]
  | cons c s ih =>
    have hc := h c (by simp)
    have hrange : '0' ≤ c ∧ c ≤ '9' := by
      simpa [Char.isDigit, Char.le_def] using hc
    have hsmall : c.toNat - 48 < 10 := by
      have hnine : c.toNat ≤ 57 := hrange.2
      omega
    have hvalue : digitValue 10 c = some (c.toNat - '0'.toNat) := by
      simp [digitValue, hrange, hsmall]
    rw [digits, hvalue, Option.bind_some, ih fun d hd => h d (List.mem_cons_of_mem c hd),
      Nat.ofDigitChars_cons, Nat.mul_comm]

theorem parse_numeral (n : Numeral) :
    parseUnsigned 32 10 n.chars = some (Nat.ofDigitChars 10 n.chars 0) := by
  have hplus : '+' ∉ n.chars := fun h => absurd (n.digit _ h) (by decide)
  rw [parseUnsigned_of_notMem n.ne hplus, digits_numeral n.digit]
  simpa using n.fits

/-- What the parser reads of a line is what the line says. -/
theorem parseLine_text (l : TblLine) : parseLine l.text = l.row?.map TblRow.entry := by
  cases l with
  | blank gap =>
    have hnil := trim_white fun c hc => (gap.white c hc).1
    simp [parseLine, TblLine.text, TblLine.row?, hnil]
  | comment lead rest _ =>
    obtain ⟨tail, htrim⟩ := trim_solid (t := rest) (fun c hc => (lead.white c hc).1)
      (c := '#') (by decide)
    simp [parseLine, TblLine.text, TblLine.row?, htrim]
  | row r =>
    have hcols := splitWhitespace_columns r.number.toWord r.columns r.trail
    rw [← splitWhitespace_gap (fun c hc => (r.lead.white c hc).1)] at hcols
    cases hnumber : r.number.chars with
    | nil => exact absurd hnumber r.number.ne
    | cons c rest =>
      have hc := r.number.digit c (by simp [hnumber])
      obtain ⟨tail, htrim⟩ := trim_solid
        (t := rest ++ (r.columns.flatMap fun c => c.1.chars ++ c.2.chars) ++ r.trail.chars)
        (fun c hc => (r.lead.white c hc).1) (r.number.solid c (by simp [hnumber]))
      have hline : trim r.text = c :: tail := by simpa [TblRow.text, hnumber] using htrim
      have hcomment : c ≠ '#' := by
        rintro rfl
        exact absurd hc (by decide)
      have hparse := parseLine_columns hcomment hline hcols (parse_numeral r.number)
        (Abi.parse_word r.abi)
      rw [TblLine.text, hparse]
      simp [TblLine.row?, TblRow.entry, TblRow.value, Function.comp_def]

theorem parseLine_chomp (line : List Char) : parseLine (chomp line) = parseLine line := by
  unfold chomp
  split_ifs with hcr
  · obtain ⟨rest, rfl⟩ := List.getLast?_eq_some_iff.mp hcr
    rw [List.dropLast_concat]
    simp only [parseLine, trim_concat (show isWhite '\r' by decide)]
  · rfl

theorem parseLine_nil : parseLine [] = none := by decide

/-- How a line ends makes no difference to the rows. -/
theorem filterMap_strLines (s : List Char) :
    (strLines s).filterMap parseLine = (lines s).filterMap parseLine := by
  have hne : lines s ≠ [] := List.splitOn_ne_nil _ _
  have hlast : ((lines s).getLast?.toList.filter (· ≠ [])).filterMap parseLine =
      [(lines s).getLast hne].filterMap parseLine := by
    rw [List.getLast?_eq_some_getLast hne]
    by_cases hnil : (lines s).getLast hne = []
    · simp [hnil, parseLine_nil]
    · simp [hnil]
  conv_rhs => rw [← List.dropLast_concat_getLast hne]
  rw [List.filterMap_append, ← hlast]
  simp only [strLines, lines, List.filterMap_append, List.filterMap_map]
  congr 2
  funext line
  exact parseLine_chomp line

theorem newline_notMem_text (l : TblLine) : '\n' ∉ l.text := by
  have hgap (gap : Gap) : '\n' ∉ gap.chars := fun h => (gap.white _ h).2 rfl
  have hword (w : Word) : '\n' ∉ w.chars := fun h => absurd (w.solid _ h) (by decide)
  cases l with
  | blank gap => exact hgap gap
  | comment lead rest oneLine => simp [TblLine.text, hgap, oneLine]
  | row r => simp [TblLine.text, TblRow.text, hgap, hword]

/-- The rows that are read of a table are those it is made of. -/
theorem filterMap_tblText (ls : List TblLine) :
    (strLines (tblText ls)).filterMap parseLine = (ls.filterMap TblLine.row?).map TblRow.entry := by
  rw [filterMap_strLines, tblText, lines]
  by_cases hnil : ls = []
  · subst hnil
    simp [parseLine_nil]
  · rw [List.splitOn_intercalate '\n' (by simpa using fun l _ => newline_notMem_text l)
      (by simpa using hnil), List.filterMap_map, List.map_filterMap]
    congr 1
    funext l
    exact parseLine_text l

theorem parseTbl_perm (ls : List TblLine) :
    (parseTbl (tblText ls)).Perm ((kept ls).map TblRow.entry) := by
  have hperm := List.mergeSort_perm
    (((strLines (tblText ls)).filterMap parseLine).filter fun e => e.abi ≠ .X32)
    fun a b => decide (a.number ≤ b.number)
  rw [filterMap_tblText, List.filter_map] at hperm
  unfold parseTbl
  rw [filterMap_tblText, List.filter_map]
  exact hperm

theorem parseTbl_sorted (tbl : List Char) :
    (parseTbl tbl).Pairwise fun a b => a.number ≤ b.number := by
  let le (a b : SyscallEntry) : Bool := a.number ≤ b.number
  have htrans (a b c : SyscallEntry) : le a b → le b c → le a c := by
    simpa [le] using UInt32.le_trans
  have htotal (a b : SyscallEntry) : le a b || le b a := by
    simpa [le] using UInt32.le_total _ _
  have hsorted := List.pairwise_mergeSort htrans htotal
    (((strLines tbl).filterMap parseLine).filter fun e => e.abi ≠ .X32)
  simpa [parseTbl, le] using hsorted

end Syren.Gen
