import Syren.Decode.Clean
import Syren.Decode.Fields
import Syren.Gen.Tbl
import Syren.Output.Text

/-! Tables in columns, as their readers take a line apart: into its words. -/
namespace Syren.Output
open Text Layout Gen

/-- A text of one word. -/
def OneWord (text : List Char) : Prop := text ≠ [] ∧ ∀ c ∈ text, isWhite c = false

def readCount (text : List Char) : Option ℕ :=
  if text.all Char.isDigit then some (Nat.ofDigitChars 10 text 0) else none

theorem isDigit_dec (n : ℕ) : ∀ c ∈ dec n, c.isDigit :=
  fun _ hc => Nat.isDigit_of_mem_toDigits (by decide) (by decide) hc

theorem ofDigitChars_dec (n : ℕ) : Nat.ofDigitChars 10 (dec n) 0 = n :=
  Nat.ofDigitChars_ten_toDigits

variable {text rest : List Char}

theorem OneWord.split (h : OneWord text) : splitWhitespace text = [text] :=
  splitWhitespace_word ⟨text, h.1, h.2⟩

theorem splitWhitespace_padLeft (width : ℕ) (text : List Char) :
    splitWhitespace (padLeft width text) = splitWhitespace text := by
  apply splitWhitespace_gap
  intro c hc
  rw [List.eq_of_mem_replicate hc]
  decide

theorem splitWhitespace_cell (h : OneWord text) (width : ℕ) (rest : List Char) :
    splitWhitespace (padLeft width text ++ ' ' :: rest) = text :: splitWhitespace rest := by
  rw [splitWhitespace_white (by decide), splitWhitespace_padLeft, h.split]
  rfl

theorem splitWhitespace_empty (width : ℕ) (rest : List Char) :
    splitWhitespace (padLeft width [] ++ ' ' :: rest) = splitWhitespace rest := by
  rw [splitWhitespace_white (by decide), splitWhitespace_padLeft, splitWhitespace_nil,
    List.nil_append]

theorem isWhite_digit {c : Char} (h : c.isDigit) : isWhite c = false := by
  have hrange : '0' ≤ c ∧ c ≤ '9' := by simpa [Char.isDigit, Char.le_def] using h
  have hlow : 48 ≤ c.toNat := hrange.1
  have hhigh : c.toNat ≤ 57 := hrange.2
  simp only [isWhite, Bool.or_eq_false_iff, Bool.and_eq_false_iff, decide_eq_false_iff_not]
  omega

theorem oneWord_dec (n : ℕ) : OneWord (dec n) :=
  ⟨Nat.toDigits_ne_nil, fun c hc => isWhite_digit (isDigit_dec n c hc)⟩

theorem readCount_dec (n : ℕ) : readCount (dec n) = some n := by
  have hall : (dec n).all Char.isDigit := List.all_eq_true.mpr (isDigit_dec n)
  rw [readCount, if_pos hall, ofDigitChars_dec]

theorem isWhite_printable {c : Char} (hc : Printable c) (hspace : c ≠ ' ') : isWhite c = false := by
  have hlow : 32 ≤ c.toNat := hc.1
  have hhigh : c.toNat ≤ 126 := hc.2
  have hne : c.toNat ≠ 32 := fun he => hspace (Char.toNat_inj.mp he)
  simp only [isWhite, Bool.or_eq_false_iff, Bool.and_eq_false_iff, decide_eq_false_iff_not]
  omega

theorem oneWord_SYSCALLS : ∀ info ∈ SYSCALLS, OneWord info.name.toList := by
  intro info hinfo
  have hclean := (visible_SYSCALLS info hinfo).clean
  have hlacks := names_SYSCALLS info hinfo
  refine ⟨hlacks.nonempty, fun c hc => isWhite_printable (hclean c hc) ?_⟩
  rintro rfl
  exact hlacks.notMem (b := 32) (by decide) (by decide) hc

/-- The names that the decoder gives are one word each. -/
theorem oneWord_syscallName (nr : UInt64) : OneWord (syscallName SYSCALLS nr) := by
  unfold syscallName
  split
  next info hinfo =>
    obtain ⟨number, -, hrow⟩ := Option.bind_eq_some_iff.mp hinfo
    exact oneWord_SYSCALLS info (List.mem_of_find?_eq_some hrow)
  next =>
    refine ⟨by simp, fun c hc => ?_⟩
    rcases List.mem_append.mp hc with hc | hc
    · have hstart : ∀ c ∈ "syscall_".toList, isWhite c = false := by simp +decide
      exact hstart c hc
    · exact (oneWord_dec _).2 c hc

theorem newline_notMem_split {text : List Char} (h : ∀ c ∈ text, isWhite c = false) :
    '\n' ∉ text := fun hc => absurd (h _ hc) (by decide)

end Syren.Output
