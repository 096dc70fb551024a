import Mathlib.Data.Int.Notation
import Mathlib.Tactic.Common

/-! Values of JSON with integers for numbers, and their compact texts for any way to escape the
characters of strings. -/
namespace Json

inductive Value where
  | number (n : ℤ)
  | string (text : List Char)
  | array (items : List Value)
  | object (fields : List (List Char × Value))

def numeral (n : ℤ) : List Char :=
  if n < 0 then '-' :: Nat.toDigits 10 n.natAbs else Nat.toDigits 10 n.natAbs

variable (escape : Char → List Char)

def quoted (text : List Char) : List Char := '"' :: text.flatMap escape ++ ['"']

mutual

def write : Value → List Char
  | .number n => numeral n
  | .string text => quoted escape text
  | .array items => '[' :: writeItems items ++ [']']
  | .object fields => '\x7b' :: writeFields fields ++ ['\x7d']

def writeItems : List Value → List Char
  | [] => []
  | [v] => write v
  | v :: w :: items => write v ++ ',' :: writeItems (w :: items)

def writeFields : List (List Char × Value) → List Char
  | [] => []
  | [(name, v)] => quoted escape name ++ ':' :: write v
  | (name, v) :: f :: fields =>
    quoted escape name ++ ':' :: (write v ++ ',' :: writeFields (f :: fields))

end

theorem writeItems_eq (items : List Value) :
    writeItems escape items = [','].intercalate (items.map (write escape)) := by
  induction items with
  | nil => rfl
  | cons v items ih =>
    cases items with
    | nil => simp [writeItems]
    | cons w items => simp [writeItems, ih, List.intercalate_cons_cons]

theorem writeFields_eq (fields : List (List Char × Value)) : writeFields escape fields =
    [','].intercalate (fields.map fun f => quoted escape f.1 ++ ':' :: write escape f.2) := by
  induction fields with
  | nil => rfl
  | cons f fields ih =>
    cases fields with
    | nil => simp [writeFields]
    | cons g fields => simp [writeFields, ih, List.intercalate_cons_cons]

variable {escape}

/-- A character that is no part of the notation is in no text, where no escape has it. -/
theorem notMem_write {c : Char} (he : ∀ d, c ∉ escape d)
    (hn : c ∉ ['"', '[', ']', '\x7b', '\x7d', ':', ',', '-']) (hd : c.isDigit = false)
    (v : Value) : c ∉ write escape v := by
  simp only [List.mem_cons, List.not_mem_nil, or_false, not_or] at hn
  have hquoted (text : List Char) : c ∉ quoted escape text := by
    simp [quoted, hn, he]
  have hdigits (n : ℕ) : c ∉ Nat.toDigits 10 n := fun hc =>
    absurd ((Nat.isDigit_of_mem_toDigits (by decide) (by decide) hc).symm.trans hd) (by decide)
  refine write.induct (fun v => c ∉ write escape v) (fun fields => c ∉ writeFields escape fields)
    (fun items => c ∉ writeItems escape items) ?_ ?_ ?_ ?_ ?_ ?_ ?_ ?_ ?_ ?_ v
  · intro n
    rw [write, numeral]
    split_ifs
    · simp [hn, hdigits]
    · exact hdigits _
  · intro text
    rw [write]
    exact hquoted text
  · intro items ih
    simp [write, hn, ih]
  · intro fields ih
    simp [write, hn, ih]
  · simp [writeItems]
  · intro v ih
    simpa [writeItems] using ih
  · intro v w items ih ihrest
    simp [writeItems, hn, ih, ihrest]
  · simp [writeFields]
  · intro name v ih
    simp [writeFields, hquoted, hn, ih]
  · intro name v f fields ih ihrest
    simp [writeFields, hquoted, hn, ih, ihrest]

end Json
