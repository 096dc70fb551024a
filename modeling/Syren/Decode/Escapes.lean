import Syren.Decode.Render

/-! Which byte strings are quoted alike. An octal escape has no fixed width, so that digits after it
may belong to it. -/
namespace Syren.Render

/-- The bytes that are shown by an octal number. -/
def inOctal (b : UInt8) : Bool := ¬ (0x20 ≤ b ∧ b ≤ 0x7e) ∧ b ≠ 9 ∧ b ≠ 10 ∧ b ≠ 13

/-- A byte that is shown by more than one octal digit, as the byte of its first digit and the
characters of the others. -/
def spreadByte (b : UInt8) : List UInt8 :=
  if inOctal b = false ∨ b < 8 then [b]
  else if b < 64 then [b / 8, 48 + b % 8]
  else [b / 64, 48 + b / 8 % 8, 48 + b % 8]

/-- What is left of some bytes when the width of their octal escapes is unknown. -/
def spread (bytes : List UInt8) : List UInt8 := bytes.flatMap spreadByte

/-- Two strings that a reader of the quoted texts cannot tell from each other. -/
def Clash (a b : List UInt8) : Prop :=
  a.take MAX_STR ≠ b.take MAX_STR ∧ spread (a.take MAX_STR) = spread (b.take MAX_STR) ∧
    (MAX_STR < a.length ↔ MAX_STR < b.length)

instance (a b : List UInt8) : Decidable (Clash a b) := by
  unfold Clash
  infer_instance

/-- The byte of a character after a backslash. -/
def escaped (c : Char) : UInt8 :=
  if c = 'n' then 10 else if c = 'r' then 13 else if c = 't' then 9
  else if c.isDigit then UInt8.ofNat (c.toNat - '0'.toNat) else UInt8.ofNat c.toNat

/-- A text read with every escape taken to be of a single character; does its first character
follow a backslash? -/
def unquote : Bool → List Char → List UInt8
  | _, [] => []
  | true, c :: text => escaped c :: unquote false text
  | false, c :: text =>
    if c = '\\' then unquote true text else UInt8.ofNat c.toNat :: unquote false text

/-- Does a text end in a backslash that escapes what follows? -/
def endsEscaped : Bool → List Char → Bool
  | esc, [] => esc
  | true, _ :: text => endsEscaped false text
  | false, c :: text => endsEscaped (c = '\\') text

theorem unquote_append (esc : Bool) (s t : List Char) :
    unquote esc (s ++ t) = unquote esc s ++ unquote (endsEscaped esc s) t := by
  induction s generalizing esc with
  | nil => cases esc <;> rfl
  | cons c s ih =>
    cases esc with
    | true => simp [unquote, endsEscaped, ih]
    | false => by_cases hc : c = '\\' <;> simp [unquote, endsEscaped, ih, hc]

theorem unquote_quoteByte (b : UInt8) :
    unquote false (quoteByte b) = spreadByte b ∧ endsEscaped false (quoteByte b) = false := by
  have hall : ∀ n : Fin 256, unquote false (quoteByte (UInt8.ofFin n)) =
      spreadByte (UInt8.ofFin n) ∧ endsEscaped false (quoteByte (UInt8.ofFin n)) = false := by
    decide +kernel
  simpa using hall b.toFin

theorem quoteByte_spreadByte (b : UInt8) : (spreadByte b).flatMap quoteByte = quoteByte b := by
  have hall : ∀ n : Fin 256, (spreadByte (UInt8.ofFin n)).flatMap quoteByte =
      quoteByte (UInt8.ofFin n) := by decide +kernel
  simpa using hall b.toFin

theorem unquote_flatMap (bytes : List UInt8) :
    unquote false (bytes.flatMap quoteByte) = spread bytes := by
  induction bytes with
  | nil => rfl
  | cons b bytes ih =>
    rw [List.flatMap_cons, unquote_append, (unquote_quoteByte b).1, (unquote_quoteByte b).2, ih]
    rfl

/-- Bytes are shown alike if they are the same without the width of their octal escapes. -/
theorem flatMap_quoteByte_inj {a b : List UInt8} :
    a.flatMap quoteByte = b.flatMap quoteByte ↔ spread a = spread b := by
  constructor
  · intro h
    rw [← unquote_flatMap, h, unquote_flatMap]
  · intro h
    have hspread (bytes : List UInt8) :
        (spread bytes).flatMap quoteByte = bytes.flatMap quoteByte := by
      simp only [spread, List.flatMap_assoc, quoteByte_spreadByte]
    rw [← hspread, h, hspread]

theorem quoteBytes_eq_iff {a b : List UInt8} : quoteBytes a = quoteBytes b ↔
    spread (a.take MAX_STR) = spread (b.take MAX_STR) ∧
      (MAX_STR < a.length ↔ MAX_STR < b.length) := by
  rw [← flatMap_quoteByte_inj]
  by_cases ha : MAX_STR < a.length <;> by_cases hb : MAX_STR < b.length <;>
    simp only [quoteBytes, gt_iff_lt, ha, hb, if_true, if_false]
  · simp
  · constructor
    · intro h
      simpa [List.getLast?_cons] using congrArg List.getLast? h
    · simp
  · constructor
    · intro h
      simpa [List.getLast?_cons] using congrArg List.getLast? h
    · simp
  · simp

/-- Quoted texts that are the same show the same bytes, cut off alike, exactly if the two strings do
not clash. -/
theorem quoting_unambiguous_iff {a b : List UInt8} :
    (quoteBytes a = quoteBytes b → a.take MAX_STR = b.take MAX_STR ∧
      (MAX_STR < a.length ∧ MAX_STR < b.length ∨ a = b)) ↔ ¬ Clash a b := by
  rw [quoteBytes_eq_iff, Clash]
  constructor
  · rintro h ⟨hne, hspread, hlong⟩
    exact hne (h ⟨hspread, hlong⟩).1
  · rintro h ⟨hspread, hlong⟩
    have htake : a.take MAX_STR = b.take MAX_STR := by
      by_contra hne
      exact h ⟨hne, hspread, hlong⟩
    refine ⟨htake, ?_⟩
    by_cases ha : MAX_STR < a.length
    · exact Or.inl ⟨ha, hlong.mp ha⟩
    · right
      rwa [List.take_of_length_le (by omega), List.take_of_length_le (by omega)] at htake

/-- A byte 1 before the digit 6 is shown as the byte 14 is. -/
theorem quoting_clashes : ¬ ∀ a b, quoteBytes a = quoteBytes b →
    a.take MAX_STR = b.take MAX_STR ∧ (MAX_STR < a.length ∧ MAX_STR < b.length ∨ a = b) := by
  intro h
  exact absurd (h [14] [1, 54] (by decide +kernel)).1 (by decide)

end Syren.Render
