import Syren.Json.Value
import Syren.Layout.Digits

/-! A reader of compact JSON texts, and that it reads back what is written with any escapes that it
understands. -/
namespace Json
open Layout

/-- The character of a short escape. -/
def shortEscape (c : Char) : Option Char :=
  if c = '"' ∨ c = '\\' ∨ c = '/' then some c
  else if c = 'b' then some '\x08'
  else if c = 'f' then some '\x0c'
  else if c = 'n' then some '\n'
  else if c = 'r' then some '\r'
  else if c = 't' then some '\t'
  else none

/-- The character with the code of four hexadecimal digits, which is no surrogate. -/
def unicodeEscape (a b c d : Char) : Option Char := do
  let n := (((← hexValue a) * 16 + (← hexValue b)) * 16 + (← hexValue c)) * 16 + (← hexValue d)
  if n.isValidChar then some (Char.ofNat n) else none

/-- One character of a string, escaped or not. -/
def readChar : List Char → Option (Char × List Char)
  | '\\' :: 'u' :: a :: b :: c :: d :: rest => (unicodeEscape a b c d).map fun e => (e, rest)
  | '\\' :: c :: rest => (shortEscape c).map fun e => (e, rest)
  | c :: rest => if c = '"' ∨ c = '\\' ∨ c < ' ' then none else some (c, rest)
  | [] => none

/-- The rest of a string, up to its closing quote. -/
def readChars : ℕ → List Char → Option (List Char × List Char)
  | 0, _ => none
  | fuel + 1, text =>
    if text.head? = some '"' then some ([], text.tail)
    else do
      let (c, rest) ← readChar text
      let (s, rest) ← readChars fuel rest
      return (c :: s, rest)

/-- A numeral without leading zeros. -/
def readNat (text : List Char) : Option (ℕ × List Char) :=
  let digits := text.takeWhile Char.isDigit
  if digits = [] ∨ (digits.head? = some '0' ∧ digits ≠ ['0']) then none
  else some (Nat.ofDigitChars 10 digits 0, text.dropWhile Char.isDigit)

def readNumber (text : List Char) : Option (ℤ × List Char) :=
  if text.head? = some '-' then (readNat text.tail).map fun p => (-(p.1 : ℤ), p.2)
  else (readNat text).map fun p => ((p.1 : ℤ), p.2)

/-- The text after a character that has to come. -/
def expect (c : Char) (text : List Char) : Option (List Char) :=
  if text.head? = some c then some text.tail else none

mutual

def readValue : ℕ → List Char → Option (Value × List Char)
  | 0, _ => none
  | fuel + 1, text =>
    if text.head? = some '"' then (readChars fuel text.tail).map fun p => (.string p.1, p.2)
    else if text.head? = some '[' then
      if text.tail.head? = some ']' then some (.array [], text.tail.tail)
      else (readItems fuel text.tail).map fun p => (.array p.1, p.2)
    else if text.head? = some '\x7b' then
      if text.tail.head? = some '\x7d' then some (.object [], text.tail.tail)
      else (readFields fuel text.tail).map fun p => (.object p.1, p.2)
    else (readNumber text).map fun p => (.number p.1, p.2)

/-- The rest of an array, from an item on. -/
def readItems : ℕ → List Char → Option (List Value × List Char)
  | 0, _ => none
  | fuel + 1, text => do
    let (v, rest) ← readValue fuel text
    if rest.head? = some ']' then return ([v], rest.tail)
    else
      let (items, rest) ← readItems fuel (← expect ',' rest)
      return (v :: items, rest)

/-- The rest of an object, from a field on. -/
def readFields : ℕ → List Char → Option (List (List Char × Value) × List Char)
  | 0, _ => none
  | fuel + 1, text => do
    let (name, rest) ← readChars fuel (← expect '"' text)
    let (v, rest) ← readValue fuel (← expect ':' rest)
    if rest.head? = some '\x7d' then return ([(name, v)], rest.tail)
    else
      let (fields, rest) ← readFields fuel (← expect ',' rest)
      return ((name, v) :: fields, rest)

end

/-- The value of a whole text. -/
def parse (text : List Char) : Option Value :=
  match readValue text.length text with
  | some (v, []) => some v
  | _ => none

/-- The reader understands each escape, and nothing of it is lost on what follows. -/
def Readable (escape : Char → List Char) : Prop :=
  ∀ c rest, readChar (escape c ++ rest) = some (c, rest)

/-- What can follow a numeral. -/
def Delimited (rest : List Char) : Prop := ∀ c ∈ rest.head?, c.isDigit = false

variable {escape : Char → List Char}

theorem Readable.ne_nil (h : Readable escape) (c : Char) : escape c ≠ [] := by
  intro hnil
  have hread := h c []
  rw [hnil] at hread
  cases hread

theorem Readable.head_ne (h : Readable escape) (c : Char) (rest : List Char) :
    (escape c ++ rest).head? ≠ some '"' := by
  intro hhead
  have hread := h c rest
  obtain ⟨tail, htext⟩ : ∃ tail, escape c ++ rest = '"' :: tail := List.head?_eq_some_iff.mp hhead
  rw [htext] at hread
  cases hread

theorem readChars_quoted (h : Readable escape) (text rest : List Char) {fuel : ℕ}
    (hfuel : (text.flatMap escape).length < fuel) :
    readChars fuel (text.flatMap escape ++ '"' :: rest) = some (text, rest) := by
  induction text generalizing fuel with
  | nil =>
    obtain ⟨fuel, rfl⟩ : ∃ n, fuel = n + 1 := ⟨fuel - 1, by omega⟩
    rfl
  | cons c text ih =>
    obtain ⟨fuel, rfl⟩ : ∃ n, fuel = n + 1 := ⟨fuel - 1, by omega⟩
    have hpos := List.length_pos_iff.mpr (h.ne_nil c)
    rw [List.flatMap_cons, List.length_append] at hfuel
    rw [List.flatMap_cons, List.append_assoc, readChars, if_neg (h.head_ne c _), h c]
    have hrest := ih (show (text.flatMap escape).length < fuel by omega)
    simp [hrest]

theorem head_append {s t : List Char} (h : s ≠ []) : (s ++ t).head? = s.head? := by
  rw [List.head?_append, Option.or_of_isSome (by simpa)]

theorem head_toDigits {n : ℕ} (hn : n ≠ 0) : (Nat.toDigits 10 n).head? ≠ some '0' := by
  induction n using Nat.strongRecOn with
  | ind n ih =>
    rw [Nat.toDigits_eq_if (by decide)]
    split_ifs with hlt
    · have hall : ∀ d : Fin 10, d.val ≠ 0 → Nat.digitChar d ≠ '0' := by decide
      simpa using hall ⟨n, hlt⟩ hn
    · rw [head_append Nat.toDigits_ne_nil]
      exact ih (n / 10) (by omega) (by omega)

theorem readNat_toDigits (n : ℕ) {rest : List Char} (hrest : Delimited rest) :
    readNat (Nat.toDigits 10 n ++ rest) = some (n, rest) := by
  have hdigits : ∀ c ∈ Nat.toDigits 10 n, c.isDigit = true := fun c hc =>
    Nat.isDigit_of_mem_toDigits (by decide) (by decide) hc
  have htake : rest.takeWhile Char.isDigit = [] := by
    cases rest with
    | nil => rfl
    | cons c rest => simp [hrest c rfl]
  have hdrop : rest.dropWhile Char.isDigit = rest := by
    cases rest with
    | nil => rfl
    | cons c rest => simp [hrest c rfl]
  have hzero : ¬ ((Nat.toDigits 10 n).head? = some '0' ∧ Nat.toDigits 10 n ≠ ['0']) := by
    rintro ⟨hhead, hne⟩
    by_cases hn : n = 0
    · subst hn
      exact hne rfl
    · exact head_toDigits hn hhead
  unfold readNat
  rw [List.takeWhile_append_of_pos hdigits, List.dropWhile_append_of_pos hdigits, htake, hdrop,
    List.append_nil, if_neg (by simp [hzero]), Nat.ofDigitChars_ten_toDigits]

theorem readNumber_numeral (n : ℤ) {rest : List Char} (hrest : Delimited rest) :
    readNumber (numeral n ++ rest) = some (n, rest) := by
  unfold numeral readNumber
  split_ifs with hneg hhead hhead
  · rw [List.cons_append, List.tail_cons, readNat_toDigits _ hrest]
    simp only [Option.map_some, Option.some.injEq, Prod.mk.injEq, and_true]
    omega
  · simp at hhead
  · rw [head_append Nat.toDigits_ne_nil] at hhead
    have hmem := List.mem_of_head? hhead
    exact absurd (Nat.isDigit_of_mem_toDigits (by decide) (by decide) hmem) (by decide)
  · rw [readNat_toDigits _ hrest]
    simp only [Option.map_some, Option.some.injEq, Prod.mk.injEq, and_true]
    omega

theorem head_numeral (n : ℤ) :
    ∃ c, (numeral n).head? = some c ∧ (c = '-' ∨ c.isDigit = true) := by
  unfold numeral
  split_ifs
  · exact ⟨'-', rfl, .inl rfl⟩
  · have hne : Nat.toDigits 10 n.natAbs ≠ [] := Nat.toDigits_ne_nil
    have hdigit := Nat.isDigit_of_mem_toDigits (by decide) (by decide) (List.head_mem hne)
    exact ⟨_, List.head?_eq_some_head hne, .inr hdigit⟩

variable (escape)

/-- No value begins as the end of a list does. -/
theorem head_write (v : Value) :
    ∃ c, (write escape v).head? = some c ∧ c ≠ ']' ∧ c ≠ '\x7d' := by
  cases v with
  | number n =>
    obtain ⟨c, hc, hcase⟩ := head_numeral n
    refine ⟨c, hc, ?_⟩
    constructor <;> rintro rfl <;> rcases hcase with h | h <;> exact absurd h (by decide)
  | string text => exact ⟨'"', by simp [write, quoted], by decide⟩
  | array items => exact ⟨'[', by simp [write], by decide⟩
  | object fields => exact ⟨'\x7b', by simp [write], by decide⟩

theorem write_ne_nil (v : Value) : write escape v ≠ [] := by
  obtain ⟨c, hc, -⟩ := head_write escape v
  exact List.ne_nil_of_mem (List.mem_of_head? hc)

def ReadsValue (v : Value) : Prop := ∀ fuel rest, (write escape v).length ≤ fuel →
  Delimited rest → readValue fuel (write escape v ++ rest) = some (v, rest)

def ReadsItems (items : List Value) : Prop := items ≠ [] → ∀ fuel rest,
  (writeItems escape items).length < fuel →
    readItems fuel (writeItems escape items ++ ']' :: rest) = some (items, rest)

def ReadsFields (fields : List (List Char × Value)) : Prop := fields ≠ [] → ∀ fuel rest,
  (writeFields escape fields).length < fuel →
    readFields fuel (writeFields escape fields ++ '\x7d' :: rest) = some (fields, rest)

variable {escape}

theorem delimited_cons {c : Char} {rest : List Char} (h : c.isDigit = false) :
    Delimited (c :: rest) := by
  intro d hd
  cases hd
  exact h

theorem reads_number (n : ℤ) : ReadsValue escape (.number n) := by
  intro fuel rest hfuel hrest
  have hpos := List.length_pos_iff.mpr (write_ne_nil escape (.number n))
  obtain ⟨fuel, rfl⟩ : ∃ k, fuel = k + 1 := ⟨fuel - 1, by omega⟩
  obtain ⟨c, hc, hcase⟩ := head_numeral n
  have hne : numeral n ≠ [] := List.ne_nil_of_mem (List.mem_of_head? hc)
  have other {d : Char} (hd : d ≠ '-') (hdigit : d.isDigit = false) :
      (numeral n ++ rest).head? ≠ some d := by
    rw [head_append hne, hc]
    rintro ⟨⟩
    rcases hcase with h | h
    · exact hd h
    · exact absurd (h.symm.trans hdigit) (by decide)
  show readValue (fuel + 1) (numeral n ++ rest) = _
  rw [readValue, if_neg (other (by decide) (by decide)), if_neg (other (by decide) (by decide)),
    if_neg (other (by decide) (by decide)), readNumber_numeral n hrest]
  rfl

section Step

variable (fuel : ℕ) (text : List Char)

theorem readValue_quote : readValue (fuel + 1) ('"' :: text) =
    (readChars fuel text).map fun p => (.string p.1, p.2) := rfl

theorem readValue_bracket (h : text.head? ≠ some ']') : readValue (fuel + 1) ('[' :: text) =
    (readItems fuel text).map fun p => (.array p.1, p.2) := by
  simp [readValue, h]

theorem readValue_brace (h : text.head? ≠ some '\x7d') : readValue (fuel + 1) ('\x7b' :: text) =
    (readFields fuel text).map fun p => (.object p.1, p.2) := by
  simp [readValue, h]

end Step

theorem reads_string (h : Readable escape) (text : List Char) :
    ReadsValue escape (.string text) := by
  intro fuel rest hfuel _
  have hlen : (write escape (.string text)).length = (text.flatMap escape).length + 2 := by
    simp [write, quoted]
  obtain ⟨fuel, rfl⟩ : ∃ k, fuel = k + 1 := ⟨fuel - 1, by omega⟩
  have hsplit : write escape (.string text) ++ rest =
      '"' :: (text.flatMap escape ++ '"' :: rest) := by simp [write, quoted]
  rw [hsplit, readValue_quote, readChars_quoted h text rest (by omega)]
  rfl

theorem ReadsItems.array {items : List Value} (h : ReadsItems escape items) :
    ReadsValue escape (.array items) := by
  intro fuel rest hfuel _
  have hlen : (write escape (.array items)).length = (writeItems escape items).length + 2 := by
    simp [write]
  obtain ⟨fuel, rfl⟩ : ∃ k, fuel = k + 1 := ⟨fuel - 1, by omega⟩
  have hsplit : write escape (.array items) ++ rest =
      '[' :: (writeItems escape items ++ ']' :: rest) := by simp [write]
  rw [hsplit]
  cases items with
  | nil => rfl
  | cons v items =>
    obtain ⟨c, hc, hne, -⟩ := head_write escape v
    have hhead : (writeItems escape (v :: items) ++ ']' :: rest).head? ≠ some ']' := by
      cases items with
      | nil =>
        rw [writeItems, head_append (write_ne_nil escape v), hc]
        simpa using hne
      | cons w items =>
        rw [writeItems, List.append_assoc, head_append (write_ne_nil escape v), hc]
        simpa using hne
    rw [readValue_bracket _ _ hhead, h (by simp) fuel rest (by omega)]
    rfl

theorem ReadsFields.object {fields : List (List Char × Value)} (h : ReadsFields escape fields) :
    ReadsValue escape (.object fields) := by
  intro fuel rest hfuel _
  have hlen : (write escape (.object fields)).length = (writeFields escape fields).length + 2 := by
    simp [write]
  obtain ⟨fuel, rfl⟩ : ∃ k, fuel = k + 1 := ⟨fuel - 1, by omega⟩
  have hsplit : write escape (.object fields) ++ rest =
      '\x7b' :: (writeFields escape fields ++ '\x7d' :: rest) := by simp [write]
  rw [hsplit]
  cases fields with
  | nil => rfl
  | cons f fields =>
    obtain ⟨name, v⟩ := f
    have hhead : (writeFields escape ((name, v) :: fields) ++ '\x7d' :: rest).head? ≠
        some '\x7d' := by
      cases fields with
      | nil => simp [writeFields, quoted]
      | cons g fields => simp [writeFields, quoted]
    rw [readValue_brace _ _ hhead, h (by simp) fuel rest (by omega)]
    rfl

theorem ReadsValue.lastItem {v : Value} (h : ReadsValue escape v) : ReadsItems escape [v] := by
  intro _ fuel rest hfuel
  obtain ⟨fuel, rfl⟩ : ∃ k, fuel = k + 1 := ⟨fuel - 1, by omega⟩
  rw [writeItems] at hfuel ⊢
  rw [readItems, h fuel _ (by omega) (delimited_cons (by decide))]
  rfl

theorem ReadsValue.moreItems {v w : Value} {items : List Value} (h : ReadsValue escape v)
    (hrest : ReadsItems escape (w :: items)) : ReadsItems escape (v :: w :: items) := by
  intro _ fuel rest hfuel
  obtain ⟨fuel, rfl⟩ : ∃ k, fuel = k + 1 := ⟨fuel - 1, by omega⟩
  rw [writeItems, List.length_append, List.length_cons] at hfuel
  have hread := hrest (by simp) fuel rest (by omega)
  rw [writeItems, List.append_assoc, List.cons_append, readItems,
    h fuel _ (by omega) (delimited_cons (by decide))]
  simp [expect, hread]

theorem ReadsValue.lastField (he : Readable escape) (name : List Char) {v : Value}
    (h : ReadsValue escape v) : ReadsFields escape [(name, v)] := by
  intro _ fuel rest hfuel
  obtain ⟨fuel, rfl⟩ : ∃ k, fuel = k + 1 := ⟨fuel - 1, by omega⟩
  have hlen : (writeFields escape [(name, v)]).length =
      (name.flatMap escape).length + (write escape v).length + 3 := by
    simp [writeFields, quoted]
    omega
  have hsplit : writeFields escape [(name, v)] ++ '\x7d' :: rest =
      '"' :: (name.flatMap escape ++ '"' :: ':' :: (write escape v ++ '\x7d' :: rest)) := by
    simp [writeFields, quoted]
  have hname := readChars_quoted he name (':' :: (write escape v ++ '\x7d' :: rest))
    (show _ < fuel by omega)
  have hvalue := h fuel ('\x7d' :: rest) (by omega) (delimited_cons (by decide))
  rw [hsplit, readFields]
  simp [expect, hname, hvalue]

theorem ReadsValue.moreFields (he : Readable escape) (name : List Char) {v : Value}
    {f : List Char × Value} {fields : List (List Char × Value)} (h : ReadsValue escape v)
    (hrest : ReadsFields escape (f :: fields)) : ReadsFields escape ((name, v) :: f :: fields) := by
  intro _ fuel rest hfuel
  obtain ⟨fuel, rfl⟩ : ∃ k, fuel = k + 1 := ⟨fuel - 1, by omega⟩
  have hlen : (writeFields escape ((name, v) :: f :: fields)).length =
      (name.flatMap escape).length + (write escape v).length +
        (writeFields escape (f :: fields)).length + 4 := by
    simp [writeFields, quoted]
    omega
  have hsplit : writeFields escape ((name, v) :: f :: fields) ++ '\x7d' :: rest =
      '"' :: (name.flatMap escape ++ '"' :: ':' :: (write escape v ++ ',' ::
        (writeFields escape (f :: fields) ++ '\x7d' :: rest))) := by
    simp [writeFields, quoted]
  have hname := readChars_quoted he name (':' :: (write escape v ++ ',' ::
    (writeFields escape (f :: fields) ++ '\x7d' :: rest))) (show _ < fuel by omega)
  have hvalue := h fuel (',' :: (writeFields escape (f :: fields) ++ '\x7d' :: rest)) (by omega)
    (delimited_cons (by decide))
  have hmore := hrest (by simp) fuel rest (by omega)
  rw [hsplit, readFields]
  simp [expect, hname, hvalue, hmore]

/-- Every value is read back from its text, whatever follows. -/
theorem readsValue (he : Readable escape) (v : Value) : ReadsValue escape v :=
  write.induct (ReadsValue escape) (ReadsFields escape) (ReadsItems escape) reads_number
    (reads_string he) (fun _ h => h.array) (fun _ h => h.object) (fun h => absurd rfl h)
    (fun _ h => h.lastItem) (fun _ _ _ h hrest => h.moreItems hrest) (fun h => absurd rfl h)
    (fun name _ h => h.lastField he name) (fun name _ _ _ h hrest => h.moreFields he name hrest) v

theorem parse_write (he : Readable escape) (v : Value) : parse (write escape v) = some v := by
  have hread := readsValue he v _ [] (Nat.le_refl _) (fun c hc => by cases hc)
  rw [List.append_nil] at hread
  rw [parse, hread]

end Json
