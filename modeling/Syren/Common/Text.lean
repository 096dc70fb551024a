import Mathlib.Data.Int.Notation
import Mathlib.Tactic.Common

/-! The string operations and the formatting of the standard library that the tracer uses. Texts
are lists of characters. -/
namespace Syren.Text

/-- The characters `str::trim` removes: the Unicode property White_Space. -/
def isWhite (c : Char) : Bool :=
  (9 ≤ c.toNat && c.toNat ≤ 13) || c.toNat = 0x20 || c.toNat = 0x85 || c.toNat = 0xA0 ||
    c.toNat = 0x1680 || (0x2000 ≤ c.toNat && c.toNat ≤ 0x200A) || c.toNat = 0x2028 ||
    c.toNat = 0x2029 || c.toNat = 0x202F || c.toNat = 0x205F || c.toNat = 0x3000

def trim (s : List Char) : List Char := ((s.dropWhile isWhite).reverse.dropWhile isWhite).reverse

/-- `str::lines`, up to a carriage return before the line feed and an empty last line: every use
here trims what it keeps of a line and keeps nothing of an empty one. -/
def lines (s : List Char) : List (List Char) := s.splitOn '\n'

/-- `str::strip_prefix`. -/
def stripStart : List Char → List Char → Option (List Char)
  | [], s => some s
  | _ :: _, [] => none
  | p :: ps, c :: s => if c = p then stripStart ps s else none

def digitValue (radix : ℕ) (c : Char) : Option ℕ :=
  let v :=
    if '0' ≤ c ∧ c ≤ '9' then some (c.toNat - '0'.toNat)
    else if 'a' ≤ c ∧ c ≤ 'z' then some (c.toNat - 'a'.toNat + 10)
    else if 'A' ≤ c ∧ c ≤ 'Z' then some (c.toNat - 'A'.toNat + 10)
    else none
  v.filter (· < radix)

def digits (radix : ℕ) : ℕ → List Char → Option ℕ
  | acc, [] => some acc
  | acc, c :: s => (digitValue radix c).bind fun v => digits radix (acc * radix + v) s

/-- `from_str_radix` for an unsigned type of `bits` bits: one optional plus sign, at least one
digit, and no overflow. -/
def parseUnsigned (bits radix : ℕ) (s : List Char) : Option ℕ :=
  let body := match s with
    | '+' :: rest => rest
    | s => s
  if body = [] then none else (digits radix 0 body).filter (· < Nat.pow 2 bits)

def eqIgnoreAsciiCase (a b : List Char) : Bool := a.map Char.toLower = b.map Char.toLower

/-- `str::split_once` at a character. -/
def splitOnce (c : Char) : List Char → Option (List Char × List Char)
  | [] => none
  | d :: s => if d = c then some ([], s) else (splitOnce c s).map fun p => (d :: p.1, p.2)

/-- The formatting of an unsigned number. -/
def dec (n : ℕ) : List Char := Nat.toDigits 10 n

/-- The formatting of a signed number. -/
def decInt (n : ℤ) : List Char := if n < 0 then '-' :: dec n.natAbs else dec n.natAbs

/-- The formatting `:#x`. -/
def hex (n : ℕ) : List Char := '0' :: 'x' :: Nat.toDigits 16 n

theorem splitOnce_append {c : Char} {q rest : List Char} (h : c ∉ q) :
    splitOnce c (q ++ c :: rest) = some (q, rest) := by
  induction q with
  | nil => simp [splitOnce]
  | cons d q ih =>
    obtain ⟨hd, hq⟩ := not_or.mp (List.mem_cons.not.mp h)
    rw [List.cons_append, splitOnce, if_neg (Ne.symm hd), ih hq]
    rfl

theorem mem_toDigits {b : ℕ} (hb : 1 < b) {c : Char} {n : ℕ} (hc : c ∈ Nat.toDigits b n) :
    ∃ d < b, d.digitChar = c := by
  induction n using Nat.strongRecOn with
  | ind n ih =>
    rw [Nat.toDigits_eq_if hb] at hc
    split_ifs at hc with hn
    · exact ⟨n, hn, (List.mem_singleton.mp hc).symm⟩
    · rcases List.mem_append.mp hc with hc | hc
      · exact ih _ (Nat.div_lt_self (by omega) hb) hc
      · exact ⟨n % b, Nat.mod_lt n (by omega), (List.mem_singleton.mp hc).symm⟩

/-- A character that is no digit is in no formatted number. -/
theorem notMem_toDigits {b : ℕ} (hb : 1 < b) {c : Char} (hc : ∀ d : ℕ, d.digitChar ≠ c) (n : ℕ) :
    c ∉ Nat.toDigits b n := by
  intro h
  obtain ⟨d, -, hd⟩ := mem_toDigits hb h
  exact hc d hd

theorem space_notMem_toDigits {b : ℕ} (hb : 1 < b) (n : ℕ) : ' ' ∉ Nat.toDigits b n :=
  notMem_toDigits hb (fun _ => Nat.digitChar_ne ' ' (by decide)) n

theorem space_notMem_dec (n : ℕ) : ' ' ∉ dec n := space_notMem_toDigits (by decide) n

theorem space_notMem_decInt (n : ℤ) : ' ' ∉ decInt n := by
  unfold decInt
  split_ifs
  · simpa using space_notMem_dec n.natAbs
  · exact space_notMem_dec n.natAbs

theorem space_notMem_hex (n : ℕ) : ' ' ∉ hex n := by
  simpa [hex] using space_notMem_toDigits (b := 16) (by decide) n

theorem dec_injective {m n : ℕ} (h : dec m = dec n) : m = n := by
  have hvalue := congrArg (fun s => Nat.ofDigitChars 10 s 0) h
  simpa only [dec, Nat.ofDigitChars_ten_toDigits] using hvalue

theorem minus_notMem_dec (n : ℕ) : '-' ∉ dec n := fun h =>
  absurd (Nat.isDigit_of_mem_toDigits (by decide) (by decide) h) (by decide)

theorem decInt_injective {m n : ℤ} (h : decInt m = decInt n) : m = n := by
  unfold decInt at h
  split_ifs at h with hm hn hn
  · have habs := dec_injective (List.cons.inj h).2
    omega
  · exact absurd (h ▸ List.mem_cons_self) (minus_notMem_dec n.natAbs)
  · exact absurd (h ▸ List.mem_cons_self) (minus_notMem_dec m.natAbs)
  · have habs := dec_injective h
    omega

theorem digits_append (radix acc : ℕ) (s t : List Char) :
    digits radix acc (s ++ t) = (digits radix acc s).bind fun v => digits radix v t := by
  induction s generalizing acc with
  | nil => rfl
  | cons c s ih => cases hc : digitValue radix c <;> simp [digits, hc, ih]

theorem digitValue_digitChar {radix d : ℕ} (hr : radix ≤ 16) (hd : d < radix) :
    digitValue radix d.digitChar = some d := by
  have hall : ∀ d : Fin 16, digitValue 16 (Nat.digitChar d) = some d.val := by decide
  have hsixteen := hall ⟨d, by omega⟩
  simp only [digitValue, Option.filter_eq_some_iff] at hsixteen ⊢
  exact ⟨hsixteen.1, by simpa using hd⟩

/-- A number is read back from its digits. -/
theorem digits_toDigits {radix : ℕ} (hlow : 1 < radix) (hr : radix ≤ 16) (n : ℕ) :
    digits radix 0 (Nat.toDigits radix n) = some n := by
  induction n using Nat.strongRecOn with
  | ind n ih =>
    rw [Nat.toDigits_eq_if hlow]
    split_ifs with hn
    · simp [digits, digitValue_digitChar hr hn]
    · have hmod := Nat.mod_lt n (show 0 < radix by omega)
      rw [digits_append, ih _ (Nat.div_lt_self (by omega) hlow)]
      simp [digits, digitValue_digitChar hr hmod, Nat.div_add_mod']

theorem parseUnsigned_of_notMem {bits radix : ℕ} {s : List Char} (hs : s ≠ []) (hplus : '+' ∉ s) :
    parseUnsigned bits radix s = (digits radix 0 s).filter (· < Nat.pow 2 bits) := by
  cases s with
  | nil => contradiction
  | cons c s =>
    have hc : c ≠ '+' := fun h => hplus (h ▸ List.mem_cons_self)
    simp [parseUnsigned, hc]

/-- A formatted number is parsed as itself, if it fits. -/
theorem parseUnsigned_toDigits {bits radix n : ℕ} (hlow : 1 < radix) (hr : radix ≤ 16)
    (hn : n < Nat.pow 2 bits) : parseUnsigned bits radix (Nat.toDigits radix n) = some n := by
  have hplus := notMem_toDigits hlow (fun _ => Nat.digitChar_ne '+' (by decide)) n
  rw [parseUnsigned_of_notMem Nat.toDigits_ne_nil hplus, digits_toDigits hlow hr]
  simpa using hn

example : parseUnsigned 32 10 (trim "\t4242".toList) = some 4242 := by decide +kernel

end Syren.Text
