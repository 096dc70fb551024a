import Mathlib.Data.Nat.Notation
import Mathlib.Tactic.Common

/-! Digits, and the numbers that a scan along them comes to. -/
namespace Layout

def hexValue (c : Char) : Option ℕ :=
  if '0' ≤ c ∧ c ≤ '9' then some (c.toNat - '0'.toNat)
  else if 'a' ≤ c ∧ c ≤ 'f' then some (c.toNat - 'a'.toNat + 10)
  else if 'A' ≤ c ∧ c ≤ 'F' then some (c.toNat - 'A'.toNat + 10)
  else none

theorem hexValue_digitChar {d : ℕ} (hd : d < 16) : hexValue d.digitChar = some d := by
  have hall : ∀ d : Fin 16, hexValue (Nat.digitChar d) = some d.val := by decide
  exact hall ⟨d, hd⟩

/-- A scan that adds each digit to what it has reads a number along its digits. -/
theorem foldlM_toDigits {σ : Type} {b : ℕ} (hb : 1 < b) {next : σ → Char → Option σ}
    {reached : ℕ → σ} (h : ∀ k d, d < b → next (reached k) d.digitChar = some (reached (k * b + d)))
    (n : ℕ) :
    (Nat.toDigits b n).foldlM next (reached 0) = some (reached n) := by
  induction n using Nat.strongRecOn with
  | ind n ih =>
    rw [Nat.toDigits_eq_if hb]
    split_ifs with hn
    · simpa using h 0 n hn
    · have hdiv : n / b < n := Nat.div_lt_self (by omega) hb
      have hlast := h (n / b) (n % b) (Nat.mod_lt n (by omega))
      rw [Nat.div_add_mod'] at hlast
      rw [List.foldlM_append, ih _ hdiv]
      simpa using hlast

end Layout
