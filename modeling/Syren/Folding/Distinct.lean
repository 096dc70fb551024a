import Mathlib.Data.List.Nodup
import Mathlib.Data.Nat.Bitwise

/-! Whether a list has no element twice, by the bits of their codes in one number: a long list is
gone through once. -/
namespace Folding

/-- No code is among those seen, nor twice in the list. -/
def distinctBits : ℕ → List ℕ → Bool
  | _, [] => true
  | seen, n :: ns => !seen.testBit n && distinctBits (seen ||| 1 <<< n) ns

theorem testBit_seen (seen m n : ℕ) :
    (seen ||| 1 <<< n).testBit m = (seen.testBit m || decide (m = n)) := by
  rw [Nat.testBit_or, Nat.one_shiftLeft, Nat.testBit_two_pow]
  simp [eq_comm]

theorem nodup_of_distinctBits {seen : ℕ} {ns : List ℕ} (h : distinctBits seen ns = true) :
    ns.Nodup ∧ ∀ n ∈ ns, seen.testBit n = false := by
  induction ns generalizing seen with
  | nil => exact ⟨List.nodup_nil, nofun⟩
  | cons n ns ih =>
    rw [distinctBits, Bool.and_eq_true, Bool.not_eq_true'] at h
    obtain ⟨hnodup, hseen⟩ := ih h.2
    have hsplit (m : ℕ) (hm : m ∈ ns) : seen.testBit m = false ∧ m ≠ n := by
      have hbit := hseen m hm
      rw [testBit_seen, Bool.or_eq_false_iff, decide_eq_false_iff_not] at hbit
      exact hbit
    refine ⟨List.nodup_cons.mpr ⟨fun hn => (hsplit n hn).2 rfl, hnodup⟩, fun m hm => ?_⟩
    rcases List.mem_cons.mp hm with rfl | hm
    · exact h.1
    · exact (hsplit m hm).1

/-- Elements with distinct codes are distinct. -/
theorem nodup_of_codes {α : Type} (code : α → ℕ) {xs : List α}
    (h : distinctBits 0 (xs.map code) = true) : xs.Nodup :=
  .of_map code (nodup_of_distinctBits h).1

end Folding
