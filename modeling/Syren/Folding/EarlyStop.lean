import Mathlib.Data.Finset.Basic
import Mathlib.Tactic.Common

/-! Loops over a list whose items either stop them or update what has been collected. -/
namespace Folding

variable {ι σ ε α : Type} {stop : ι → Option ε}

/-- Where an item alone decides whether the loop stops, the first that does decides the result. -/
theorem foldlM_stop {f : σ → ι → Except ε σ} {update : σ → ι → σ}
    (hf : ∀ s x, f s x = (stop x).elim (.ok (update s x)) .error) (l : List ι) (s : σ) :
    l.foldlM f s = (l.findSome? stop).elim (.ok (l.foldl update s)) .error := by
  induction l generalizing s with
  | nil => rfl
  | cons x l ih =>
    rw [List.foldlM_cons, hf, List.findSome?_cons]
    cases hx : stop x with
    | none => exact ih (update s x)
    | some e => rfl

/-- What is in the set collected at the end was in it at the start or was added by some item. -/
theorem mem_foldl {P : ι → Prop} {update : Finset α → ι → Finset α} {n : α}
    (hu : ∀ s x, n ∈ update s x ↔ n ∈ s ∨ P x) (l : List ι) (s : Finset α) :
    n ∈ l.foldl update s ↔ n ∈ s ∨ ∃ x ∈ l, P x := by
  induction l generalizing s with
  | nil => simp
  | cons x l ih => simp [ih, hu, or_assoc]

end Folding
