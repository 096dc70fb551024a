import Mathlib.Data.List.Pairwise
import Mathlib.Order.Basic

/-! Intervals measured with one clock: each is opened under a key, at most one for each key at a
time, and closed later. Over a clock that never goes back the intervals of one key do not
overlap and come in order. -/
namespace Interaction

structure Interval (κ τ : Type) where
  key : κ
  first : τ
  last : τ

/-- At the time `now` the intervals `closed` are over, in order of their ends, and those still
open began after the closed ones of their key. -/
structure Timed {κ τ : Type} [Preorder τ] (opened : κ → Option τ)
    (closed : List (Interval κ τ)) (now : τ) : Prop where
  begun : ∀ k a, opened k = some a → a ≤ now
  forward : ∀ x ∈ closed, x.first ≤ x.last ∧ x.last ≤ now
  ordered : closed.Pairwise fun x y => x.last ≤ y.last ∧ (x.key = y.key → x.last ≤ y.first)
  after : ∀ x ∈ closed, ∀ a, opened x.key = some a → x.last ≤ a

namespace Timed

variable {κ τ : Type} [Preorder τ] {opened opened' : κ → Option τ}
  {closed : List (Interval κ τ)} {now now' : τ}

theorem start (h : ∀ k, opened k = none) : Timed opened [] now where
  begun k a hk := by
    rw [h] at hk
    cases hk
  forward := by simp
  ordered := .nil
  after := by simp

/-- Time goes on; what was open stays open or is forgotten, and more may be opened now. -/
theorem later (h : Timed opened closed now) (hnow : now ≤ now')
    (ho : ∀ k a, opened' k = some a → opened k = some a ∨ a = now') :
    Timed opened' closed now' where
  begun k a hk := by
    rcases ho k a hk with hold | rfl
    · exact (h.begun k a hold).trans hnow
    · exact le_rfl
  forward x hx := ⟨(h.forward x hx).1, (h.forward x hx).2.trans hnow⟩
  ordered := h.ordered
  after x hx a hk := by
    rcases ho x.key a hk with hold | rfl
    · exact h.after x hx a hold
    · exact (h.forward x hx).2.trans hnow

/-- An open interval is closed now. -/
theorem close (h : Timed opened closed now) (hnow : now ≤ now') {k : κ} {a : τ}
    (hk : opened k = some a) (hclosed : opened' k = none)
    (ho : ∀ j b, opened' j = some b → opened j = some b) :
    Timed opened' (closed ++ [⟨k, a, now'⟩]) now' where
  begun j b hj := (h.begun j b (ho j b hj)).trans hnow
  forward x hx := by
    rcases List.mem_append.mp hx with hx | hx
    · exact ⟨(h.forward x hx).1, (h.forward x hx).2.trans hnow⟩
    · obtain rfl := List.mem_singleton.mp hx
      exact ⟨(h.begun k a hk).trans hnow, le_rfl⟩
  ordered := by
    rw [List.pairwise_append]
    refine ⟨h.ordered, List.pairwise_singleton .., fun x hx y hy => ?_⟩
    obtain rfl := List.mem_singleton.mp hy
    have hkey (he : x.key = k) : x.last ≤ a := h.after x hx a (he ▸ hk)
    exact ⟨(h.forward x hx).2.trans hnow, hkey⟩
  after x hx b hb := by
    rcases List.mem_append.mp hx with hx | hx
    · exact h.after x hx b (ho _ b hb)
    · obtain rfl := List.mem_singleton.mp hx
      rw [hclosed] at hb
      cases hb

end Timed

end Interaction
