import Mathlib.Order.Lattice
import Mathlib.Tactic.Common

/-! Binary search by key, as the standard library does it: the part still searched is halved until
one element is left, which is then compared. -/
namespace Folding

variable {κ : Type*} [LinearOrder κ] (key : ℕ → κ) (x : κ)

/-- The index left of a part of some size. -/
def bisect (base size : ℕ) : ℕ :=
  if 1 < size then
    let half := size / 2
    let mid := base + half
    bisect (if x < key mid then base else mid) (size - half)
  else base
  termination_by size

/-- `binary_search_by_key` over so many elements. -/
def binarySearch (size : ℕ) : Option ℕ :=
  if size = 0 then none
  else
    let found := bisect key x 0 size
    if key found = x then some found else none

variable {key x} {size : ℕ}

/-- The part still searched keeps the key if it ever had it. -/
theorem bisect_found {base : ℕ} (hmono : ∀ i j, i ≤ j → j < base + size → key i ≤ key j)
    (hpos : 0 < size) (hmem : ∃ i, base ≤ i ∧ i < base + size ∧ key i = x) :
    key (bisect key x base size) = x := by
  induction size using Nat.strongRecOn generalizing base with
  | ind size ih =>
    obtain ⟨i, hlow, hhigh, hi⟩ := hmem
    rw [bisect]
    dsimp only
    split_ifs with hlt hmid
    · -- the middle is above the key, which is thus before it
      have hbefore : i < base + size / 2 := by
        by_contra hafter
        have hle := hmono _ i (Nat.le_of_not_lt hafter) hhigh
        rw [hi] at hle
        exact absurd hle (not_le.mpr hmid)
      apply ih _ (by omega) (fun i j hij hj => hmono i j hij (by omega)) (by omega)
      exact ⟨i, hlow, by omega, hi⟩
    · apply ih _ (by omega) (fun i j hij hj => hmono i j hij (by omega)) (by omega)
      rcases Nat.lt_or_ge i (base + size / 2) with hbefore | hafter
      · have hle := hmono i (base + size / 2) (by omega) (by omega)
        rw [hi] at hle
        exact ⟨_, Nat.le_refl _, by omega, le_antisymm (not_lt.mp hmid) hle⟩
      · exact ⟨i, hafter, by omega, hi⟩
    · have hbase : i = base := by omega
      rw [← hbase, hi]

theorem bisect_lt (key : ℕ → κ) (x : κ) (base : ℕ) (hpos : 0 < size) :
    bisect key x base size < base + size := by
  induction size using Nat.strongRecOn generalizing base with
  | ind size ih =>
    rw [bisect]
    dsimp only
    split_ifs with hlt hmid
    · have hrec := ih (size - size / 2) (by omega) base (by omega)
      omega
    · have hrec := ih (size - size / 2) (by omega) (base + size / 2) (by omega)
      omega
    · omega

theorem binarySearch_sound {i : ℕ} (h : binarySearch key x size = some i) :
    i < size ∧ key i = x := by
  unfold binarySearch at h
  dsimp only at h
  split_ifs at h with hzero hkey
  cases h
  have hlt := bisect_lt key x 0 (Nat.pos_of_ne_zero hzero)
  exact ⟨by omega, hkey⟩

/-- The search finds a key among elements that are sorted, if it is there. -/
theorem binarySearch_isSome (hmono : ∀ i j, i ≤ j → j < size → key i ≤ key j) :
    (binarySearch key x size).isSome ↔ ∃ i < size, key i = x := by
  constructor
  · intro h
    obtain ⟨i, hi⟩ := Option.isSome_iff_exists.mp h
    exact ⟨i, binarySearch_sound hi⟩
  · rintro ⟨i, hlt, hi⟩
    have hfound : key (bisect key x 0 size) = x :=
      bisect_found (by simpa using hmono) (by omega) ⟨i, by omega, by omega, hi⟩
    simp [binarySearch, hfound, show size ≠ 0 by omega]

end Folding
