import Mathlib.Data.Set.Lattice

/-! Values told by names for groups of their bits, and by the bits that no name covers. -/
namespace Layout

section Sets
variable {ι : Type*} {names : Set (Set ι)} {a : Set ι}

/-- What is told of a set: the named sets it contains, and its elements that are in no named set. -/
def told (names : Set (Set ι)) (a : Set ι) : Set ι := ⋃₀ {m ∈ names | m ⊆ a} ∪ a \ ⋃₀ names

theorem told_subset : told names a ⊆ a :=
  Set.union_subset (Set.sUnion_subset fun _ hm => hm.2) Set.sdiff_subset

/-- Nothing is lost if every covered element is in a named set that is contained as a whole. -/
theorem told_eq_iff : told names a = a ↔ ∀ i ∈ a, i ∈ ⋃₀ names → ∃ m ∈ names, m ⊆ a ∧ i ∈ m := by
  constructor
  · intro h i hi hcovered
    rw [← h] at hi
    obtain ⟨m, ⟨hm, hsub⟩, hmem⟩ := hi.resolve_right fun hleft => hleft.2 hcovered
    exact ⟨m, hm, hsub, hmem⟩
  · intro h
    apply told_subset.antisymm
    intro i hi
    by_cases hcovered : i ∈ ⋃₀ names
    · obtain ⟨m, hm, hsub, hmem⟩ := h i hi hcovered
      exact Or.inl ⟨m, ⟨hm, hsub⟩, hmem⟩
    · exact Or.inr ⟨hi, hcovered⟩

theorem told_eq_of_subsingleton (h : ∀ m ∈ names, m.Subsingleton) : told names a = a := by
  rw [told_eq_iff]
  rintro i hi ⟨m, hm, hmem⟩
  exact ⟨m, hm, fun j hj => h m hm hj hmem ▸ hi, hmem⟩

end Sets

/-- The places of the bits that are set in a value. -/
def bits (v : UInt64) : Set ℕ := {i | v.toBitVec.getLsbD i}

/-- The union of some values. -/
def orAll (vs : List UInt64) : UInt64 := vs.foldl (· ||| ·) 0

theorem mem_bits {v : UInt64} {i : ℕ} : i ∈ bits v ↔ v.toBitVec.getLsbD i = true := Iff.rfl

theorem bits_injective : Function.Injective bits := by
  intro v w h
  apply UInt64.toBitVec_inj.mp
  apply BitVec.eq_of_getLsbD_eq
  intro i _
  rw [Bool.eq_iff_iff]
  exact Set.ext_iff.mp h i

@[simp] theorem bits_zero : bits 0 = ∅ := by simp [bits]

@[simp] theorem bits_and (v w : UInt64) : bits (v &&& w) = bits v ∩ bits w := by
  ext i
  simp [mem_bits]

@[simp] theorem bits_or (v w : UInt64) : bits (v ||| w) = bits v ∪ bits w := by
  ext i
  simp [mem_bits]

theorem bits_and_not (v w : UInt64) : bits (v &&& ~~~w) = bits v \ bits w := by
  ext i
  simp only [mem_bits, UInt64.toBitVec_and, UInt64.toBitVec_not, BitVec.getLsbD_and,
    BitVec.getLsbD_not, Bool.and_eq_true, Set.mem_sdiff, Bool.not_eq_true', decide_eq_true_eq]
  constructor
  · rintro ⟨hv, -, hw⟩
    exact ⟨hv, by simp [hw]⟩
  · rintro ⟨hv, hw⟩
    exact ⟨hv, BitVec.lt_of_getLsbD hv, by simpa using hw⟩

theorem bits_eq_empty {v : UInt64} : bits v = ∅ ↔ v = 0 := by
  rw [← bits_zero, bits_injective.eq_iff]

/-- A mask is in a value if all its bits are. -/
theorem and_eq_iff_subset {v m : UInt64} : v &&& m = m ↔ bits m ⊆ bits v := by
  rw [← bits_injective.eq_iff, bits_and, Set.inter_eq_right]

/-- The value with one bit. -/
theorem bits_shift {k : ℕ} (hk : k < 64) : bits ⟨BitVec.twoPow 64 k⟩ = {k} := by
  ext i
  simp [mem_bits, BitVec.getLsbD_twoPow, hk, eq_comm]

theorem bits_foldl (vs : List UInt64) (v : UInt64) :
    bits (vs.foldl (· ||| ·) v) = bits v ∪ ⋃₀ {m | ∃ w ∈ vs, m = bits w} := by
  induction vs generalizing v with
  | nil => simp
  | cons w vs ih =>
    rw [List.foldl_cons, ih, bits_or, Set.union_assoc]
    ext i
    simp

theorem mem_bits_orAll {vs : List UInt64} {i : ℕ} :
    i ∈ bits (orAll vs) ↔ ∃ w ∈ vs, i ∈ bits w := by
  simp [orAll, bits_foldl]

theorem bits_orAll_append (vs ws : List UInt64) :
    bits (orAll (vs ++ ws)) = bits (orAll vs) ∪ bits (orAll ws) := by
  ext i
  simp [mem_bits_orAll, or_and_right, exists_or]

theorem bits_orAll_cons (v : UInt64) (vs : List UInt64) :
    bits (orAll (v :: vs)) = bits v ∪ bits (orAll vs) := by
  rw [← List.singleton_append, bits_orAll_append]
  simp [orAll]

end Layout
