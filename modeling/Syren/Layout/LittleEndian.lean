import Mathlib.Algebra.BigOperators.Group.List.Basic
import Mathlib.Algebra.GroupWithZero.Nat
import Mathlib.Tactic.Common

/-! Little-endian layouts: numbers of given widths one after the other. -/
namespace Layout

/-- The `width` lowest bytes of a number, the lowest first. -/
def leBytes : ℕ → ℕ → List UInt8
  | 0, _ => []
  | width + 1, n => UInt8.ofNat n :: leBytes width (n / 256)

def leValue (bytes : List UInt8) : ℕ := bytes.foldr (fun b n => b.toNat + 256 * n) 0

/-- The bytes of a sequence of fields, each a width and a value. -/
def encode (fields : List (ℕ × ℕ)) : List UInt8 := fields.flatMap fun f => leBytes f.1 f.2

/-- Where the field with the given index begins. -/
def offset (fields : List (ℕ × ℕ)) (i : ℕ) : ℕ := ((fields.take i).map Prod.fst).sum

@[simp] theorem length_leBytes (width n : ℕ) : (leBytes width n).length = width := by
  induction width generalizing n with
  | zero => rfl
  | succ width ih => rw [leBytes, List.length_cons, ih]

theorem leValue_leBytes (width n : ℕ) : leValue (leBytes width n) = n % 256 ^ width := by
  induction width generalizing n with
  | zero => simp [leBytes, leValue, Nat.mod_one]
  | succ width ih =>
    have hrest : leValue (leBytes (width + 1) n) =
        (UInt8.ofNat n).toNat + 256 * leValue (leBytes width (n / 256)) := rfl
    rw [hrest, ih, Nat.pow_succ, Nat.mul_comm _ 256, Nat.mod_mul, UInt8.toNat_ofNat']

theorem leValue_append (bytes rest : List UInt8) :
    leValue (bytes ++ rest) = leValue bytes + 256 ^ bytes.length * leValue rest := by
  induction bytes with
  | nil => simp [leValue]
  | cons b bytes ih =>
    have hcons (bytes : List UInt8) : leValue (b :: bytes) = b.toNat + 256 * leValue bytes := rfl
    rw [List.cons_append, hcons, hcons, ih, List.length_cons, Nat.pow_succ', Nat.mul_add,
      Nat.mul_assoc, Nat.add_assoc]

theorem leValue_lt (bytes : List UInt8) : leValue bytes < 256 ^ bytes.length := by
  induction bytes with
  | nil => exact Nat.one_pos
  | cons b bytes ih =>
    have hb := b.toNat_lt
    have hcons : leValue (b :: bytes) = b.toNat + 256 * leValue bytes := rfl
    rw [hcons, List.length_cons, Nat.pow_succ']
    omega

theorem length_encode (fields : List (ℕ × ℕ)) :
    (encode fields).length = (fields.map Prod.fst).sum := by
  rw [encode, List.length_flatMap]
  simp only [length_leBytes]

/-- Every field is found where it begins, whatever follows the layout. -/
theorem leValue_encode (fields : List (ℕ × ℕ)) (rest : List UInt8) (i : ℕ)
    (hi : i < fields.length) :
    leValue (((encode fields ++ rest).drop (offset fields i)).take fields[i].1) =
      fields[i].2 % 256 ^ fields[i].1 := by
  have hsplit : encode fields ++ rest =
      encode (fields.take i) ++ (leBytes fields[i].1 fields[i].2 ++
        (encode (fields.drop (i + 1)) ++ rest)) := by
    conv_lhs => rw [← List.take_append_drop i fields, ← List.cons_getElem_drop_succ (h := hi)]
    simp only [encode, List.flatMap_append, List.flatMap_cons, List.append_assoc]
  have hbefore : (encode (fields.take i)).length = offset fields i := length_encode _
  rw [hsplit, ← hbefore, List.drop_left, List.take_left' (length_leBytes ..), leValue_leBytes]

end Layout
