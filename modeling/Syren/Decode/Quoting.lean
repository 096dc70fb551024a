import Syren.Decode.Render

/-! What two quoted texts say about the bytes they show: nothing past the first bytes counts, and
up to there a text that goes on, or that has another byte, is another text. -/
namespace Syren.Render

theorem quoteByte_ne_nil (b : UInt8) : quoteByte b ≠ [] := by
  unfold quoteByte
  split_ifs <;> simp

/-- Of all bytes only zero is shown by a backslash and a zero. -/
theorem quoteByte_zero_start {b : UInt8} (hb : b ≠ 0) (s : List Char) :
    ¬ ['\\', '0'] <+: quoteByte b ++ s := by
  have hall : ∀ n : Fin 256, n ≠ 0 → (quoteByte (UInt8.ofFin n)).head? = some '\\' →
      (quoteByte (UInt8.ofFin n))[1]? ≠ none ∧ (quoteByte (UInt8.ofFin n))[1]? ≠ some '0' := by
    decide +kernel
  have hfin : b.toFin ≠ 0 := fun h => hb (UInt8.toFin_inj.mp h)
  have hbyte := hall b.toFin hfin
  rw [UInt8.ofFin_toFin] at hbyte
  rintro ⟨rest, hrest⟩
  cases hq : quoteByte b with
  | nil => exact quoteByte_ne_nil b hq
  | cons c q =>
    rw [hq] at hbyte hrest
    obtain ⟨rfl, htail⟩ : '\\' = c ∧ '0' :: rest = q ++ s := List.cons.inj hrest
    obtain ⟨hsome, hne⟩ := hbyte rfl
    cases q with
    | nil => exact hsome rfl
    | cons d q => exact hne (congrArg some (List.cons.inj htail).1.symm)

/-- The bytes that a quoted text depends on. -/
theorem quoteBytes_take (bytes : List UInt8) :
    quoteBytes (bytes.take (MAX_STR + 1)) = quoteBytes bytes := by
  have hshown : (bytes.take (MAX_STR + 1)).take MAX_STR = bytes.take MAX_STR := by
    rw [List.take_take]
    rfl
  have hmore : (bytes.take (MAX_STR + 1)).length > MAX_STR ↔ bytes.length > MAX_STR := by
    rw [List.length_take]
    omega
  simp only [quoteBytes, hshown, hmore]

theorem quoteBytes_length (bytes : List UInt8) : (quoteBytes bytes).length =
    ((bytes.take MAX_STR).flatMap quoteByte).length +
      (if bytes.length > MAX_STR then 5 else 2) := by
  unfold quoteBytes
  split_ifs <;> simp

theorem flatMap_quoteByte_pos {bytes : List UInt8} (h : bytes ≠ []) :
    0 < (bytes.flatMap quoteByte).length := by
  obtain ⟨b, rest, rfl⟩ := List.exists_cons_of_ne_nil h
  have hb := List.length_pos_iff.mpr (quoteByte_ne_nil b)
  rw [List.flatMap_cons, List.length_append]
  omega

/-- Bytes that go on are shown otherwise, unless the text ends before that. -/
theorem quoteBytes_append_iff {l m : List UInt8} (hm : m ≠ []) :
    quoteBytes (l ++ m) = quoteBytes l ↔ MAX_STR < l.length := by
  constructor
  · intro h
    by_contra hl
    have hlen := congrArg List.length h
    have hpos := List.length_pos_iff.mpr hm
    rw [quoteBytes_length, quoteBytes_length, List.take_append, List.take_of_length_le (by omega),
      List.flatMap_append, List.length_append, if_neg hl] at hlen
    by_cases hfull : l.length = MAX_STR
    · rw [if_pos (by rw [List.length_append]; omega)] at hlen
      omega
    · have hmore : m.take (MAX_STR - l.length) ≠ [] := by
        rw [← List.length_pos_iff, List.length_take]
        omega
      have := flatMap_quoteByte_pos hmore
      split_ifs at hlen <;> omega
  · intro h
    rw [← quoteBytes_take, List.take_append_of_le_length h, quoteBytes_take]

/-- A byte shown as zero that is not zero makes a difference, unless the text ends before it. -/
theorem quoteBytes_zero_iff {l m : List UInt8} {b : UInt8} (hb : b ≠ 0) :
    quoteBytes (l ++ b :: m) = quoteBytes (l ++ [0]) ↔ MAX_STR ≤ l.length := by
  constructor
  · intro h
    by_contra hl
    have htake (b : UInt8) (m : List UInt8) : (l ++ b :: m).take MAX_STR =
        l ++ b :: m.take (MAX_STR - l.length - 1) := by
      rw [List.take_append, List.take_of_length_le (by omega), List.take_cons (by omega)]
    unfold quoteBytes at h
    rw [htake, htake] at h
    simp only [List.flatMap_append, List.flatMap_cons, List.append_assoc, List.cons_append,
      List.cons.injEq, true_and, List.append_cancel_left_eq] at h
    exact quoteByte_zero_start hb _ ⟨_, h.symm⟩
  · intro h
    have hlen (b : UInt8) (m : List UInt8) : (l ++ b :: m).length > MAX_STR := by
      rw [List.length_append, List.length_cons]
      omega
    simp only [quoteBytes, List.take_append_of_le_length h, hlen, if_true]

end Syren.Render
