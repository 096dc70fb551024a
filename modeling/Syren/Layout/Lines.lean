import Mathlib.Data.List.DropRight

/-! A stream of lines that may be cut off anywhere, and the whole lines in what is left of it. -/
namespace Layout

variable {α : Type} [DecidableEq α] (sep : α)

/-- What ends with the last separator: the stream without the line that it is in the middle of. -/
def wholeLines (xs : List α) : List α := xs.rdropWhile (· ≠ sep)

/-- A line is ended by its separator and has no other. -/
def IsLine (line : List α) : Prop := ∃ text, line = text ++ [sep] ∧ sep ∉ text

variable {sep} {lines : List (List α)} {torn : List α}

theorem wholeLines_nil : wholeLines sep [] = [] := rfl

theorem wholeLines_none (h : sep ∉ torn) : wholeLines sep torn = [] := by
  rw [wholeLines, List.rdropWhile_eq_nil_iff]
  intro x hx
  have hne : x ≠ sep := fun he => h (he ▸ hx)
  simpa using hne

/-- A line in front of a stream stays whole. -/
theorem wholeLines_line {line : List α} (h : IsLine sep line) (rest : List α) :
    wholeLines sep (line ++ rest) = line ++ wholeLines sep rest := by
  obtain ⟨text, rfl, -⟩ := h
  induction rest using List.reverseRecOn with
  | nil =>
    rw [wholeLines_nil, List.append_nil, wholeLines, List.rdropWhile_concat_neg _ _ _ (by simp)]
  | append_singleton rest x ih =>
    have hassoc : text ++ [sep] ++ (rest ++ [x]) = text ++ [sep] ++ rest ++ [x] := by simp
    rw [hassoc, wholeLines, wholeLines, List.rdropWhile_concat, List.rdropWhile_concat]
    split_ifs
    · exact ih
    · simp

/-- Of a stream that is cut off, the whole lines are as many of its lines as separators are left. -/
theorem wholeLines_torn (hlines : ∀ line ∈ lines, IsLine sep line) (h : torn <+: lines.flatten) :
    wholeLines sep torn = (lines.take (torn.count sep)).flatten := by
  induction lines generalizing torn with
  | nil =>
    have hnil : torn = [] := List.prefix_nil.mp h
    rw [hnil, wholeLines_nil, List.take_nil]
    rfl
  | cons line lines ih =>
    obtain ⟨text, hline, hnone⟩ := hlines line List.mem_cons_self
    have hrest := fun l hl => hlines l (List.mem_cons_of_mem line hl)
    have hsep : IsLine sep line := ⟨text, hline, hnone⟩
    rw [List.flatten_cons] at h
    by_cases hshort : torn <+: text
    · -- the first line is cut off in the middle
      have hmem : sep ∉ torn := fun hs => hnone (hshort.subset hs)
      rw [wholeLines_none hmem, List.count_eq_zero.mpr hmem]
      rfl
    · have hlong : line <+: torn := by
        obtain hl | hl := List.prefix_or_prefix_of_prefix h (List.prefix_append line lines.flatten)
        · rw [hline, List.prefix_concat_iff] at hl
          rcases hl with hwhole | hpart
          · have hsame : line = torn := hline.trans hwhole.symm
            exact hsame ▸ List.prefix_rfl
          · exact absurd hpart hshort
        · exact hl
      obtain ⟨rest, rfl⟩ := hlong
      have hcount : (line ++ rest).count sep = rest.count sep + 1 := by
        rw [List.count_append, hline, List.count_append, List.count_eq_zero.mpr hnone,
          List.count_singleton_self]
        omega
      rw [wholeLines_line hsep, hcount, List.take_succ_cons, List.flatten_cons,
        ih hrest (List.prefix_append_right_inj line |>.mp h)]

end Layout
