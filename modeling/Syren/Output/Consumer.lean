import Syren.Output.Sinks

/-! The bytes of an output as a consumer takes them apart: as UTF-8, and line by line. -/
namespace Syren.Output
open Text

/-- The text that some bytes encode, if they are UTF-8. -/
def fromUtf8 (bytes : List UInt8) : Option (List Char) :=
  bytes.toByteArray.utf8Decode?.map Array.toList

/-- The lines that are ended. -/
def endedLines (bytes : List UInt8) : Option (List (List Char)) :=
  (fromUtf8 bytes).map fun text => (Text.lines text).dropLast

theorem fromUtf8_utf8 (text : List Char) : fromUtf8 (utf8 text) = some text := by
  have hdecode : text.utf8Encode.utf8Decode? = some text.toArray := List.utf8Decode?_utf8Encode
  show (text.utf8Encode.utf8Decode?).map Array.toList = _
  rw [hdecode]
  rfl

theorem utf8_newline (text : List Char) : utf8 (text ++ ['\n']) = utf8 text ++ [10] := by
  have hfeed : String.utf8EncodeChar '\n' = [10] := by decide
  simp [utf8, hfeed]

theorem lineFeed_mem_utf8 {text : List Char} (h : (10 : UInt8) ∈ utf8 text) : '\n' ∈ text := by
  obtain ⟨c, hc, hbyte⟩ := List.mem_flatMap.mp h
  have hval : c.val.toNat < 2 ^ 32 := c.val.toNat_lt
  have hline : c = '\n' := by
    unfold String.utf8EncodeChar at hbyte
    dsimp only at hbyte
    split_ifs at hbyte with hone htwo hthree
    · simp only [List.mem_singleton, ← UInt8.toNat_inj, UInt8.toNat_ofNat',
        UInt8.reduceToNat] at hbyte
      have hten : c.val.toNat = 10 := by omega
      exact Char.ext (UInt32.toNat_inj.mp hten)
    -- every byte of a longer encoding is at least 128
    all_goals
      simp only [List.mem_cons, List.not_mem_nil, or_false, ← UInt8.toNat_inj,
        UInt8.toNat_ofNat', UInt8.reduceToNat] at hbyte
      omega
  exact hline ▸ hc

theorem lines_ended {texts : List (List Char)} (h : ∀ text ∈ texts, '\n' ∉ text) :
    Text.lines (texts.flatMap (· ++ ['\n'])) = texts ++ [[]] := by
  have hjoin : texts.flatMap (· ++ ['\n']) = ['\n'].intercalate (texts ++ [[]]) := by
    clear h
    induction texts with
    | nil => rfl
    | cons text texts ih =>
      rw [List.flatMap_cons, ih, List.cons_append, List.intercalate_cons_of_ne_nil (by simp)]
  rw [Text.lines, hjoin, List.splitOn_intercalate]
  · intro l hl
    rcases List.mem_append.mp hl with hl | hl
    · exact h l hl
    · simp [List.mem_singleton.mp hl]
  · simp

/-- Texts that are written as a line each are given back. -/
theorem endedLines_utf8 {texts : List (List Char)} (h : ∀ text ∈ texts, '\n' ∉ text) :
    endedLines (utf8 (texts.flatMap (· ++ ['\n']))) = some texts := by
  rw [endedLines, fromUtf8_utf8, Option.map_some, lines_ended h, List.dropLast_concat]

end Syren.Output
