import Syren.Decode.Quoting

/-! Strings read through two readers. -/
namespace Syren.Render

variable {mem mem' : MemoryReader} {cap : ℕ} {cursor addr : UInt64} {out : List UInt8}

theorem takeWhile_noZero {p : List UInt8} (hp : 0 ∉ p) (q : List UInt8) :
    (p ++ q).takeWhile (· ≠ 0) = p ++ q.takeWhile (· ≠ 0) :=
  List.takeWhile_append_of_pos fun _ hc => decide_eq_true (ne_of_mem_of_not_mem hc hp)

theorem takeWhile_ofZero {p : List UInt8} (hp : 0 ∈ p) (q : List UInt8) :
    (p ++ q).takeWhile (· ≠ 0) = p.takeWhile (· ≠ 0) := by
  rw [List.takeWhile_append, if_neg]
  intro hlen
  have hall := List.takeWhile_eq_self_iff.mp ((List.takeWhile_prefix _).eq_of_length hlen)
  exact of_decide_eq_true (hall 0 hp) rfl

theorem readCstrLoop_stop (hlt : out.length < cap)
    (hread : (mem cursor (min 256 (cap - out.length))).getD [] = []) :
    readCstrLoop mem cap cursor out = if out = [] then none else some out := by
  rw [readCstrLoop, dif_pos hlt]
  cases hchunk : mem cursor (min 256 (cap - out.length)) with
  | none => rfl
  | some chunk =>
    rw [hchunk, Option.getD_some] at hread
    simp only [hread, dite_true]

theorem readCstrLoop_some {chunk : List UInt8} (hlt : out.length < cap)
    (hread : mem cursor (min 256 (cap - out.length)) = some chunk) (hne : chunk ≠ []) :
    readCstrLoop mem cap cursor out =
      if 0 ∈ chunk then some (out ++ chunk.takeWhile (· ≠ 0))
      else readCstrLoop mem cap (cursor + UInt64.ofNat chunk.length) (out ++ chunk) := by
  rw [readCstrLoop, dif_pos hlt, hread]
  simp only [dif_neg hne]

/-- What has been read stays at the front of what is answered. -/
theorem readCstrLoop_front (mem : MemoryReader) (cap : ℕ) (cursor : UInt64) (out : List UInt8)
    (hne : out ≠ []) : ∃ rest, readCstrLoop mem cap cursor out = some (out ++ rest) := by
  fun_induction readCstrLoop mem cap cursor out with
  | case1 | case3 => contradiction
  | case2 | case4 => exact ⟨[], by simp⟩
  | case5 cursor out hlt chunk hread hchunk hzero => exact ⟨_, rfl⟩
  | case6 cursor out hlt chunk hread hchunk hzero ih =>
    obtain ⟨rest, hrest⟩ := ih (List.append_ne_nil_of_left_ne_nil hne _)
    exact ⟨chunk ++ rest, by rw [hrest, List.append_assoc]⟩
  | case7 => exact ⟨[], by simp⟩

/-- Once enough has been read, what is read further on makes no difference to the text. -/
theorem readCstrLoop_shown (h : MAX_STR < out.length ∨ cap ≤ out.length) :
    (readCstrLoop mem cap cursor out).map quoteBytes = some (quoteBytes out) := by
  by_cases hlt : out.length < cap
  · have hlong := h.resolve_right (by omega)
    obtain ⟨rest, hrest⟩ := readCstrLoop_front mem cap cursor out
      (List.length_pos_iff.mp (Nat.zero_lt_of_lt hlong))
    rw [hrest, Option.map_some, ← quoteBytes_take, List.take_append_of_le_length hlong,
      quoteBytes_take]
  · rw [readCstrLoop, dif_neg hlt, Option.map_some]

/-- Two readers that agree outside a region show a string in the same way if it starts outside, and
if a read that falls short never ends where the region goes on. -/
theorem readCstrLoop_alike {region : UInt64 → Prop}
    (hsame : ∀ addr len, ¬ region addr → mem' addr len = mem addr len)
    (hnext : ∀ addr len chunk, mem addr len = some chunk → chunk.length < len →
      ¬ region (addr + UInt64.ofNat chunk.length))
    (cursor : UInt64) (out : List UInt8) (hout : ¬ region cursor) :
    (readCstrLoop mem' cap cursor out).map quoteBytes =
      (readCstrLoop mem cap cursor out).map quoteBytes := by
  fun_induction readCstrLoop mem cap cursor out with
  | case1 cursor hlt hread | case3 cursor hlt hread =>
    rw [readCstrLoop_stop hlt (by rw [hsame _ _ hout, hread]; rfl), if_pos rfl]
  | case2 cursor out hlt hread hne | case4 cursor out hlt hne hread =>
    rw [readCstrLoop_stop hlt (by rw [hsame _ _ hout, hread]; rfl), if_neg hne]
  | case5 cursor out hlt chunk hread hchunk hzero =>
    rw [readCstrLoop_some hlt ((hsame _ _ hout).trans hread) hchunk, if_pos hzero]
  | case6 cursor out hlt chunk hread hchunk hzero ih =>
    rw [readCstrLoop_some hlt ((hsame _ _ hout).trans hread) hchunk, if_neg hzero]
    by_cases hshort : chunk.length < min 256 (cap - out.length)
    · exact ih (hnext _ _ _ hread hshort)
    · have hlong : MAX_STR < (out ++ chunk).length ∨ cap ≤ (out ++ chunk).length := by
        rw [List.length_append, MAX_STR]
        omega
      rw [readCstrLoop_shown hlong, readCstrLoop_shown hlong]
  | case7 cursor out hlt => rw [readCstrLoop, dif_neg hlt]

end Syren.Render
