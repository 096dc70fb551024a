import Syren.Kernel.RoundTrip

/-! A captured string beside the memory it was copied from: which reads it answers and what the
memory has there. -/
namespace Syren
open Kernel

namespace Image

variable (mem : Image)

theorem mapped_succ {mem : Image} {addr : ℕ} {b : UInt8} (h : mem.byte addr = some b) (len : ℕ) :
    mem.mapped addr (len + 1) = b :: mem.mapped (addr + 1) len := by
  rw [mapped, h]

theorem mapped_none {mem : Image} {addr : ℕ} (h : mem.byte addr = none) (len : ℕ) :
    mem.mapped addr len = [] := by
  cases len with
  | zero => rfl
  | succ len => rw [mapped, h]

theorem mapped_eq_nil {mem : Image} {addr len : ℕ} :
    mem.mapped addr len = [] ↔ len = 0 ∨ mem.byte addr = none := by
  cases len with
  | zero => simp [mapped]
  | succ len => cases hb : mem.byte addr <;> simp [mapped, hb]

theorem length_mapped_le (addr len : ℕ) : (mem.mapped addr len).length ≤ len := by
  induction len generalizing addr with
  | zero => exact le_rfl
  | succ len ih =>
    cases hb : mem.byte addr with
    | none => simp [mapped_none hb]
    | some b => simpa [mapped_succ hb] using ih (addr + 1)

theorem mapped_getElem? {addr len i : ℕ} (h : i < (mem.mapped addr len).length) :
    (mem.mapped addr len)[i]? = mem.byte (addr + i) := by
  induction len generalizing addr i with
  | zero => exact absurd h (Nat.not_lt_zero i)
  | succ len ih =>
    cases hb : mem.byte addr with
    | none => simp [mapped_none hb] at h
    | some b =>
      rw [mapped_succ hb] at h ⊢
      cases i with
      | zero => exact hb.symm
      | succ i =>
        rw [List.getElem?_cons_succ, ih (Nat.lt_of_succ_lt_succ h)]
        exact congrArg mem.byte (by omega)

/-- A run that is shorter than asked for ends where nothing is mapped. -/
theorem byte_of_length_lt {addr len : ℕ} (h : (mem.mapped addr len).length < len) :
    mem.byte (addr + (mem.mapped addr len).length) = none := by
  induction len generalizing addr with
  | zero => exact absurd h (Nat.not_lt_zero _)
  | succ len ih =>
    cases hb : mem.byte addr with
    | none => simpa [mapped_none hb] using hb
    | some b =>
      rw [mapped_succ hb, List.length_cons] at h ⊢
      have hnone := ih (Nat.lt_of_succ_lt_succ h)
      rw [Nat.add_assoc, Nat.add_comm 1] at hnone
      exact hnone

theorem mapped_append {addr m : ℕ} (h : (mem.mapped addr m).length = m) (n : ℕ) :
    mem.mapped addr (m + n) = mem.mapped addr m ++ mem.mapped (addr + m) n := by
  induction m generalizing addr with
  | zero => simp [mapped]
  | succ m ih =>
    cases hb : mem.byte addr with
    | none => simp [mapped_none hb] at h
    | some b =>
      rw [mapped_succ hb, List.length_cons, Nat.add_right_cancel_iff] at h
      rw [Nat.add_right_comm, mapped_succ hb, mapped_succ hb, ih h, List.cons_append,
        Nat.add_assoc addr, Nat.add_comm 1]

theorem take_mapped (addr len j : ℕ) :
    (mem.mapped addr len).take j = mem.mapped addr (min j len) := by
  induction len generalizing addr j with
  | zero => simp [mapped]
  | succ len ih =>
    cases j with
    | zero => simp [mapped]
    | succ j =>
      rw [Nat.succ_min_succ]
      cases hb : mem.byte addr with
      | none => simp [mapped_none hb]
      | some b => rw [mapped_succ hb, mapped_succ hb, List.take_succ_cons, ih]

theorem length_mapped_eq_iff {addr len : ℕ} :
    (mem.mapped addr len).length = len ↔ ∀ i < len, mem.byte (addr + i) ≠ none := by
  constructor
  · intro h i hi hnone
    rw [← mem.mapped_getElem? (h.symm ▸ hi), List.getElem?_eq_none_iff] at hnone
    omega
  · intro h
    refine (mem.length_mapped_le addr len).antisymm (not_lt.mp fun hlt => ?_)
    exact h _ hlt (mem.byte_of_length_lt hlt)

/-- No run goes on past the last address. -/
theorem mapped_top {addr len : ℕ} (h : mem.mapped addr len ≠ []) :
    addr + (mem.mapped addr len).length ≤ 2 ^ 64 := by
  have hpos := List.length_pos_iff.mpr h
  by_contra hlt
  have hlt' : (mem.mapped addr len).length - 1 < (mem.mapped addr len).length := by omega
  have hlast := mem.mapped_getElem? hlt'
  rw [mem.top _ (by omega), List.getElem?_eq_none_iff] at hlast
  omega

end Image

namespace Capture

/-- The string goes on past the bytes that are copied of it. -/
def Cut (cap : Capture) (mem : Image) : Prop := 0 ∉ mem.mapped cap.addr.toNat CAP_BYTES

/-- A read at the address is answered from the capture. -/
def Covers (cap : Capture) (addr : UInt64) : Prop :=
  addr ≥ cap.addr ∧ addr < cap.addr + UInt64.ofNat cap.bytes.length

/-- The number of captured bytes from an address on. -/
def left (cap : Capture) (addr : UInt64) : ℕ := cap.bytes.length - (addr - cap.addr).toNat

/-- The capture is one of a string that can be read. -/
def Taken (cap : Capture) (mem : Image) : Prop :=
  cap.addr ≠ 0 ∧ ∃ t, userStr mem cap.addr = some t ∧ cap.bytes = t.take 127 ++ [0]

/-- The captured bytes `s` with their terminator, where the memory has `s` and then `b`. -/
structure Copied (cap : Capture) (mem : Image) (s : List UInt8) (b : UInt8) : Prop where
  bytes : cap.bytes = s ++ [0]
  noZero : 0 ∉ s
  short : s.length < 128
  mapped : mem.mapped cap.addr.toNat (s.length + 1) = s ++ [b]
  cut : cap.Cut mem ↔ b ≠ 0

variable {mem : Image} {cap : Capture} {addr : UInt64}

theorem taken_of_captures {table : List SyscallInfo} {nr : UInt64} {args : Vector UInt64 6}
    (h : Captures table mem nr args cap) : cap.Taken mem := by
  obtain ⟨addr, t, -, hne, hstr, rfl⟩ := h
  exact ⟨hne, t, hstr, rfl⟩

/-- A list with a zero in it, split at the first one. -/
theorem exists_first_zero {bytes : List UInt8} (h : 0 ∈ bytes) :
    ∃ rest, bytes = bytes.takeWhile (· ≠ 0) ++ 0 :: rest ∧ 0 ∉ bytes.takeWhile (· ≠ 0) := by
  induction bytes with
  | nil => cases h
  | cons b bytes ih =>
    by_cases hb : b = 0
    · subst hb
      exact ⟨bytes, rfl, by simp⟩
    · obtain ⟨rest, hrest, hnot⟩ := ih ((List.mem_cons.mp h).resolve_left (Ne.symm hb))
      rw [List.takeWhile_cons_of_pos (by simpa using hb)]
      exact ⟨rest, congrArg (b :: ·) hrest, by simpa [Ne.symm hb] using hnot⟩

/-- The captured bytes are what the memory has, but for the last of a string that is cut off. -/
theorem Taken.copied (h : cap.Taken mem) : ∃ s b, cap.Copied mem s b := by
  obtain ⟨-, t, hstr, hbytes⟩ := h
  have hle := mem.length_mapped_le cap.addr.toNat CAP_BYTES
  have htake (n : ℕ) (hn : n ≤ CAP_BYTES) :=
    (mem.take_mapped cap.addr.toNat CAP_BYTES n).trans (by rw [min_eq_left hn])
  have hcut : cap.Cut mem ↔ 0 ∉ mem.mapped cap.addr.toNat CAP_BYTES := Iff.rfl
  unfold userStr at hstr
  generalize mem.mapped cap.addr.toNat CAP_BYTES = bytes at hstr hle htake hcut
  by_cases hzero : 0 ∈ bytes
  · obtain ⟨rest, hrest, hnot⟩ := exists_first_zero hzero
    rw [if_pos hzero, Option.some_inj] at hstr
    rw [hstr] at hrest hnot
    have hlen := congrArg List.length hrest
    rw [List.length_append, List.length_cons] at hlen
    rw [CAP_BYTES] at hle htake
    refine ⟨t, 0, ?_, hnot, by omega, ?_, by simp [hcut, hzero]⟩
    · rw [hbytes, List.take_of_length_le (by omega)]
    · rw [← htake _ (by omega), hrest]
      simp [List.take_append]
  · rw [if_neg hzero, Option.ite_none_right_eq_some, Option.some_inj] at hstr
    obtain ⟨hlen, rfl⟩ := hstr
    rw [CAP_BYTES] at hlen htake
    obtain ⟨b, hb⟩ : ∃ b, bytes[127]? = some b := ⟨_, List.getElem?_eq_getElem (by omega)⟩
    have hsplit : bytes.take 128 = bytes.take 127 ++ [b] := by
      rw [List.take_add_one, hb, Option.toList_some]
    have hmem : b ∈ bytes := List.mem_of_getElem? hb
    have hshort : (bytes.take 127).length = 127 := by rw [List.length_take, hlen]; rfl
    refine ⟨bytes.take 127, b, hbytes, fun h => hzero (List.mem_of_mem_take h), by omega, ?_,
      iff_of_true (hcut.mpr hzero) fun h => hzero (h ▸ hmem)⟩
    rw [hshort, ← htake _ le_rfl, hsplit]

/-- Where a covered address lies in the captured bytes. -/
theorem Copied.offset {s : List UInt8} {b : UInt8} (hc : cap.Copied mem s b)
    (h : cap.Covers addr) : (addr - cap.addr).toNat ≤ s.length ∧
      addr.toNat = cap.addr.toNat + (addr - cap.addr).toNat := by
  obtain ⟨hge, hlt⟩ := h
  have htop : cap.addr.toNat + (s.length + 1) ≤ 2 ^ 64 := by
    have hne : mem.mapped cap.addr.toNat (s.length + 1) ≠ [] := by simp [hc.mapped]
    have hrun := mem.mapped_top hne
    rw [hc.mapped] at hrun
    simpa using hrun
  rw [UInt64.toNat_sub_of_le _ _ hge]
  rw [ge_iff_le, UInt64.le_iff_toNat_le] at hge
  rw [UInt64.lt_iff_toNat_lt, UInt64.toNat_add, UInt64.toNat_ofNat', hc.bytes, List.length_append,
    List.length_singleton] at hlt
  have haddr := addr.toNat_lt
  omega

/-- The bytes from a covered address on, as captured and as the memory has them. -/
theorem Copied.rest {s : List UInt8} {b : UInt8} (hc : cap.Copied mem s b)
    (h : cap.Covers addr) : ∃ p, cap.bytes.drop (addr - cap.addr).toNat = p ++ [0] ∧ 0 ∉ p ∧
      p.length + 1 = cap.left addr ∧ cap.left addr ≤ 128 ∧
      mem.mapped addr.toNat (p.length + 1) = p ++ [b] := by
  obtain ⟨hk, haddr⟩ := hc.offset h
  rw [left, haddr, hc.bytes]
  generalize (addr - cap.addr).toNat = k at hk
  have hlen : (s.drop k).length = s.length - k := List.length_drop
  have hfull : (mem.mapped cap.addr.toNat k).length = k := by
    have htake := mem.take_mapped cap.addr.toNat (s.length + 1) k
    rw [min_eq_left (by omega), hc.mapped] at htake
    rw [← htake, List.length_take, List.length_append]
    simp
    omega
  have hdrop := mem.mapped_append hfull (s.length + 1 - k)
  rw [Nat.add_sub_cancel' (by omega), hc.mapped] at hdrop
  have hshort := hc.short
  refine ⟨s.drop k, List.drop_append_of_le_length hk, fun hz => hc.noZero (List.mem_of_mem_drop hz),
    ?_, ?_, ?_⟩
  · simp
    omega
  · simp
    omega
  · have hmapped := congrArg (List.drop k) hdrop
    rw [List.drop_append_of_le_length hk, List.drop_append_of_le_length hfull.ge,
      List.drop_of_length_le hfull.le, List.nil_append] at hmapped
    rw [hlen, hmapped]
    exact congrArg _ (by omega)

end Capture

end Syren
