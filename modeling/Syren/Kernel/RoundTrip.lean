import Mathlib.Data.List.GetD
import Syren.Kernel.Programs
import Syren.Layout.LittleEndian
import Syren.Trace.Memory

/-! A record on its way from the in-kernel program to the event that userspace makes of it: the
layout of its bytes, the table of path arguments and the capture. -/
namespace Syren
open Layout

namespace Record

/-- The fields before the capture, with their widths in bytes. -/
def fields (r : Record) : List (ℕ × ℕ) :=
  [(4, r.pid.toNat), (4, r.tid.toNat), (8, r.nr.toNat), (8, r.args[0]!.toNat),
    (8, r.args[1]!.toNat), (8, r.args[2]!.toNat), (8, r.args[3]!.toNat), (8, r.args[4]!.toNat),
    (8, r.args[5]!.toNat), (8, r.retval.toUInt64.toNat), (8, r.tsEnterNs.toNat),
    (8, r.durationNs.toNat), (8, r.capAddr.toNat), (4, r.capLen.toNat), (4, r.pad.toNat)]

def widths : List ℕ := [4, 4, 8, 8, 8, 8, 8, 8, 8, 8, 8, 8, 8, 4, 4]

/-- The record as it lies in the ring: `repr(C)` on a little-endian machine. -/
def toBytes (r : Record) : List UInt8 := encode r.fields ++ r.cap.toList

theorem map_fst_fields (r : Record) : r.fields.map Prod.fst = widths := rfl

theorem length_encode_fields (r : Record) : (encode r.fields).length = 104 := by
  rw [length_encode, map_fst_fields]
  decide

theorem length_toBytes (r : Record) : r.toBytes.length = SIZE := by
  rw [toBytes, List.length_append, length_encode_fields, Vector.length_toList, CAP_BYTES, SIZE]

/-- A field read back from the bytes of its record. -/
theorem word_toBytes (r : Record) (rest : List UInt8) {i off width n : ℕ}
    (hfield : r.fields[i]? = some (width, n)) (hoff : (widths.take i).sum = off) :
    word (r.toBytes ++ rest) off width = n % 256 ^ width := by
  obtain ⟨hi, hget⟩ := List.getElem?_eq_some_iff.mp hfield
  have hword := leValue_encode r.fields (r.cap.toList ++ rest) i hi
  rw [hget, offset, List.map_take, map_fst_fields, hoff, ← List.append_assoc] at hword
  exact hword

theorem uint32_toBytes (r : Record) (rest : List UInt8) (i off : ℕ) (n : UInt32)
    (hfield : r.fields[i]? = some (4, n.toNat)) (hoff : (widths.take i).sum = off) :
    UInt32.ofNat (word (r.toBytes ++ rest) off 4) = n := by
  rw [word_toBytes r rest hfield hoff]
  apply UInt32.toNat_inj.mp
  have hn := n.toNat_lt
  simp only [UInt32.toNat_ofNat']
  omega

theorem uint64_toBytes (r : Record) (rest : List UInt8) (i off : ℕ) (n : UInt64)
    (hfield : r.fields[i]? = some (8, n.toNat)) (hoff : (widths.take i).sum = off) :
    UInt64.ofNat (word (r.toBytes ++ rest) off 8) = n := by
  rw [word_toBytes r rest hfield hoff]
  apply UInt64.toNat_inj.mp
  have hn := n.toNat_lt
  simp only [UInt64.toNat_ofNat']
  omega

theorem args_toBytes (r : Record) (rest : List UInt8) :
    (Vector.ofFn fun i : Fin 6 => UInt64.ofNat (word (r.toBytes ++ rest) (16 + 8 * i) 8)) =
      r.args := by
  apply Vector.ext
  intro i hi
  rw [Vector.getElem_ofFn]
  have hcases : i = 0 ∨ i = 1 ∨ i = 2 ∨ i = 3 ∨ i = 4 ∨ i = 5 := by omega
  rcases hcases with rfl | rfl | rfl | rfl | rfl | rfl
  · exact uint64_toBytes r rest 3 16 _ rfl rfl
  · exact uint64_toBytes r rest 4 24 _ rfl rfl
  · exact uint64_toBytes r rest 5 32 _ rfl rfl
  · exact uint64_toBytes r rest 6 40 _ rfl rfl
  · exact uint64_toBytes r rest 7 48 _ rfl rfl
  · exact uint64_toBytes r rest 8 56 _ rfl rfl

theorem byte_toBytes (r : Record) (rest : List UInt8) (i : ℕ) (hi : i < CAP_BYTES) :
    (r.toBytes ++ rest).getD (104 + i) 0 = r.cap[i] := by
  have hbefore : (encode r.fields).length ≤ 104 + i := by
    rw [length_encode_fields]
    omega
  have hcap : i < r.cap.toList.length := by rwa [Vector.length_toList]
  rw [toBytes, List.append_assoc, List.getD_append_right _ _ _ _ hbefore, length_encode_fields,
    Nat.add_sub_cancel_left, List.getD_append _ _ _ _ hcap, List.getD_eq_getElem _ _ hcap,
    Vector.getElem_toList]

theorem cap_toBytes (r : Record) (rest : List UInt8) :
    (Vector.ofFn fun i : Fin CAP_BYTES => (r.toBytes ++ rest).getD (104 + i) 0) = r.cap := by
  apply Vector.ext
  intro i hi
  rw [Vector.getElem_ofFn, byte_toBytes r rest i hi]

/-- What userspace reads from the bytes of a record is the record, whatever follows them. -/
theorem fromBytes_toBytes (r : Record) (rest : List UInt8) :
    fromBytes (r.toBytes ++ rest) = some r := by
  have hlen : ¬ (r.toBytes ++ rest).length < SIZE := by
    rw [List.length_append, length_toBytes]
    omega
  rw [fromBytes, if_neg hlen]
  refine congrArg some (Record.ext ?_ ?_ ?_ (args_toBytes r rest) ?_ ?_ ?_ ?_ ?_ ?_
    (cap_toBytes r rest))
  · exact uint32_toBytes r rest 0 0 r.pid rfl rfl
  · exact uint32_toBytes r rest 1 4 r.tid rfl rfl
  · exact uint64_toBytes r rest 2 8 r.nr rfl rfl
  · change (UInt64.ofNat _).toInt64 = _
    rw [uint64_toBytes r rest 9 64 r.retval.toUInt64 rfl rfl, Int64.toInt64_toUInt64]
  · exact uint64_toBytes r rest 10 72 r.tsEnterNs rfl rfl
  · exact uint64_toBytes r rest 11 80 r.durationNs rfl rfl
  · exact uint64_toBytes r rest 12 88 r.capAddr rfl rfl
  · exact uint32_toBytes r rest 13 96 r.capLen rfl rfl
  · exact uint32_toBytes r rest 14 100 r.pad rfl rfl

end Record

namespace Kernel
open Interaction Interaction.Attempt

/-- The string that the kernel copies from an address: up to its terminator, or as much as the
buffer has room for. -/
def userStr (mem : Image) (addr : UInt64) : Option (List UInt8) :=
  let bytes := mem.mapped addr.toNat CAP_BYTES
  if 0 ∈ bytes then some (bytes.takeWhile (· ≠ 0))
  else if bytes.length = CAP_BYTES then some bytes
  else none

/-- The copying of strings as `bpf_probe_read_user_str_bytes` is documented: it fails where the
string cannot be read, and otherwise the buffer holds the string with its terminator, cut off so
that both fit, and the length answered leaves the terminator out. -/
structure CopiesStrings (mem : Image) (ctx : ExitCtx) : Prop where
  fails : ∀ addr cap, userStr mem addr = none → ∃ e, (ctx.readUserStr addr cap).1 = .error e
  copies : ∀ addr cap t, userStr mem addr = some t →
    (ctx.readUserStr addr cap).1 = .ok (t.take 127).length ∧
      t.take 127 ++ [0] <+: (ctx.readUserStr addr cap).2.toList

/-- The copying as `CopiesStrings` describes it. -/
def copyStr (mem : Image) (addr : UInt64) (cap : Vector UInt8 CAP_BYTES) :
    Except Int64 ℕ × Vector UInt8 CAP_BYTES :=
  match userStr mem addr with
  | none => (.error (-14), cap)
  | some t => (.ok (t.take 127).length,
      Vector.ofFn fun i => (t.take 127 ++ [0]).getD i (cap.get i))

/-- The array `PATHARG` as userspace sets it: an index beyond its end is refused. -/
def pathargKernel : Kernel (Vector UInt8 512)
  | patharg, .pathargSet nr slot, .ok (), patharg' =>
      nr < MAX_SYSCALLS ∧ patharg' = patharg.setIfInBounds nr.toNat slot
  | patharg, _, _, patharg' => patharg' = patharg

/-- The table was entered into an array that held only zeros. -/
def Entered (table : List SyscallInfo) (patharg : Vector UInt8 512) : Prop :=
  Ends pathargKernel (EbpfTracer.populatePatharg table) (Vector.replicate 512 0) (.ok ()) patharg

/-- The table says that the call has a path to capture, and `addr` is what was passed for it. -/
def HasPath (table : List SyscallInfo) (nr : UInt64) (args : Vector UInt64 6) (addr : UInt64) :
    Prop :=
  nr < 512 ∧ ∃ row ∈ table, row.number.toNat = nr.toNat ∧ row.name ≠ "execve" ∧
    row.name ≠ "execveat" ∧ ∃ i : ℕ, row.args.findIdx? (·.ty = .Path) = some i ∧
    args[i]? = some addr

/-- The capture that is to be taken of a call. -/
def Captures (table : List SyscallInfo) (mem : Image) (nr : UInt64) (args : Vector UInt64 6)
    (cap : Capture) : Prop :=
  ∃ addr t, HasPath table nr args addr ∧ addr ≠ 0 ∧ userStr mem addr = some t ∧
    cap = ⟨addr, t.take 127 ++ [0]⟩

theorem pathArgSlot_eq_some {row : SyscallInfo} {slot : UInt8} :
    EbpfTracer.pathArgSlot row = some slot ↔
      row.name ≠ "execve" ∧ row.name ≠ "execveat" ∧ row.number < MAX_SYSCALLS ∧
      ∃ i, row.args.findIdx? (·.ty = .Path) = some i ∧ i < 6 ∧ slot = UInt8.ofNat (i + 1) := by
  unfold EbpfTracer.pathArgSlot
  split_ifs with hexec
  · simp only [false_iff]
    rintro ⟨h, h', -⟩
    exact hexec.elim h h'
  · obtain ⟨hne, hne'⟩ := not_or.mp hexec
    cases hidx : row.args.findIdx? (·.ty = .Path) with
    | none => simp
    | some i =>
      simp only [Option.bind_eq_bind, Option.bind_some, Option.some_inj]
      split_ifs with hbound
      · simp [hne, hne', hbound, eq_comm]
      · simp only [false_iff]
        rintro ⟨-, -, hnr, j, rfl, hj, -⟩
        exact hbound ⟨hnr, hj⟩

variable {table rows : List SyscallInfo} {patharg patharg' : Vector UInt8 512}

theorem ends_setPathargs_cons {row : SyscallInfo}
    (h : Ends pathargKernel (EbpfTracer.setPathargs (row :: rows)) patharg (.ok ()) patharg') :
    ∃ patharg₁, Ends pathargKernel (EbpfTracer.setPathargs rows) patharg₁ (.ok ()) patharg' ∧
      (EbpfTracer.pathArgSlot row = none ∧ patharg₁ = patharg ∨
        ∃ slot, EbpfTracer.pathArgSlot row = some slot ∧
          patharg₁ = patharg.setIfInBounds row.number.toNat slot) := by
  rw [EbpfTracer.setPathargs] at h
  split at h
  · next slot hslot =>
    obtain ⟨a, patharg₁, ha, h⟩ := ends_ask_bind.mp h
    cases a with
    | error e => cases (ends_throw_bind.mp h).1
    | ok => exact ⟨patharg₁, h, .inr ⟨slot, hslot, ha.2⟩⟩
  · next hslot => exact ⟨_, h, .inl ⟨hslot, rfl⟩⟩

/-- An entry that no row sets stays as it is. -/
theorem setPathargs_other {n : ℕ}
    (h : Ends pathargKernel (EbpfTracer.setPathargs rows) patharg (.ok ()) patharg')
    (hn : ∀ row ∈ rows, row.number.toNat = n → EbpfTracer.pathArgSlot row = none) :
    patharg'[n]? = patharg[n]? := by
  induction rows generalizing patharg with
  | nil =>
    obtain ⟨-, rfl⟩ := ends_pure.mp h
    rfl
  | cons row rows ih =>
    obtain ⟨patharg₁, h, hrow⟩ := ends_setPathargs_cons h
    rw [ih h fun r hr => hn r (List.mem_cons_of_mem _ hr)]
    obtain ⟨-, rfl⟩ | ⟨slot, hslot, rfl⟩ := hrow
    · rfl
    · have hne : row.number.toNat ≠ n := fun hnr => by
        rw [hn row List.mem_cons_self hnr] at hslot
        cases hslot
      rw [Vector.getElem?_setIfInBounds_ne hne]

/-- Where numbers are not repeated, every row with a slot has its slot in the array. -/
theorem setPathargs_row {row : SyscallInfo} {slot : UInt8}
    (h : Ends pathargKernel (EbpfTracer.setPathargs rows) patharg (.ok ()) patharg')
    (hd : (rows.map (·.number)).Nodup) (hrow : row ∈ rows)
    (hslot : EbpfTracer.pathArgSlot row = some slot) :
    patharg'[row.number.toNat]? = some slot := by
  induction rows generalizing patharg with
  | nil => cases hrow
  | cons head rows ih =>
    obtain ⟨patharg₁, htail, hhead⟩ := ends_setPathargs_cons h
    obtain ⟨hnew, hd⟩ := List.nodup_cons.mp hd
    rcases List.mem_cons.mp hrow with rfl | hrow
    · have hother := setPathargs_other htail fun r hr (hnr : r.number.toNat = row.number.toNat) =>
        absurd (List.mem_map.mpr ⟨r, hr, UInt32.toNat_inj.mp hnr⟩) hnew
      obtain ⟨hnone, -⟩ | ⟨slot', hslot', rfl⟩ := hhead
      · cases hnone.symm.trans hslot
      · cases hslot'.symm.trans hslot
        have hbound : row.number.toNat < 512 :=
          UInt32.lt_iff_toNat_lt.mp (pathArgSlot_eq_some.mp hslot).2.2.1
        rw [hother, Vector.getElem?_setIfInBounds_self_of_lt hbound]
    · exact ih htail hd hrow

theorem Entered.setPathargs (h : Entered table patharg) :
    Ends pathargKernel (EbpfTracer.setPathargs table) (Vector.replicate 512 0) (.ok ())
      patharg := by
  obtain ⟨present, patharg₁, hsame, h₁⟩ := ends_ask_bind.mp h
  cases present with
  | false => cases (ends_throw_bind.mp h₁).1
  | true =>
    obtain ⟨a, patharg₂, hsame', h₂⟩ := ends_ask_bind.mp h₁
    cases a with
    | error e => cases (ends_throw_bind.mp h₂).1
    | ok =>
      cases hsame.symm
      cases hsame'.symm
      exact h₂

/-- What the array says of a number: the slot of its row, or nothing. -/
theorem Entered.slot (h : Entered table patharg) (hd : (table.map (·.number)).Nodup) {n : ℕ}
    (hn : n < 512) :
    (∃ row ∈ table, row.number.toNat = n ∧ ∃ slot, EbpfTracer.pathArgSlot row = some slot ∧
      patharg[n]? = some slot) ∨
    patharg[n]? = some 0 ∧
      ∀ row ∈ table, row.number.toNat = n → EbpfTracer.pathArgSlot row = none := by
  by_cases hrow : ∃ row ∈ table, row.number.toNat = n ∧ EbpfTracer.pathArgSlot row ≠ none
  · obtain ⟨row, hmem, rfl, hne⟩ := hrow
    obtain ⟨slot, hslot⟩ := Option.ne_none_iff_exists'.mp hne
    exact .inl ⟨row, hmem, rfl, slot, hslot, setPathargs_row h.setPathargs hd hmem hslot⟩
  · push Not at hrow
    refine .inr ⟨?_, hrow⟩
    rw [setPathargs_other h.setPathargs hrow, Vector.getElem?_replicate, if_pos hn]

theorem toNat_signExtended (nr : Int32) : nr.toInt64.toUInt64.toNat =
    nr.toUInt32.toNat + if 2 ^ 31 ≤ nr.toUInt32.toNat then 2 ^ 64 - 2 ^ 32 else 0 := by
  change (nr.toBitVec.signExtend 64).toNat = nr.toBitVec.toNat + _
  have hlt : nr.toBitVec.toNat < 2 ^ 64 := by
    have hlt := nr.toBitVec.isLt
    omega
  rw [BitVec.toNat_signExtend, BitVec.msb_eq_decide, BitVec.toNat_setWidth,
    Nat.mod_eq_of_lt hlt]
  simp only [decide_eq_true_eq]
  rfl

/-- The truncating cast of a number in `capture_path` loses nothing of a small one. -/
theorem toUInt32_signExtended {nr : Int32} {n : UInt64} (h : n = nr.toInt64.toUInt64) :
    n.toUInt32.toNat < 512 ↔ n.toNat < 512 := by
  have hn := toNat_signExtended nr
  have hlt := nr.toUInt32.toNat_lt
  rw [← h] at hn
  rw [UInt64.toNat_toUInt32]
  split_ifs at hn <;> omega

variable {ctx : ExitCtx} {m : Maps} {mem : Image} {enter : Enter} {nr : Int32}

/-- The capture of a record, as `drain_ring` makes it. -/
def captureOf (r : Record) : Option Capture :=
  if r.capLen > 0 then some ⟨r.capAddr, r.captured⟩ else none

theorem captureOf_none {r : Record} (h : r.capLen = 0) : captureOf r = none := by
  rw [captureOf, h]
  rfl

theorem captureOf_some {r : Record} {cap : Vector UInt8 CAP_BYTES} {addr : UInt64}
    {bytes : List UInt8} (hlen : bytes.length < CAP_BYTES) (hcap : bytes ++ [0] <+: cap.toList) :
    captureOf { r with cap, capAddr := addr, capLen := UInt32.ofNat (bytes.length + 1) } =
      some ⟨addr, bytes ++ [0]⟩ := by
  have hnat : (UInt32.ofNat (bytes.length + 1)).toNat = bytes.length + 1 := by
    rw [UInt32.toNat_ofNat']
    exact Nat.mod_eq_of_lt (by rw [CAP_BYTES] at hlen; omega)
  have hpos : UInt32.ofNat (bytes.length + 1) > 0 := by
    apply UInt32.lt_iff_toNat_lt.mpr
    rw [hnat]
    exact Nat.succ_pos _
  rw [captureOf, if_pos hpos, Record.captured]
  dsimp only
  rw [hnat, Nat.min_eq_left hlen]
  congr 2
  rw [List.prefix_iff_eq_take.mp hcap, List.length_append]
  rfl

/-- The array says which argument is the path of a call. -/
theorem hasPath_iff (hset : Entered table patharg) (hd : (table.map (·.number)).Nodup)
    {n : UInt64} (hn : n.toNat < 512) {args : Vector UInt64 6} {addr : UInt64} :
    HasPath table n args addr ↔
      ∃ i < 6, patharg[n.toNat]? = some (UInt8.ofNat (i + 1)) ∧ args[i]? = some addr := by
  constructor
  · rintro ⟨-, row, hrow, hnum, hexec, hexecat, i, hi, haddr⟩
    have hsix : i < 6 := (Vector.getElem?_eq_some_iff.mp haddr).1
    have hbound : row.number < MAX_SYSCALLS := UInt32.lt_iff_toNat_lt.mpr (hnum ▸ hn)
    have hslot := pathArgSlot_eq_some.mpr ⟨hexec, hexecat, hbound, i, hi, hsix, rfl⟩
    exact ⟨i, hsix, hnum ▸ setPathargs_row hset.setPathargs hd hrow hslot, haddr⟩
  · rintro ⟨i, hi, hidx, haddr⟩
    have hsmall : n < 512 := UInt64.lt_iff_toNat_lt.mpr hn
    obtain ⟨row, hrow, hnum, slot, hslot, hat⟩ | ⟨hzero, -⟩ := hset.slot hd hn
    · obtain ⟨hexec, hexecat, -, j, hj, hjlt, rfl⟩ := pathArgSlot_eq_some.mp hslot
      have heq : i = j := by
        have hval := congrArg UInt8.toNat (Option.some_inj.mp (hidx.symm.trans hat))
        simp only [UInt8.toNat_ofNat'] at hval
        omega
      exact ⟨hsmall, row, hrow, hnum, hexec, hexecat, j, hj, heq ▸ haddr⟩
    · have hval := congrArg UInt8.toNat (Option.some_inj.mp (hidx.symm.trans hzero))
      simp only [UInt8.toNat_ofNat', UInt8.toNat_zero] at hval
      omega

theorem capturePath_none {r : Record}
    (h : enter.nr.toUInt32.toNat < 512 → ∀ i < 6,
      m.patharg[enter.nr.toUInt32.toNat]? ≠ some (UInt8.ofNat (i + 1))) :
    capturePath ctx m r enter = r := by
  unfold capturePath
  dsimp only
  split_ifs with hlarge
  · rfl
  · have hsmall : enter.nr.toUInt32.toNat < 512 :=
      UInt32.lt_iff_toNat_lt.mp (UInt32.not_le.mp hlarge)
    split
    · next idx1 hidx =>
      rw [if_neg]
      rintro ⟨hne, hle⟩
      refine h hsmall (idx1.toNat - 1) (by omega) (hidx.trans (congrArg some ?_))
      have hpos : 0 < idx1.toNat := by
        refine Nat.pos_of_ne_zero fun h0 => hne ?_
        exact UInt8.toNat_inj.mp h0
      rw [Nat.sub_add_cancel hpos, UInt8.ofNat_toNat]
    · rfl

theorem captureOf_path {r : Record} (hr : r.capLen = 0) {i : ℕ} {addr : UInt64}
    (hcopy : CopiesStrings mem ctx) (hn : enter.nr.toUInt32.toNat < 512) (hi : i < 6)
    (hidx : m.patharg[enter.nr.toUInt32.toNat]? = some (UInt8.ofNat (i + 1)))
    (haddr : enter.args[i]? = some addr) : captureOf (capturePath ctx m r enter) =
      if addr = 0 then none
      else (userStr mem addr).map fun t => ⟨addr, t.take 127 ++ [0]⟩ := by
  have hsmall : ¬ enter.nr.toUInt32 ≥ MAX_SYSCALLS :=
    UInt32.not_le.mpr (UInt32.lt_iff_toNat_lt.mpr hn)
  have hval : (UInt8.ofNat (i + 1)).toNat = i + 1 := by
    rw [UInt8.toNat_ofNat']
    omega
  have hslot : UInt8.ofNat (i + 1) ≠ 0 ∧ (UInt8.ofNat (i + 1)).toNat ≤ 6 := by
    refine ⟨fun h => ?_, by omega⟩
    rw [h] at hval
    cases hval
  have harg : enter.args.toArray.getD ((UInt8.ofNat (i + 1)).toNat - 1) 0 = addr := by
    obtain ⟨hlt, rfl⟩ := Vector.getElem?_eq_some_iff.mp haddr
    rw [hval, Nat.add_sub_cancel]
    exact (Array.getElem_eq_getD 0).symm
  unfold capturePath pathArg
  dsimp only
  rw [if_neg hsmall, hidx]
  dsimp only
  rw [if_pos hslot, harg]
  by_cases h0 : addr = 0
  · rw [if_pos h0, if_pos h0]
    exact captureOf_none hr
  · rw [if_neg h0, if_neg h0]
    cases hstr : userStr mem addr with
    | none =>
      obtain ⟨e, he⟩ := hcopy.fails addr r.cap hstr
      split
      · next n cap hread => cases he.symm.trans (congrArg Prod.fst hread)
      · next e cap hread => exact captureOf_none hr
    | some t =>
      obtain ⟨hok, hprefix⟩ := hcopy.copies addr r.cap t hstr
      have hlen : (t.take 127).length < CAP_BYTES := by
        rw [List.length_take, CAP_BYTES]
        omega
      split
      · next n cap hread =>
        rw [hread] at hok hprefix
        cases hok
        rw [if_pos hlen]
        exact captureOf_some hlen hprefix
      · next e cap hread => cases hok.symm.trans (congrArg Prod.fst hread)

/-- The record gets a capture exactly where its call has a path that can be read. -/
theorem captureOf_capturePath (hset : Entered table m.patharg)
    (hd : (table.map (·.number)).Nodup) (hcopy : CopiesStrings mem ctx)
    (hnr : enter.nr = nr.toInt64.toUInt64) {r : Record} (hr : r.capLen = 0) (cap : Capture) :
    captureOf (capturePath ctx m r enter) = some cap ↔
      Captures table mem enter.nr enter.args cap := by
  by_cases hpath : ∃ addr, HasPath table enter.nr enter.args addr
  · obtain ⟨addr, hpath⟩ := hpath
    have hn : enter.nr.toNat < 512 := UInt64.lt_iff_toNat_lt.mp hpath.1
    have hn32 : enter.nr.toUInt32.toNat = enter.nr.toNat := by
      rw [UInt64.toNat_toUInt32]
      omega
    obtain ⟨i, hi, hidx, haddr⟩ := (hasPath_iff hset hd hn).mp hpath
    rw [captureOf_path hr hcopy (hn32 ▸ hn) hi (hn32 ▸ hidx) haddr]
    have hsame (addr' : UInt64) (h : HasPath table enter.nr enter.args addr') : addr' = addr := by
      obtain ⟨j, hj, hjdx, haddr'⟩ := (hasPath_iff hset hd hn).mp h
      have heq : i = j := by
        have hval := congrArg UInt8.toNat (Option.some_inj.mp (hidx.symm.trans hjdx))
        simp only [UInt8.toNat_ofNat'] at hval
        omega
      subst heq
      exact Option.some_inj.mp (haddr'.symm.trans haddr)
    constructor
    · intro h
      split_ifs at h with h0
      obtain ⟨t, ht, rfl⟩ := Option.map_eq_some_iff.mp h
      exact ⟨addr, t, hpath, h0, ht, rfl⟩
    · rintro ⟨addr', t, hpath', h0, ht, rfl⟩
      obtain rfl := hsame addr' hpath'
      rw [if_neg h0, ht, Option.map_some]
  · rw [capturePath_none, captureOf_none hr]
    · refine ⟨nofun, ?_⟩
      rintro ⟨addr, t, h, -⟩
      exact absurd ⟨addr, h⟩ hpath
    · intro hn i hi hidx
      have hn' := (toUInt32_signExtended hnr).mp hn
      have hn32 : enter.nr.toUInt32.toNat = enter.nr.toNat := by
        rw [UInt64.toNat_toUInt32]
        omega
      have haddr : enter.args[i]? = some enter.args[i] := Vector.getElem?_eq_getElem hi
      exact hpath ⟨_, (hasPath_iff hset hd hn').mpr ⟨i, hi, hn32 ▸ hidx, haddr⟩⟩

/-- What the event of a call is to carry. -/
structure Tells (ev : SyscallEvent) (tgid tid : UInt32) (enter : Enter) (ret : Int64)
    (now baseline : UInt64) : Prop where
  pid : ev.pid = tgid
  tid : ev.tid = tid
  nr : ev.nr = enter.nr
  args : ev.args = enter.args
  retval : ev.retval = ret
  tsEnterNs : ev.tsEnterNs.toNat = enter.ts.toNat - baseline.toNat
  durationNs : ev.durationNs.toNat = now.toNat - enter.ts.toNat

theorem retval_recordOf {ctx : ExitCtx} {ret : Int64} (m : Maps) (enter : Enter)
    (h : ctx.ret = .ok ret) : (recordOf ctx m enter).retval = ret := by
  obtain ⟨cap, addr, len, hrec⟩ := capturePath_eq ctx m _ enter
  rw [recordOf, hrec]
  simp only [h]

theorem toNat_satSub (a b : UInt64) : (if a ≤ b then b - a else 0).toNat = b.toNat - a.toNat := by
  split_ifs with h
  · exact UInt64.toNat_sub_of_le _ _ h
  · have hlt := UInt64.lt_iff_toNat_lt.mp (UInt64.not_le.mp h)
    rw [UInt64.toNat_zero, Nat.sub_eq_zero_of_le hlt.le]

/-- A record that `sys_exit` submits comes out of the ring as the event of its call, whatever
follows it there, with a capture of the call's path where it has one that can be read. -/
theorem record_round_trip (hset : Entered table m.patharg) (hd : (table.map (·.number)).Nodup)
    (hcopy : CopiesStrings mem ctx) {tgid tid : UInt32} {ret : Int64}
    (htask : ctx.pidTgid.toNat = tgid.toNat * 2 ^ 32 + tid.toNat)
    (henter : m.enters.get tid = some enter) (hnr : enter.nr = nr.toInt64.toUInt64)
    (hret : ctx.ret = .ok ret) (hroom : ctx.reserved = true) (baseline : UInt64)
    (padding : List UInt8) :
    ∃ r ev cap, (sysExit ctx m).events = m.events ++ [r] ∧ r.toBytes.length = 232 ∧
      EbpfTracer.queued baseline (r.toBytes ++ padding) = some (.syscall ev, cap) ∧
      Tells ev tgid tid enter ret ctx.now baseline ∧
      ∀ c, cap = some c ↔ Captures table mem enter.nr enter.args c := by
  have htid : ctx.pidTgid.toUInt32 = tid := by
    apply UInt32.toNat_inj.mp
    have hlt := tid.toNat_lt
    rw [UInt64.toNat_toUInt32]
    omega
  have htgid : (ctx.pidTgid >>> 32).toUInt32 = tgid := by
    apply UInt32.toNat_inj.mp
    have hlt := tid.toNat_lt
    have hlt' := tgid.toNat_lt
    rw [UInt64.toNat_toUInt32, UInt64.toNat_shiftRight]
    have hshift : (32 : UInt64).toNat % 64 = 32 := rfl
    rw [hshift, Nat.shiftRight_eq_div_pow]
    omega
  have hevents : (sysExit ctx m).events = m.events ++ [recordOf ctx m enter] := by
    rw [sysExit_some (htid ▸ henter), hroom]
    rfl
  refine ⟨recordOf ctx m enter, EbpfTracer.recordToEvent (recordOf ctx m enter) baseline,
    captureOf (recordOf ctx m enter), hevents, Record.length_toBytes _, ?_, ?_, ?_⟩
  · rw [EbpfTracer.queued, Record.fromBytes_toBytes]
    rfl
  · have hretval := retval_recordOf m enter hret
    obtain ⟨cap, addr, len, hrec⟩ := capturePath_eq ctx m _ enter
    rw [recordOf, hrec] at hretval ⊢
    exact ⟨htgid, htid, rfl, rfl, hretval, toNat_satSub baseline enter.ts,
      toNat_satSub enter.ts ctx.now⟩
  · intro c
    exact captureOf_capturePath hset hd hcopy hnr rfl c

theorem copiesStrings_copyStr {mem : Image} {ctx : ExitCtx}
    (h : ctx.readUserStr = copyStr mem) : CopiesStrings mem ctx := by
  refine ⟨fun addr cap hstr => ⟨-14, ?_⟩, fun addr cap t hstr => ?_⟩
  · rw [h, copyStr, hstr]
  · rw [h, copyStr, hstr]
    refine ⟨rfl, List.prefix_iff_getElem?.mpr fun i hi => ?_⟩
    have hcap : i < CAP_BYTES := by
      rw [List.length_append, List.length_take, List.length_singleton] at hi
      rw [CAP_BYTES]
      omega
    rw [Vector.getElem?_toList, Vector.getElem?_eq_getElem hcap, Vector.getElem_ofFn,
      List.getD_eq_getElem _ _ hi]

/-- `"hi"` at the address 4096, and nothing else. -/
def hiImage : Image where
  byte addr := if addr = 4096 then some 104 else if addr = 4097 then some 105
    else if addr = 4098 then some 0 else none
  top addr h := by
    have hne : addr ≠ 4096 ∧ addr ≠ 4097 ∧ addr ≠ 4098 := by omega
    rw [if_neg hne.1, if_neg hne.2.1, if_neg hne.2.2]

def openRow : SyscallInfo where
  number := 2
  name := "open"
  category := .Fs
  args := [⟨"filename", .Path⟩, ⟨"flags", .Flags⟩, ⟨"mode", .Int⟩]

def openEnter : Enter := ⟨2, #v[4096, 0, 0, 0, 0, 0], 500⟩

def openMaps : Maps :=
  ⟨BoundedMap.empty.insert 7 openEnter, BoundedMap.empty,
    (Vector.replicate 512 0).setIfInBounds 2 1, []⟩

def openExit : ExitCtx :=
  ⟨0x900000007, .ok 3, 800, true, Vector.replicate CAP_BYTES 0, copyStr hiImage⟩

theorem entered_openRow : Entered [openRow] openMaps.patharg := by
  have hslot : EbpfTracer.pathArgSlot openRow = some 1 := by decide
  refine ⟨true, _, rfl, .ok (), _, rfl, ?_⟩
  change Ends _ (EbpfTracer.setPathargs [openRow]) _ _ _
  rw [EbpfTracer.setPathargs, hslot]
  exact ⟨.ok (), _, ⟨by decide, rfl⟩, rfl, rfl⟩

theorem record_round_trip_open :
    ∃ r ev cap, (sysExit openExit openMaps).events = openMaps.events ++ [r] ∧
      r.toBytes.length = 232 ∧
      EbpfTracer.queued 100 (r.toBytes ++ [0, 0]) = some (.syscall ev, cap) ∧
      Tells ev 9 7 openEnter 3 openExit.now 100 ∧
      ∀ c, cap = some c ↔ Captures [openRow] hiImage openEnter.nr openEnter.args c :=
  have hnr : openEnter.nr = (2 : Int32).toInt64.toUInt64 := by decide
  record_round_trip entered_openRow (by decide) (copiesStrings_copyStr rfl) (by decide)
    (BoundedMap.get_insert_self (by simp [BoundedMap.Full, BoundedMap.keys, BoundedMap.empty]))
    hnr rfl rfl 100 [0, 0]

end Kernel

end Syren
