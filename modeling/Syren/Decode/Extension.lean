import Syren.Decode.Results
import Syren.Layout.NamedBits

/-! Arguments of 32 bits in registers of 64: what is shown of them when the upper half is filled
with zeros and when it is filled with the sign. -/
namespace Syren

/-- The register of a 32-bit value loaded by a move that clears the upper half. -/
def zeroExtended (v : UInt32) : UInt64 := v.toUInt64

/-- The register of a 32-bit value loaded with its sign. -/
def signExtended (v : UInt32) : UInt64 := v.toInt32.toInt64.toUInt64

/-- The event with another value in a register. -/
def SyscallEvent.setArg (ev : SyscallEvent) (k : Fin 6) (raw : UInt64) : SyscallEvent :=
  { ev with args := ev.args.set k raw }

theorem signExtended_toNat (v : UInt32) : (signExtended v).toNat =
    v.toNat + if 2 ^ 31 ≤ v.toNat then 2 ^ 64 - 2 ^ 32 else 0 := by
  have h := Kernel.toNat_signExtended v.toInt32
  rwa [UInt32.toUInt32_toInt32] at h

/-- Equal registers, or two with more than the lower half of an `int`. -/
def Alike (x y : UInt64) : Prop := x = y ∨ 2 ^ 31 ≤ x.toNat ∧ 2 ^ 31 ≤ y.toNat

theorem alike_extended (v : UInt32) : Alike (zeroExtended v) (signExtended v) := by
  have hsign := signExtended_toNat v
  have hzero : (zeroExtended v).toNat = v.toNat := UInt32.toNat_toUInt64 v
  unfold Alike
  by_cases hv : 2 ^ 31 ≤ v.toNat
  · rw [if_pos hv] at hsign
    omega
  · rw [if_neg hv] at hsign
    exact Or.inl (UInt64.toNat_inj.mp (by omega))

namespace Consts

theorem named_large {value : UInt64} {names : List (UInt64 × String)}
    (hsmall : ∀ p ∈ names, p.1.toNat < 2 ^ 31) (hlarge : 2 ^ 31 ≤ value.toNat) :
    named value names = none := by
  have hnone : names.find? (·.1 = value) = none := by
    rw [List.find?_eq_none]
    intro p hp hkey
    rw [← of_decide_eq_true hkey] at hlarge
    exact absurd (hsmall p hp) (not_lt.mpr hlarge)
  rw [named, hnone, Option.map_none]

theorem addressFamily_large {value : UInt64} (h : 2 ^ 31 ≤ value.toNat) :
    addressFamily value = none := named_large (by decide) h

theorem sockoptLevel_large {value : UInt64} (h : 2 ^ 31 ≤ value.toNat) :
    sockoptLevel value = none := named_large (by decide) h

/-- Clearing low bits leaves a large value large. -/
theorem and_not_large {value mask : UInt64} (hmask : mask.toNat < 2 ^ 31)
    (h : 2 ^ 31 ≤ value.toNat) : 2 ^ 31 ≤ (value &&& ~~~mask).toNat := by
  have hsplit : (value &&& ~~~mask) ||| (value &&& mask) = value := by
    apply Layout.bits_injective
    rw [Layout.bits_or, Layout.bits_and_not, Layout.bits_and, Set.sdiff_union_inter]
  have hlow : (value &&& mask).toNat < 2 ^ 31 :=
    (UInt64.le_iff_toNat_le.mp UInt64.and_le_right).trans_lt hmask
  by_contra hlt
  have hor := Nat.or_lt_two_pow (not_le.mp hlt) hlow
  rw [← UInt64.toNat_or, hsplit] at hor
  omega

theorem socketType_large {value : UInt64} (h : 2 ^ 31 ≤ value.toNat) :
    socketType value = none := by
  have hbase : 2 ^ 31 ≤ (value &&& ~~~(SOCK_CLOEXEC ||| SOCK_NONBLOCK)).toNat :=
    and_not_large (by decide) h
  rw [socketType, named_large (by decide) hbase]
  rfl

theorem protocol_large {family value : UInt64} (h : 2 ^ 31 ≤ value.toNat) :
    protocol family value = none := by
  rw [protocol, named_large (by decide) h, ite_self]

theorem sockoptName_large {level value : UInt64} (h : 2 ^ 31 ≤ value.toNat) :
    sockoptName level value = none := by
  simp only [sockoptName, soSocket, soTcp, soIp, soIpv6]
  rw [named_large (by decide) h, named_large (by decide) h, named_large (by decide) h,
    named_large (by decide) h]
  simp

theorem protocol_alike {family family' value : UInt64} (h : Alike family family') :
    protocol family value = protocol family' value := by
  rcases h with rfl | ⟨hf, hf'⟩
  · rfl
  · have hnot {x : UInt64} (hx : 2 ^ 31 ≤ x.toNat) : x ∉ [0, 2, 10] := by
      intro hmem
      simp only [List.mem_cons, List.not_mem_nil, or_false] at hmem
      obtain rfl | rfl | rfl := hmem <;> exact absurd hx (by decide)
    rw [protocol, protocol, if_neg (hnot hf), if_neg (hnot hf')]

theorem sockoptName_alike {level level' value : UInt64} (h : Alike level level') :
    sockoptName level value = sockoptName level' value := by
  rcases h with rfl | ⟨hl, hl'⟩
  · rfl
  · have hnone {x : UInt64} (hx : 2 ^ 31 ≤ x.toNat) : sockoptName x value = none := by
      have hne {k : UInt64} (hk : k.toNat < 2 ^ 31) : x ≠ k := by
        rintro rfl
        omega
      rw [sockoptName, if_neg (hne (by decide)), if_neg (hne (by decide)),
        if_neg (hne (by decide)), if_neg (hne (by decide))]
    rw [hnone hl, hnone hl']

end Consts

variable {info : SyscallInfo} {ev : SyscallEvent} {x y : UInt64}

theorem row_argsOf (hinfo : ev.info SYSCALLS = some info) :
    info.args = Gen.argsOf info.name := by
  obtain ⟨e, -, rfl⟩ := List.mem_map.mp (info_mem hinfo)
  rfl

/-- The arguments of a row are none or those of a prototype of its name. -/
theorem row_args (hinfo : ev.info SYSCALLS = some info) : info.args = [] ∨
    ∃ m ∈ Gen.METADATA, m.name = info.name ∧ m.args = info.args := by
  rw [row_argsOf hinfo, Gen.argsOf]
  cases hm : Gen.lookup info.name with
  | none => exact Or.inl rfl
  | some m =>
    have hname := List.find?_some hm
    exact Or.inr ⟨m, List.mem_of_find?_eq_some hm, by simpa using hname, rfl⟩

/-- What holds of every argument of every prototype, together with the name of the call and its
place there, holds of the arguments of a row. -/
theorem row_arg {P : String → ℕ → ArgInfo → Prop}
    (hall : ∀ m ∈ Gen.METADATA, ∀ p ∈ m.args.zipIdx, P m.name p.2 p.1)
    (hinfo : ev.info SYSCALLS = some info) (i : Fin info.args.length) :
    P info.name i (info.args.get i) := by
  rcases row_args hinfo with hnil | ⟨m, hm, hname, hargs⟩
  · exact absurd i.2 (by simp [hnil])
  · rw [← hname]
    apply hall m hm (info.args.get i, i.val)
    rw [hargs, List.mk_mem_zipIdx_iff_getElem?]
    simp

/-- An argument of 32 bits. -/
def Narrow (ty : ArgType) : Prop := ty = .Fd ∨ ty = .Int

instance (ty : ArgType) : Decidable (Narrow ty) := by
  unfold Narrow
  infer_instance

/-- The names of the arguments that are shown by the name of a constant. -/
def NAMED : List String := ["family", "type", "protocol", "level", "optname", "sig"]

/-- No file descriptor is shown by a name, and no argument of 32 bits is the value of an option. -/
theorem narrow_row (hinfo : ev.info SYSCALLS = some info) (i : Fin info.args.length)
    (hty : Narrow (info.args.get i).ty) :
    ((info.args.get i).ty = .Fd → (info.args.get i).name ∉ NAMED) ∧
      (info.args.get i).name ≠ "optval" ∧ (info.name = "setsockopt" → i.val ≠ 3) := by
  have hall : ∀ m ∈ Gen.METADATA, ∀ p ∈ m.args.zipIdx, Narrow p.1.ty →
      (p.1.ty = .Fd → p.1.name ∉ NAMED) ∧ p.1.name ≠ "optval" ∧
        (m.name = "setsockopt" → p.2 ≠ 3) := by
    decide +kernel
  exact row_arg (P := fun name k a => Narrow a.ty → (a.ty = .Fd → a.name ∉ NAMED) ∧
    a.name ≠ "optval" ∧ (name = "setsockopt" → k ≠ 3)) hall hinfo i hty

theorem render_unnamed {i : Fin info.args.length} (h : (info.args.get i).name ∉ NAMED) :
    Consts.render info.name info i ev = none := by
  simp only [NAMED, List.mem_cons, List.not_mem_nil, or_false, not_or] at h
  simp only [Consts.render, h, and_false, if_false]

theorem rawOf_setArg {i j : Fin info.args.length} (h : j ≠ i) (raw : UInt64) :
    rawOf info j (ev.setArg (i.castLE info.sixAtMost) raw) = rawOf info j ev := by
  have hne : i.val ≠ j.val := fun heq => h (Fin.ext heq.symm)
  exact Vector.getElem_set_ne (i.castLE info.sixAtMost).isLt (j.castLE info.sixAtMost).isLt hne

theorem rawOf_setArg_self (i : Fin info.args.length) (raw : UInt64) :
    rawOf info i (ev.setArg (i.castLE info.sixAtMost) raw) = raw := by
  exact Vector.getElem_set_self (i.castLE info.sixAtMost).isLt

theorem setArg_alike (ev : SyscallEvent) (h : Alike x y) (k : Fin 6) {n : ℕ} (hn : n < 6) :
    Alike (ev.setArg k x).args[n]! (ev.setArg k y).args[n]! := by
  rw [getElem!_pos (ev.setArg k x).args n hn, getElem!_pos (ev.setArg k y).args n hn]
  simp only [SyscallEvent.setArg, Vector.getElem_set]
  split_ifs
  · exact h
  · exact Or.inl rfl

section Others

variable {i j : Fin info.args.length}

theorem consts_setArg (hxy : Alike x y) (hji : j ≠ i) :
    Consts.render info.name info j (ev.setArg (i.castLE info.sixAtMost) x) =
      Consts.render info.name info j (ev.setArg (i.castLE info.sixAtMost) y) := by
  have hzero := setArg_alike ev hxy (i.castLE info.sixAtMost) (by decide : 0 < 6)
  have hone := setArg_alike ev hxy (i.castLE info.sixAtMost) (by decide : 1 < 6)
  simp only [Consts.render, rawOf_setArg hji, Consts.protocol_alike hzero,
    Consts.sockoptName_alike hone]

/-- The address of an option is wide, and its length is compared with four alone. -/
theorem optval_setArg (hinfo : ev.info SYSCALLS = some info) (hty : Narrow (info.args.get i).ty)
    (hxy : Alike x y) (hname : info.name = "setsockopt") (mem : MemoryReader) :
    renderSockoptOptval (ev.setArg (i.castLE info.sixAtMost) x) mem =
      renderSockoptOptval (ev.setArg (i.castLE info.sixAtMost) y) mem := by
  have hthree : (ev.setArg (i.castLE info.sixAtMost) x).args[3]! =
      (ev.setArg (i.castLE info.sixAtMost) y).args[3]! := by
    have hne : i.val ≠ 3 := (narrow_row hinfo i hty).2.2 hname
    rw [getElem!_pos (SyscallEvent.setArg _ _ x).args 3 (by decide),
      getElem!_pos (SyscallEvent.setArg _ _ y).args 3 (by decide)]
    simp [SyscallEvent.setArg, hne]
  have hlen : (ev.setArg (i.castLE info.sixAtMost) x).args[4]! = 4 ↔
      (ev.setArg (i.castLE info.sixAtMost) y).args[4]! = 4 := by
    rcases setArg_alike ev hxy (i.castLE info.sixAtMost) (by decide : 4 < 6) with heq | ⟨hx, hy⟩
    · rw [heq]
    · apply iff_of_false
      · intro h
        exact absurd (h ▸ hx) (by decide)
      · intro h
        exact absurd (h ▸ hy) (by decide)
  unfold renderSockoptOptval
  simp only [hthree, hlen]

/-- The size of a buffer is wide. -/
theorem typed_setArg (hty : Narrow (info.args.get i).ty) (hji : j ≠ i) (mem : MemoryReader) :
    renderTyped info.name info j (ev.setArg (i.castLE info.sixAtMost) x) mem =
      renderTyped info.name info j (ev.setArg (i.castLE info.sixAtMost) y) mem := by
  have hwant : bufWant info j (ev.setArg (i.castLE info.sixAtMost) x) =
      bufWant info j (ev.setArg (i.castLE info.sixAtMost) y) := by
    unfold bufWant
    by_cases hlt : j.val + 1 < info.args.length
    · simp only [hlt, dite_true]
      by_cases hsize : (info.args.get ⟨j.val + 1, hlt⟩).ty = .Size
      · have hne : (⟨j.val + 1, hlt⟩ : Fin info.args.length) ≠ i := by
          intro heq
          rw [heq] at hsize
          rcases hty with h | h <;> rw [h] at hsize <;> contradiction
        rw [rawOf_setArg hne, rawOf_setArg hne]
      · simp only [hsize, if_false]
    · simp only [hlt, dite_false]
  unfold renderTyped renderBuf
  simp only [rawOf_setArg hji, hwant]

/-- Nothing else is shown otherwise when a register of 32 bits is extended otherwise. -/
theorem renderArg_setArg (hinfo : ev.info SYSCALLS = some info)
    (hty : Narrow (info.args.get i).ty) (hxy : Alike x y) (hji : j ≠ i) (mem : MemoryReader) :
    renderArg info.name info j (ev.setArg (i.castLE info.sixAtMost) x) mem =
      renderArg info.name info j (ev.setArg (i.castLE info.sixAtMost) y) mem := by
  unfold renderArg
  rw [consts_setArg hxy hji, typed_setArg (y := y) hty hji]
  split_ifs with hset
  · rw [optval_setArg hinfo hty hxy hset.1]
  · rfl

end Others

/-- The text of an argument. -/
def shown (table : List SyscallInfo) (ev : SyscallEvent) (mem : MemoryReader) (k : ℕ) :
    Option (List Char) := (decode table ev mem).args[k]?.map DecodedArg.value

theorem shown_eq {table : List SyscallInfo} (hinfo : ev.info table = some info)
    (i : Fin info.args.length) (mem : MemoryReader) :
    shown table ev mem i = some (renderArg info.name info i ev mem) := by
  have hne : info.args ≠ [] := List.ne_nil_of_length_pos (Nat.zero_lt_of_lt i.2)
  simp [shown, decode, hinfo, hne, decodeTyped]

theorem shown_beyond {table : List SyscallInfo} (hinfo : ev.info table = some info) {k : ℕ}
    (hk : info.args.length ≤ k) (hne : info.args ≠ []) (mem : MemoryReader) :
    shown table ev mem k = none := by
  simp [shown, decode, hinfo, hne, decodeTyped, hk]

/-- An argument is shown by a name that another register takes part in. -/
def NamedBy (info : SyscallInfo) (k i : ℕ) : Prop :=
  info.name ∈ ["socket", "socketpair"] ∧ i = 0 ∧
      info.args[k]?.map ArgInfo.name = some "protocol" ∨
    info.name ∈ ["setsockopt", "getsockopt"] ∧ i = 1 ∧
      info.args[k]?.map ArgInfo.name = some "optname"

theorem zeroExtended_toUInt32 (v : UInt32) : (zeroExtended v).toUInt32 = v := by
  simp [zeroExtended]

theorem signExtended_toUInt32 (v : UInt32) : (signExtended v).toUInt32 = v := by
  have hsign := signExtended_toNat v
  have hlt := v.toNat_lt
  rw [← UInt32.toNat_inj, UInt64.toNat_toUInt32]
  split_ifs at hsign <;> omega

theorem signalName_large {v : UInt32} (h : 2 ^ 31 ≤ v.toNat) : signalName v.toInt32 = none := by
  have hsmall : ∀ p ∈ SIGNALS, p.1.toUInt32.toNat < 2 ^ 31 := by decide
  have hnone : SIGNALS.find? (·.1 = v.toInt32) = none := by
    rw [List.find?_eq_none]
    intro p hp hkey
    have hlt := hsmall p hp
    rw [of_decide_eq_true hkey, UInt32.toUInt32_toInt32] at hlt
    omega
  rw [signalName, hnone, Option.map_none]

/-- A large value has no name, whatever it is the value of. -/
theorem consts_large {i : Fin info.args.length} {v : UInt32} (hlow : (rawOf info i ev).toUInt32 = v)
    (hv : 2 ^ 31 ≤ v.toNat) (hlarge : 2 ^ 31 ≤ (rawOf info i ev).toNat) :
    Consts.render info.name info i ev = none := by
  simp only [Consts.render, Consts.addressFamily_large hlarge, Consts.socketType_large hlarge,
    Consts.protocol_large hlarge, Consts.sockoptLevel_large hlarge,
    Consts.sockoptName_large hlarge, hlow, signalName_large hv, Option.map_none, ite_self]

theorem renderArg_int (hinfo : ev.info SYSCALLS = some info) {i : Fin info.args.length}
    (hty : (info.args.get i).ty = .Int) {v : UInt32} (hlow : (rawOf info i ev).toUInt32 = v)
    (hv : 2 ^ 31 ≤ v.toNat) (hlarge : 2 ^ 31 ≤ (rawOf info i ev).toNat) (mem : MemoryReader) :
    renderArg info.name info i ev mem = Text.decInt (rawOf info i ev).toInt64.toInt := by
  have hopt := (narrow_row hinfo i (Or.inr hty)).2.1
  rw [renderArg, consts_large hlow hv hlarge]
  simp only [hopt, and_false, if_false, renderTyped, hty]

theorem renderArg_fd (hinfo : ev.info SYSCALLS = some info) {i : Fin info.args.length}
    (hty : (info.args.get i).ty = .Fd) (mem : MemoryReader) :
    renderArg info.name info i ev mem = renderFd (rawOf info i ev) := by
  obtain ⟨hname, hopt, -⟩ := narrow_row hinfo i (Or.inl hty)
  rw [renderArg, render_unnamed (hname hty)]
  simp only [hopt, and_false, if_false, renderTyped, hty]

/-- An argument of 32 bits and those that are named after it are shown alike for both extensions of
a value, exactly if it is a file descriptor or the value has no sign. -/
theorem extension_shown_iff (hinfo : ev.info SYSCALLS = some info) {i : Fin info.args.length}
    (hty : Narrow (info.args.get i).ty) (v : UInt32) (mem : MemoryReader) :
    (∀ k : ℕ, k = i.val ∨ NamedBy info k i →
        shown SYSCALLS (ev.setArg (i.castLE info.sixAtMost) (zeroExtended v)) mem k =
          shown SYSCALLS (ev.setArg (i.castLE info.sixAtMost) (signExtended v)) mem k) ↔
      (info.args.get i).ty = .Fd ∨ v.toNat < 2 ^ 31 := by
  have hinfo' (raw : UInt64) :
      (ev.setArg (i.castLE info.sixAtMost) raw).info SYSCALLS = some info := hinfo
  have hsign := signExtended_toNat v
  have hzero : (zeroExtended v).toNat = v.toNat := UInt32.toNat_toUInt64 v
  constructor
  · intro h
    rcases hty with hfd | hint
    · exact Or.inl hfd
    · right
      by_contra hv
      rw [not_lt] at hv
      rw [if_pos hv] at hsign
      have hown := h i (Or.inl rfl)
      rw [shown_eq (hinfo' _), shown_eq (hinfo' _), Option.some_inj,
        renderArg_int (hinfo' _) hint (by rw [rawOf_setArg_self, zeroExtended_toUInt32]) hv
          (by rw [rawOf_setArg_self]; omega),
        renderArg_int (hinfo' _) hint (by rw [rawOf_setArg_self, signExtended_toUInt32]) hv
          (by rw [rawOf_setArg_self]; omega), rawOf_setArg_self, rawOf_setArg_self] at hown
      have hsame := Int64.toInt_inj.mp (Text.decInt_injective hown)
      have hraw := congrArg Int64.toUInt64 hsame
      rw [UInt64.toUInt64_toInt64, UInt64.toUInt64_toInt64, ← UInt64.toNat_inj] at hraw
      omega
  · rintro hcond k -
    by_cases hk : k < info.args.length
    · have hshown (raw : UInt64) := shown_eq (hinfo' raw) ⟨k, hk⟩ mem
      rw [hshown, hshown, Option.some_inj]
      by_cases hki : (⟨k, hk⟩ : Fin info.args.length) = i
      · rw [hki]
        rcases hcond with hfd | hv
        · rw [renderArg_fd (hinfo' _) hfd, renderArg_fd (hinfo' _) hfd, rawOf_setArg_self,
            rawOf_setArg_self, renderFd, renderFd, zeroExtended_toUInt32, signExtended_toUInt32]
        · rw [if_neg (not_le.mpr hv), Nat.add_zero, ← hzero, UInt64.toNat_inj] at hsign
          rw [hsign]
      · exact renderArg_setArg hinfo hty (alike_extended v) hki mem
    · have hne : info.args ≠ [] := List.ne_nil_of_length_pos (Nat.zero_lt_of_lt i.2)
      rw [shown_beyond (hinfo' _) (not_lt.mp hk) hne, shown_beyond (hinfo' _) (not_lt.mp hk) hne]

/-- A kill by signal 9. -/
def killEvent : SyscallEvent := ⟨7, 7, 62, #v[0, 9, 0, 0, 0, 0], 0, 0, 0⟩

theorem info_kill : killEvent.info SYSCALLS = some (Gen.row (62, "kill")) :=
  info_row 62 rfl (by decide +kernel)

/-- Who is killed: the first argument. -/
def killPid : Fin (Gen.row (62, "kill")).args.length := ⟨0, by decide +kernel⟩

theorem extension_shown_kill :
    (∀ k : ℕ, k = killPid.val ∨ NamedBy (Gen.row (62, "kill")) k killPid →
        shown SYSCALLS (killEvent.setArg (killPid.castLE (Gen.row (62, "kill")).sixAtMost)
            (zeroExtended 0xffffffff)) pageImage.reader k =
          shown SYSCALLS (killEvent.setArg (killPid.castLE (Gen.row (62, "kill")).sixAtMost)
            (signExtended 0xffffffff)) pageImage.reader k) ↔
      ((Gen.row (62, "kill")).args.get killPid).ty = .Fd ∨ (0xffffffff : UInt32).toNat < 2 ^ 31 :=
  extension_shown_iff info_kill (by decide +kernel) 0xffffffff pageImage.reader

/-- The pid `-1` is shown as a large number if the upper half of its register is clear. -/
theorem everyone_shown_large : ¬ ∀ (ev : SyscallEvent) (info : SyscallInfo)
    (i : Fin info.args.length) (v : UInt32) (mem : MemoryReader), ev.info SYSCALLS = some info →
      Narrow (info.args.get i).ty →
        shown SYSCALLS (ev.setArg (i.castLE info.sixAtMost) (zeroExtended v)) mem i =
          shown SYSCALLS (ev.setArg (i.castLE info.sixAtMost) (signExtended v)) mem i := by
  intro h
  have hsame := h killEvent _ killPid 0xffffffff pageImage.reader info_kill (by decide +kernel)
  have hinfo (raw : UInt64) : (killEvent.setArg (killPid.castLE (Gen.row (62, "kill")).sixAtMost)
      raw).info SYSCALLS = some (Gen.row (62, "kill")) := info_kill
  rw [shown_eq (hinfo _), shown_eq (hinfo _), Option.some_inj] at hsame
  exact absurd hsame (by decide +kernel)

end Syren
