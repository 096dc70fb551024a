import Syren.Decode.Decode
import Syren.Decode.Reading
import Syren.Gen.Syscalls
import Syren.Trace.Captured

/-! Decoding through the reader of the eBPF backend beside decoding through a reader of the memory:
which arguments are shown in the same way. -/
namespace Syren
open Render Kernel

namespace Capture

/-- A path at the address is shown alike: it does not start in the captured bytes, or it ends there,
or more of it is captured than is shown. -/
def PathAlike (cap : Capture) (mem : Image) (addr : UInt64) : Prop :=
  cap.Covers addr → cap.Cut mem → MAX_STR + 1 < cap.left addr

/-- A buffer at the address is shown alike: it does not start in the captured bytes, or no more is
asked for than these and what is mapped after them, or only as much is shown of it. -/
def BufAlike (cap : Capture) (mem : Image) (addr : UInt64) (want : ℕ) : Prop :=
  cap.Covers addr →
    (¬ cap.Cut mem → want ≤ cap.left addr ∨ mem.byte (addr.toNat + cap.left addr) = none) ∧
    (cap.Cut mem → min want MAX_STR < cap.left addr)

/-- The value of a socket option at the address is shown alike. -/
def OptvalAlike (cap : Capture) (mem : Image) (addr : UInt64) : Prop :=
  cap.Covers addr → 4 < cap.left addr ∨ cap.left addr = 4 ∧ ¬ cap.Cut mem ∨
    ∃ i < 4, mem.byte (addr.toNat + i) = none

variable {mem : Image} {cap : Capture} {addr : UInt64} {s p : List UInt8} {b : UInt8}

theorem Copied.byte_ne_none (hc : cap.Copied mem s b) (h : cap.Covers addr) :
    mem.byte addr.toNat ≠ none := by
  obtain ⟨p, -, -, -, -, hmem⟩ := hc.rest h
  intro hnone
  rw [Image.mapped_none hnone] at hmem
  simp at hmem

theorem Taken.covers_ne_zero (hc : cap.Taken mem) (h : cap.Covers addr) : addr ≠ 0 := by
  rintro rfl
  exact hc.1 (UInt64.le_antisymm h.1 (UInt64.zero_le))

end Capture

namespace Image

variable {mem : Image} {addr : UInt64} {len : ℕ}

theorem reader_getD (mem : Image) (addr : UInt64) (len : ℕ) :
    (mem.reader addr len).getD [] = mem.mapped addr.toNat len := by
  unfold reader
  by_cases h : mem.mapped addr.toNat len = [] <;> simp [h]

theorem reader_some (h : mem.mapped addr.toNat len ≠ []) :
    mem.reader addr len = some (mem.mapped addr.toNat len) := if_neg h

/-- A read that falls short does not end at a captured address. -/
theorem reader_short {cap : Capture} (hc : cap.Taken mem) {chunk : List UInt8}
    (hread : mem.reader addr len = some chunk) (hshort : chunk.length < len) :
    ¬ cap.Covers (addr + UInt64.ofNat chunk.length) := by
  intro hcov
  obtain ⟨s, b, hcopy⟩ := hc.copied
  have hbyte := hcopy.byte_ne_none hcov
  have hne := hc.covers_ne_zero hcov
  have hchunk : mem.mapped addr.toNat len = chunk := by
    rw [← mem.reader_getD, hread, Option.getD_some]
  subst hchunk
  have hend := mem.byte_of_length_lt hshort
  have hnil : mem.mapped addr.toNat len ≠ [] := by
    intro hnil
    simp [reader, hnil] at hread
  have htop := mem.mapped_top hnil
  rcases htop.lt_or_eq with hlt | heq
  · apply hbyte
    rw [UInt64.toNat_add, UInt64.toNat_ofNat',
      Nat.mod_eq_of_lt (a := (mapped ..).length) (by omega), Nat.mod_eq_of_lt hlt]
    exact hend
  · refine hne (UInt64.toNat_inj.mp ?_)
    rw [UInt64.toNat_add, UInt64.toNat_ofNat']
    have haddr := addr.toNat_lt
    simp
    omega

end Image

section
variable {proc : UInt32 → Option MemoryReader} {tid : UInt32} {mem : Image} {cap : Capture}
  {addr : UInt64} {p : List UInt8} {b : UInt8}

/-- A covered read is answered with the captured bytes. -/
theorem EbpfMemory.read_covers (h : cap.Covers addr) (len : ℕ) :
    EbpfMemory.read proc ⟨tid, some cap⟩ addr len =
      some ((cap.bytes.drop (addr - cap.addr).toNat).take len) := by
  have hcond : addr ≥ cap.addr ∧ addr < cap.addr + UInt64.ofNat cap.bytes.length := h
  simp only [EbpfMemory.read, if_pos hcond]
  rw [List.drop_take, List.take_eq_take_iff.mpr]
  rw [List.length_drop]
  omega

/-- Any other read goes to the memory of the task. -/
theorem EbpfMemory.read_beside (hproc : proc tid = some mem.reader) (h : ¬ cap.Covers addr)
    (len : ℕ) : EbpfMemory.read proc ⟨tid, some cap⟩ addr len = mem.reader addr len := by
  have hcond : ¬ (addr ≥ cap.addr ∧ addr < cap.addr + UInt64.ofNat cap.bytes.length) := h
  simp only [EbpfMemory.read, if_neg hcond, hproc, Option.bind_some]

/-- A string that starts among the captured bytes, as it is read from them. -/
theorem readCstr_captured (hne : addr ≠ 0) (hcov : cap.Covers addr)
    (hrest : cap.bytes.drop (addr - cap.addr).toNat = p ++ [0]) (hp : 0 ∉ p)
    (hshort : p.length < 128) :
    readCstr (EbpfMemory.read proc ⟨tid, some cap⟩) addr PATH_CAP = some p := by
  have hread : EbpfMemory.read proc ⟨tid, some cap⟩ addr 256 = _ :=
    EbpfMemory.read_covers hcov 256
  rw [hrest, List.take_of_length_le (by simp; omega)] at hread
  rw [readCstr, if_neg hne, readCstrLoop_some (by decide) hread (by simp), if_pos (by simp),
    takeWhile_noZero hp]
  simp

/-- A string that starts among the captured bytes, as it is read from the memory. -/
theorem readCstr_mapped (hne : addr ≠ 0) (hp : 0 ∉ p) (hshort : p.length < 128)
    (hmem : mem.mapped addr.toNat (p.length + 1) = p ++ [b]) :
    ∃ rest, readCstr mem.reader addr PATH_CAP = some (p ++ rest) ∧ (b = 0 → rest = []) ∧
      (b ≠ 0 → ∃ more, rest = b :: more) := by
  have hlen : (mem.mapped addr.toNat (p.length + 1)).length = p.length + 1 := by simp [hmem]
  have hrun := mem.mapped_append hlen (256 - (p.length + 1))
  rw [Nat.add_sub_cancel' (by omega), hmem, List.append_assoc, List.singleton_append] at hrun
  have hread : mem.reader addr 256 = _ := mem.reader_some (by simp [hrun])
  rw [hrun] at hread
  rw [readCstr, if_neg hne, readCstrLoop_some (by decide) hread (by simp)]
  by_cases hb : b = 0
  · subst hb
    rw [if_pos (by simp), takeWhile_noZero hp]
    exact ⟨[], by simp, fun _ => rfl, fun h => absurd rfl h⟩
  · split_ifs with hzero
    · rw [takeWhile_noZero hp, List.takeWhile_cons_of_pos (by simpa using hb)]
      exact ⟨_, rfl, fun h => absurd h hb, fun _ => ⟨_, rfl⟩⟩
    · obtain ⟨rest, hrest⟩ := readCstrLoop_front mem.reader PATH_CAP
        (addr + UInt64.ofNat (p ++ b :: mem.mapped (addr.toNat + (p.length + 1))
          (256 - (p.length + 1))).length)
        ([] ++ (p ++ b :: mem.mapped (addr.toNat + (p.length + 1)) (256 - (p.length + 1))))
        (by simp)
      rw [hrest, List.nil_append, List.append_assoc]
      exact ⟨_, rfl, fun h => absurd h hb, fun _ => ⟨_, rfl⟩⟩

theorem path_alike (hc : cap.Taken mem) (hproc : proc tid = some mem.reader) :
    ((readCstr (EbpfMemory.read proc ⟨tid, some cap⟩) addr PATH_CAP).map quoteBytes).getD
        (ptrOrNull addr) =
      ((readCstr mem.reader addr PATH_CAP).map quoteBytes).getD (ptrOrNull addr) ↔
    cap.PathAlike mem addr := by
  by_cases hcov : cap.Covers addr
  · obtain ⟨s, b, hcopy⟩ := hc.copied
    obtain ⟨p, hrest, hp, hleft, hshort, hmem⟩ := hcopy.rest hcov
    have hne := hc.covers_ne_zero hcov
    obtain ⟨rest, hmapped, hzero, hmore⟩ := readCstr_mapped hne hp (by omega) hmem
    rw [readCstr_captured hne hcov hrest hp (by omega), hmapped]
    simp only [Option.map_some, Option.getD_some, Capture.PathAlike, hcov, forall_const, hcopy.cut]
    by_cases hb : b = 0
    · rw [hzero hb, List.append_nil]
      exact iff_of_true rfl fun h => absurd hb h
    · obtain ⟨more, rfl⟩ := hmore hb
      rw [eq_comm, quoteBytes_append_iff (List.cons_ne_nil _ _), forall_prop_of_true hb]
      omega
  · refine iff_of_true ?_ fun h => absurd h hcov
    unfold readCstr
    split_ifs
    · rfl
    · rw [readCstrLoop_alike
        (fun a len (h : ¬ cap.Covers a) => EbpfMemory.read_beside hproc h len)
        (fun _ _ _ hread hlt => Image.reader_short hc hread hlt) addr [] hcov]

/-- What a buffer is shown as by the bytes that could be read of it. -/
def bufText (addr : UInt64) (bytes : List UInt8) : List Char :=
  if bytes = [] then Text.hex addr.toNat else quoteBytes bytes

theorem renderBuf_eq (info : SyscallInfo) (i : Fin info.args.length) (ev : SyscallEvent)
    (mem : MemoryReader) : renderBuf info i ev mem = if rawOf info i ev = 0 then "NULL".toList
      else bufText (rawOf info i ev) ((mem (rawOf info i ev) (bufWant info i ev)).getD []) := by
  simp only [renderBuf, bufText]
  cases mem (rawOf info i ev) (bufWant info i ev) <;> rfl

/-- More bytes than are captured, as a buffer shows them. -/
theorem bufText_alike {want : ℕ} (hwant : want ≤ MAX_STR + 1) (hlt : p.length < want)
    (hmem : mem.mapped addr.toNat (p.length + 1) = p ++ [b]) :
    bufText addr (p ++ [0]) = bufText addr (mem.mapped addr.toNat want) ↔
      (b = 0 → want ≤ p.length + 1 ∨ mem.byte (addr.toNat + (p.length + 1)) = none) ∧
      (b ≠ 0 → min want MAX_STR < p.length + 1) := by
  obtain ⟨m, rfl⟩ : ∃ m, want = p.length + 1 + m := ⟨want - (p.length + 1), by omega⟩
  have hlen : (mem.mapped addr.toNat (p.length + 1)).length = p.length + 1 := by simp [hmem]
  rw [mem.mapped_append hlen m, hmem, List.append_assoc, List.singleton_append]
  unfold bufText
  rw [if_neg (by simp), if_neg (by simp)]
  by_cases hb : b = 0
  · subst hb
    rw [forall_prop_of_true rfl, and_iff_left fun h => absurd rfl h,
      List.append_cons p 0 (mem.mapped _ m), eq_comm]
    by_cases hmore : mem.mapped (addr.toNat + (p.length + 1)) m = []
    · rw [hmore, List.append_nil]
      exact iff_of_true rfl ((Image.mapped_eq_nil.mp hmore).imp_left fun h => by omega)
    · rw [quoteBytes_append_iff hmore, List.length_append, List.length_singleton]
      rw [Image.mapped_eq_nil, not_or] at hmore
      refine iff_of_false (by omega) fun h => h.elim (by omega) hmore.2
  · rw [eq_comm, quoteBytes_zero_iff hb]
    simp [hb]
    omega

theorem buf_alike (hc : cap.Taken mem) (hproc : proc tid = some mem.reader)
    (info : SyscallInfo) (i : Fin info.args.length) (ev : SyscallEvent) :
    renderBuf info i ev (EbpfMemory.read proc ⟨tid, some cap⟩) = renderBuf info i ev mem.reader ↔
      cap.BufAlike mem (rawOf info i ev) (bufWant info i ev) := by
  rw [renderBuf_eq, renderBuf_eq]
  have hwant : bufWant info i ev ≤ MAX_STR + 1 := min_le_right _ _
  generalize rawOf info i ev = addr, bufWant info i ev = want at *
  by_cases hcov : cap.Covers addr
  · obtain ⟨s, b, hcopy⟩ := hc.copied
    obtain ⟨p, hrest, -, hleft, -, hmem⟩ := hcopy.rest hcov
    rw [if_neg (hc.covers_ne_zero hcov), if_neg (hc.covers_ne_zero hcov),
      EbpfMemory.read_covers hcov, hrest, Option.getD_some, mem.reader_getD]
    simp only [Capture.BufAlike, hcov, forall_const, hcopy.cut, ← hleft, ne_eq, not_not]
    by_cases hlt : p.length < want
    · rw [List.take_of_length_le (by rw [List.length_append, List.length_singleton]; omega)]
      exact bufText_alike hwant hlt hmem
    · have htake := mem.take_mapped addr.toNat (p.length + 1) want
      rw [min_eq_left (by omega), hmem, List.take_append_of_le_length (by omega)] at htake
      rw [List.take_append_of_le_length (by omega), htake]
      exact iff_of_true rfl ⟨fun _ => .inl (by omega), fun _ => by omega⟩
  · rw [EbpfMemory.read_beside hproc hcov]
    exact iff_of_true rfl fun h => absurd h hcov

/-- What the value of a socket option is shown as by the bytes that could be read of it. -/
def optvalText (addr : UInt64) (bytes : List UInt8) : List Char :=
  if bytes.length = 4 then
    '[' :: Text.decInt (UInt32.ofNat (Layout.leValue bytes)).toInt32.toInt ++ [']']
  else Text.hex addr.toNat

theorem renderSockoptOptval_eq (ev : SyscallEvent) (mem : MemoryReader) :
    renderSockoptOptval ev mem = if ev.args[3]! = 0 then "NULL".toList
      else if ev.args[4]! = 4 then optvalText ev.args[3]! ((mem ev.args[3]! 4).getD [])
      else Text.hex ev.args[3]!.toNat := by
  simp only [renderSockoptOptval, optvalText]
  cases mem ev.args[3]! 4 <;> rfl

theorem optvalText_ne {bytes : List UInt8} (h : bytes.length = 4) :
    optvalText addr bytes ≠ Text.hex addr.toNat := by
  rw [optvalText, if_pos h]
  exact fun heq => absurd (List.cons.inj heq).1 (by decide)

theorem optvalText_last {p : List UInt8} (hp : p.length = 3)
    (h : optvalText addr (p ++ [b]) = optvalText addr (p ++ [0])) : b = 0 := by
  have hlen (c : UInt8) : (p ++ [c]).length = 4 := by rw [List.length_append, hp]; rfl
  rw [optvalText, optvalText, if_pos (hlen _), if_pos (hlen _)] at h
  have hint := Text.decInt_injective (List.append_cancel_right (List.cons.inj h).2)
  have hword := congrArg Int32.toUInt32 (Int32.toInt_inj.mp hint)
  rw [UInt32.toUInt32_toInt32, UInt32.toUInt32_toInt32, ← UInt32.toNat_inj, UInt32.toNat_ofNat',
    UInt32.toNat_ofNat', Layout.leValue_append, Layout.leValue_append, hp] at hword
  have hlow := Layout.leValue_lt p
  have hb := b.toNat_lt
  have hbyte (c : UInt8) : Layout.leValue [c] = c.toNat := rfl
  rw [hp] at hlow
  rw [hbyte, hbyte, UInt8.toNat_zero] at hword
  apply UInt8.toNat_inj.mp
  rw [UInt8.toNat_zero]
  omega

theorem optval_alike (hc : cap.Taken mem) (hproc : proc tid = some mem.reader) (ev : SyscallEvent) :
    renderSockoptOptval ev (EbpfMemory.read proc ⟨tid, some cap⟩) =
        renderSockoptOptval ev mem.reader ↔
      (ev.args[4]! = 4 → cap.OptvalAlike mem ev.args[3]!) := by
  rw [renderSockoptOptval_eq, renderSockoptOptval_eq]
  generalize ev.args[3]! = addr
  by_cases hlen : ev.args[4]! = 4
  · rw [forall_prop_of_true hlen, if_pos hlen, if_pos hlen]
    by_cases hcov : cap.Covers addr
    · obtain ⟨s, b, hcopy⟩ := hc.copied
      obtain ⟨p, hrest, -, hleft, -, hmem⟩ := hcopy.rest hcov
      have hrun : (mem.mapped addr.toNat (p.length + 1)).length = p.length + 1 := by simp [hmem]
      have hmapped := mem.length_mapped_eq_iff.mp hrun
      rw [if_neg (hc.covers_ne_zero hcov), if_neg (hc.covers_ne_zero hcov),
        EbpfMemory.read_covers hcov, hrest, Option.getD_some, mem.reader_getD]
      simp only [Capture.OptvalAlike, hcov, forall_const, hcopy.cut, ← hleft, ne_eq, not_not]
      have hall : (mem.mapped addr.toNat 4).length = 4 ↔ _ := mem.length_mapped_eq_iff
      rcases lt_trichotomy p.length 3 with hlt | heq | hgt
      · rw [List.take_of_length_le (by rw [List.length_append, List.length_singleton]; omega)]
        have hshort : optvalText addr (p ++ [0]) = Text.hex addr.toNat :=
          if_neg (by rw [List.length_append, List.length_singleton]; omega)
        rw [hshort]
        by_cases hfull : (mem.mapped addr.toNat 4).length = 4
        · apply iff_of_false (optvalText_ne hfull).symm
          rintro (h | ⟨h, -⟩ | ⟨k, hk, hnone⟩)
          · omega
          · omega
          · exact hall.mp hfull k hk hnone
        · rw [optvalText, if_neg hfull]
          refine iff_of_true rfl (.inr (.inr ?_))
          simpa using mt hall.mpr hfull
      · rw [heq] at hmem hmapped
        rw [List.take_of_length_le (by rw [List.length_append, heq]; rfl), hmem]
        constructor
        · exact fun h => .inr (.inl ⟨by omega, optvalText_last heq h.symm⟩)
        · rintro (h | ⟨-, rfl⟩ | ⟨k, hk, hnone⟩)
          · omega
          · rfl
          · exact absurd hnone (hmapped k hk)
      · have htake := mem.take_mapped addr.toNat (p.length + 1) 4
        rw [min_eq_left (by omega), hmem, List.take_append_of_le_length (by omega)] at htake
        rw [List.take_append_of_le_length (by omega), htake]
        exact iff_of_true rfl (.inl (by omega))
    · rw [EbpfMemory.read_beside hproc hcov]
      exact iff_of_true rfl fun h => absurd h hcov
  · rw [if_neg hlen, if_neg hlen]
    exact iff_of_true rfl fun h => absurd h hlen

/-- An argument is shown alike: by a name that no memory is read for, or by what is read alike. -/
def Capture.ArgAlike (cap : Capture) (mem : Image) (syscall : String) (info : SyscallInfo)
    (i : Fin info.args.length) (ev : SyscallEvent) : Prop :=
  Consts.render syscall info i ev = none →
    if syscall = "setsockopt" ∧ (info.args.get i).name = "optval" then
      ev.args[4]! = 4 → cap.OptvalAlike mem ev.args[3]!
    else match (info.args.get i).ty with
      | .Path => cap.PathAlike mem (rawOf info i ev)
      | .Buf => cap.BufAlike mem (rawOf info i ev) (bufWant info i ev)
      | _ => True

theorem arg_alike (hc : cap.Taken mem) (hproc : proc tid = some mem.reader) (syscall : String)
    (info : SyscallInfo) (i : Fin info.args.length) (ev : SyscallEvent) :
    renderArg syscall info i ev (EbpfMemory.read proc ⟨tid, some cap⟩) =
      renderArg syscall info i ev mem.reader ↔ cap.ArgAlike mem syscall info i ev := by
  unfold renderArg Capture.ArgAlike
  cases hconst : Consts.render syscall info i ev with
  | some symbolic => exact iff_of_true rfl fun h => by cases h
  | none =>
    rw [forall_prop_of_true rfl]
    split_ifs with hopt
    · exact optval_alike hc hproc ev
    · unfold renderTyped
      cases (info.args.get i).ty with
      | Path => exact path_alike hc hproc
      | Buf => exact buf_alike hc hproc info i ev
      | _ => exact iff_of_true rfl trivial

/-- What is decoded depends on the memory by the text of each argument alone. -/
theorem decode_eq_iff (table : List SyscallInfo) (ev : SyscallEvent) (mem mem' : MemoryReader) :
    decode table ev mem = decode table ev mem' ↔ ∀ info, ev.info table = some info →
      ∀ i, renderArg info.name info i ev mem = renderArg info.name info i ev mem' := by
  have hargs : decode table ev mem = decode table ev mem' ↔
      (decode table ev mem).args = (decode table ev mem').args := by
    simp [decode]
  rw [hargs]
  unfold decode
  cases ev.info table with
  | none => simp
  | some info =>
    simp only [Option.some_inj, forall_eq']
    by_cases hnil : info.args = []
    · rw [if_pos hnil, if_pos hnil]
      exact iff_of_true rfl fun i => absurd i.2 (by simp [hnil])
    · rw [if_neg hnil, if_neg hnil]
      unfold decodeTyped
      rw [List.map_inj_left]
      simp only [List.mem_finRange, forall_const, DecodedArg.mk.injEq, true_and, and_true]

theorem decode_alike (hc : cap.Taken mem) (table : List SyscallInfo) (ev : SyscallEvent)
    (hproc : proc ev.tid = some mem.reader) :
    decode table ev (EbpfMemory.read proc ⟨ev.tid, some cap⟩) = decode table ev mem.reader ↔
      ∀ info, ev.info table = some info → ∀ i, cap.ArgAlike mem info.name info i ev := by
  simp only [decode_eq_iff, arg_alike hc hproc]

/-- Decoding does not depend on the backend if and only if every argument that starts among the
captured bytes is shown alike. -/
theorem decode_alike_iff (table : List SyscallInfo) (mem : Image) (ev : SyscallEvent)
    (cap : Option Capture) (proc : UInt32 → Option MemoryReader)
    (hcap : ∀ c, cap = some c ↔ Captures table mem ev.nr ev.args c)
    (hproc : proc ev.tid = some mem.reader) :
    decode table ev (EbpfMemory.read proc ⟨ev.tid, cap⟩) = decode table ev mem.reader ↔
      ∀ c, cap = some c → ∀ info, ev.info table = some info →
        ∀ i, c.ArgAlike mem info.name info i ev := by
  cases cap with
  | none =>
    have hread : EbpfMemory.read proc ⟨ev.tid, none⟩ = mem.reader := by
      funext addr len
      simp [EbpfMemory.read, hproc]
    rw [hread]
    simp
  | some cap =>
    rw [decode_alike (Capture.taken_of_captures ((hcap cap).mp rfl)) table ev hproc]
    simp

end

/-- The row of an event, found by its number. -/
theorem info_row {ev : SyscallEvent} (n : UInt32) {e : UInt32 × String}
    (hnr : tryU32 ev.nr = some n)
    (hfind : Gen.ENTRIES.find? (fun e => decide (e.1 = n)) = some e) :
    ev.info SYSCALLS = some (Gen.row e) := by
  have hrow : syscallByNumber SYSCALLS n = some (Gen.row e) := by
    rw [syscallByNumber, SYSCALLS, List.find?_map]
    exact congrArg (Option.map Gen.row) hfind
  rw [SyscallEvent.info, hnr, Option.bind_some, hrow]

/-- A page of letters. -/
def pageImage : Image where
  byte addr := if 4096 ≤ addr ∧ addr < 8192 then some 97 else none
  top addr h := if_neg (by omega)

/-- A rename of the page to its own text from the hundredth letter on. -/
def renameEvent : SyscallEvent := ⟨7, 7, 82, #v[4096, 4196, 0, 0, 0, 0], 0, 0, 0⟩

def renameCapture : Capture := ⟨4096, List.replicate 127 97 ++ [0]⟩

theorem rename_row {row : SyscallInfo} (h : row ∈ SYSCALLS) (hn : row.number.toNat = 82) :
    row = Gen.row (82, "rename") := by
  obtain ⟨e, he, rfl⟩ := List.mem_map.mp h
  have hall : ∀ e ∈ Gen.ENTRIES, e.1.toNat = 82 → e = (82, "rename") := by decide +kernel
  rw [hall e he hn]

theorem captures_rename (cap : Capture) :
    some renameCapture = some cap ↔ Captures SYSCALLS pageImage 82 renameEvent.args cap := by
  have hstr : userStr pageImage 4096 = some (List.replicate 128 97) := by decide +kernel
  have hpath : (Gen.row (82, "rename")).args.findIdx? (·.ty = .Path) = some 0 := by decide +kernel
  have hname : (Gen.row (82, "rename")).name = "rename" := rfl
  constructor
  · intro h
    have hin : Gen.row (82, "rename") ∈ SYSCALLS := List.mem_map_of_mem (by decide +kernel)
    refine ⟨4096, _, ⟨by decide, Gen.row (82, "rename"), hin, rfl, by rw [hname]; decide,
      by rw [hname]; decide, 0, hpath, rfl⟩, by decide, hstr, ?_⟩
    exact (Option.some_inj.mp h).symm
  · rintro ⟨addr, t, ⟨-, row, hrow, hn, -, -, i, hi, haddr⟩, -, ht, rfl⟩
    rw [rename_row hrow hn, hpath, Option.some_inj] at hi
    subst hi
    obtain rfl : 4096 = addr := Option.some_inj.mp haddr
    rw [hstr, Option.some_inj] at ht
    subst ht
    rfl

theorem decode_alike_iff_rename :
    decode SYSCALLS renameEvent
        (EbpfMemory.read (fun _ => some pageImage.reader) ⟨7, some renameCapture⟩) =
      decode SYSCALLS renameEvent pageImage.reader ↔
    ∀ c, some renameCapture = some c → ∀ info, renameEvent.info SYSCALLS = some info →
      ∀ i, c.ArgAlike pageImage info.name info i renameEvent :=
  decode_alike_iff SYSCALLS pageImage renameEvent (some renameCapture) _ captures_rename rfl

theorem info_rename : renameEvent.info SYSCALLS = some (Gen.row (82, "rename")) :=
  info_row 82 rfl (by decide +kernel)

/-- The second path is shown to the end of the capture and not to its own end. -/
theorem rename_cut_short :
    (∀ c, some renameCapture = some c ↔
      Captures SYSCALLS pageImage renameEvent.nr renameEvent.args c) ∧
    decode SYSCALLS renameEvent
        (EbpfMemory.read (fun _ => some pageImage.reader) ⟨7, some renameCapture⟩) ≠
      decode SYSCALLS renameEvent pageImage.reader := by
  refine ⟨captures_rename, fun h => ?_⟩
  have htaken := Capture.taken_of_captures ((captures_rename renameCapture).mp rfl)
  have halike := (decode_alike htaken SYSCALLS renameEvent rfl).mp h _ info_rename
    ⟨1, by decide +kernel⟩
  have hconst : Consts.render "rename" (Gen.row (82, "rename")) ⟨1, by decide +kernel⟩ renameEvent =
      none := by decide +kernel
  have hty : ((Gen.row (82, "rename")).args.get ⟨1, by decide +kernel⟩).ty = .Path := by
    decide +kernel
  have hraw : rawOf (Gen.row (82, "rename")) ⟨1, by decide +kernel⟩ renameEvent = 4196 := by
    decide +kernel
  have hcovers : renameCapture.Covers 4196 := ⟨by decide, by decide +kernel⟩
  have hcut : 0 ∉ pageImage.mapped 4096 CAP_BYTES := by decide +kernel
  have hleft : renameCapture.left 4196 = 28 := by decide +kernel
  have hpath := halike hconst
  rw [if_neg (by decide), hty] at hpath
  have hlong : MAX_STR + 1 < renameCapture.left 4196 := hraw ▸ hpath (hraw ▸ hcovers) hcut
  rw [hleft, MAX_STR] at hlong
  omega

end Syren
