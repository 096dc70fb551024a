import Syren.Decode.Backends

/-! The part of a task's memory that the text of a call depends on, beside the part that the call
has written: buffers that the kernel fills. -/
namespace Syren
open Render

namespace Image

variable (mem : Image)

/-- The mapped run from an address on, as the cursor of a string follows it: past the last address
it goes on at the first. -/
def around : UInt64 → ℕ → List UInt8
  | _, 0 => []
  | cursor, len + 1 => match mem.byte cursor.toNat with
    | none => []
    | some b => b :: around (cursor + 1) len

theorem next_add (cursor : UInt64) (k : ℕ) :
    cursor + 1 + UInt64.ofNat k = cursor + UInt64.ofNat (k + 1) := by
  rw [UInt64.ofNat_add, UInt64.add_comm (UInt64.ofNat k), UInt64.add_assoc]
  rfl

theorem around_succ {mem : Image} {cursor : UInt64} {b : UInt8}
    (h : mem.byte cursor.toNat = some b) (len : ℕ) :
    mem.around cursor (len + 1) = b :: mem.around (cursor + 1) len := by
  rw [around, h]

theorem around_none {mem : Image} {cursor : UInt64} (h : mem.byte cursor.toNat = none) (len : ℕ) :
    mem.around cursor len = [] := by
  cases len with
  | zero => rfl
  | succ len => rw [around, h]

theorem take_around (cursor : UInt64) (len j : ℕ) :
    (mem.around cursor len).take j = mem.around cursor (min j len) := by
  induction len generalizing cursor j with
  | zero => simp [around]
  | succ len ih =>
    cases j with
    | zero => simp [around]
    | succ j =>
      rw [Nat.succ_min_succ]
      cases hb : mem.byte cursor.toNat with
      | none => simp [around_none hb]
      | some b => rw [around_succ hb, around_succ hb, List.take_succ_cons, ih]

/-- What is mapped without a gap before the last address is the start of the run. -/
theorem around_append {cursor : UInt64} {m : ℕ} (h : (mem.mapped cursor.toNat m).length = m)
    (n : ℕ) : mem.around cursor (m + n) =
      mem.mapped cursor.toNat m ++ mem.around (cursor + UInt64.ofNat m) n := by
  induction m generalizing cursor with
  | zero => simp [mapped]
  | succ m ih =>
    cases hb : mem.byte cursor.toNat with
    | none => simp [mapped_none hb] at h
    | some b =>
      rw [mapped_succ hb, List.length_cons, Nat.add_right_cancel_iff] at h
      rw [Nat.add_right_comm, around_succ hb, mapped_succ hb, List.cons_append]
      cases m with
      | zero => simp [mapped]
      | succ m =>
        have hnext : cursor.toNat + 1 < 2 ^ 64 := by
          by_contra hle
          have hall := mem.length_mapped_eq_iff.mp h 0 (Nat.succ_pos m)
          exact hall (mem.top _ (by omega))
        have hcursor : (cursor + 1).toNat = cursor.toNat + 1 := by
          rw [UInt64.toNat_add, UInt64.toNat_one, Nat.mod_eq_of_lt hnext]
        rw [← hcursor] at h ⊢
        rw [ih h, next_add]

theorem around_congr {mem mem' : Image} {cursor : UInt64} {len : ℕ}
    (h : ∀ k < len, mem'.byte (cursor + UInt64.ofNat k).toNat =
      mem.byte (cursor + UInt64.ofNat k).toNat) :
    mem'.around cursor len = mem.around cursor len := by
  induction len generalizing cursor with
  | zero => rfl
  | succ len ih =>
    have hfirst := h 0 (Nat.succ_pos len)
    have hrest : mem'.around (cursor + 1) len = mem.around (cursor + 1) len := by
      apply ih
      intro k hk
      have hnext := h (k + 1) (Nat.succ_lt_succ hk)
      rwa [← next_add] at hnext
    have hzero : cursor + UInt64.ofNat 0 = cursor := UInt64.add_zero cursor
    rw [hzero] at hfirst
    rw [around, around, hfirst, hrest]

theorem mapped_congr {mem mem' : Image} {addr len : ℕ}
    (h : ∀ k < len, mem'.byte (addr + k) = mem.byte (addr + k)) :
    mem'.mapped addr len = mem.mapped addr len := by
  induction len generalizing addr with
  | zero => rfl
  | succ len ih =>
    have hrest : mem'.mapped (addr + 1) len = mem.mapped (addr + 1) len := by
      apply ih
      intro k hk
      rw [Nat.add_assoc, Nat.add_comm 1]
      exact h (k + 1) (Nat.succ_lt_succ hk)
    have hfirst : mem'.byte addr = mem.byte addr := h 0 (Nat.succ_pos len)
    rw [mapped, mapped, hfirst, hrest]

theorem around_stop {mem : Image} {cursor : UInt64} {k n : ℕ} (hk : k ≤ n)
    (h : mem.byte (cursor + UInt64.ofNat k).toNat = none) :
    mem.around cursor n = mem.around cursor k := by
  induction k generalizing cursor n with
  | zero =>
    have hzero : cursor + UInt64.ofNat 0 = cursor := UInt64.add_zero cursor
    rw [hzero] at h
    rw [around_none h, around_none h]
  | succ k ih =>
    obtain ⟨n, rfl⟩ := Nat.exists_eq_add_of_lt hk
    rw [← next_add] at h
    have hrest := ih (Nat.le_add_right k n) h
    rw [around, around, hrest]

theorem reader_nothing {addr : UInt64} {len : ℕ} (h : (mem.reader addr len).getD [] = [])
    (hpos : 0 < len) : mem.byte addr.toNat = none := by
  rw [reader_getD, mapped_eq_nil] at h
  exact h.resolve_left hpos.ne'

/-- An answer of the reader is the start of the run. -/
theorem around_of_reader {cursor : UInt64} {len n : ℕ} {chunk : List UInt8}
    (hread : mem.reader cursor len = some chunk) (hle : len ≤ n) :
    mem.around cursor n =
      chunk ++ mem.around (cursor + UInt64.ofNat chunk.length) (n - chunk.length) := by
  have hchunk := mem.reader_getD cursor len
  rw [hread, Option.getD_some] at hchunk
  have hshort : chunk.length ≤ len := hchunk ▸ mem.length_mapped_le _ _
  have htake := mem.take_mapped cursor.toNat len chunk.length
  rw [← hchunk, List.take_length, min_eq_left hshort] at htake
  have happend := mem.around_append (congrArg List.length htake.symm) (n - chunk.length)
  rwa [Nat.add_sub_of_le (hshort.trans hle), ← htake] at happend

end Image

variable {mem mem' : Image} {cap : ℕ} {cursor addr : UInt64} {out : List UInt8}

/-- Through the memory of the task a string is read as its run up to a zero. -/
theorem readCstrLoop_around (h : 0 ∉ out) : readCstrLoop mem.reader cap cursor out =
    if out = [] ∧ 0 < cap ∧ mem.around cursor (cap - out.length) = [] then none
    else some (out ++ (mem.around cursor (cap - out.length)).takeWhile (· ≠ 0)) := by
  fun_induction readCstrLoop mem.reader cap cursor out with
  | case1 cursor hlt hread | case3 cursor hlt hread =>
    have hnone := mem.reader_nothing (congrArg (·.getD []) hread) (by omega)
    rw [Image.around_none hnone, if_pos ⟨rfl, hlt, rfl⟩]
  | case2 cursor out hlt hread hne | case4 cursor out hlt hne hread =>
    have hnone := mem.reader_nothing (congrArg (·.getD []) hread) (by omega)
    rw [Image.around_none hnone, if_neg fun hnil => hne hnil.1]
    simp
  | case5 cursor out hlt chunk hread hchunk hzero =>
    rw [mem.around_of_reader hread (min_le_right _ _), if_neg (by simp [hchunk]),
      takeWhile_ofZero hzero]
  | case6 cursor out hlt chunk hread hchunk hzero ih =>
    rw [ih (by simp [h, hzero]), mem.around_of_reader hread (min_le_right _ _),
      if_neg (by simp [hchunk]), if_neg (by simp [hchunk]), takeWhile_noZero hzero,
      List.length_append, List.append_assoc, Nat.sub_add_eq]
  | case7 cursor out hlt =>
    rw [Nat.sub_eq_zero_of_le (not_lt.mp hlt), Image.around, List.takeWhile_nil, List.append_nil,
      if_neg]
    rintro ⟨rfl, hpos, -⟩
    exact hlt hpos

/-- What a path is shown as, from the run of the bytes that can make a difference. -/
theorem readCstr_shown (mem : Image) (addr : UInt64) :
    (readCstr mem.reader addr PATH_CAP).map quoteBytes =
      if addr = 0 ∨ mem.around addr (MAX_STR + 1) = [] then none
      else some (quoteBytes ((mem.around addr (MAX_STR + 1)).takeWhile (· ≠ 0))) := by
  have htake : (mem.around addr PATH_CAP).take (MAX_STR + 1) = mem.around addr (MAX_STR + 1) :=
    mem.take_around addr PATH_CAP (MAX_STR + 1)
  have hnil : mem.around addr PATH_CAP = [] ↔ mem.around addr (MAX_STR + 1) = [] := by
    rw [← htake, List.take_eq_nil_iff]
    simp
  unfold readCstr
  by_cases hnull : addr = 0
  · simp [hnull]
  · rw [if_neg hnull, readCstrLoop_around (by simp)]
    simp only [hnull, false_or, true_and, List.nil_append, List.length_nil, Nat.sub_zero, hnil]
    by_cases hempty : mem.around addr (MAX_STR + 1) = []
    · simp [hempty, PATH_CAP]
    · rw [if_neg (by simp [hempty]), if_neg hempty, Option.map_some, ← quoteBytes_take,
        List.take_takeWhile, htake]

/-- The calls with a buffer that the kernel fills. -/
def FILLED : List String :=
  ["read", "pread64", "recvfrom", "readlink", "readlinkat", "getcwd", "getrandom"]

section
variable (info : SyscallInfo) (i : Fin info.args.length) (ev : SyscallEvent)

/-- An address in the buffer that the call has not written to: the returned count is that of the
bytes written, and the argument after the buffer is its size. -/
def Stale (a : ℕ) : Prop :=
  (rawOf info i ev).toNat + ev.retval.toInt.toNat ≤ a ∧
    a < (rawOf info i ev).toNat + (ev.args[i.val + 1]!).toNat ∧ a < 2 ^ 64

/-- No byte that is shown is stale: as much is returned as is shown of the buffer, or there is no
address after what is returned; and no path lies in what is left of the buffer. -/
def Fresh : Prop :=
  (rawOf info i ev = 0 ∨
    min (ev.args[i.val + 1]!).toNat (MAX_STR + 1) ≤ ev.retval.toInt.toNat ∨
    2 ^ 64 ≤ (rawOf info i ev).toNat + ev.retval.toInt.toNat) ∧
  ∀ j, (info.args.get j).ty = .Path → rawOf info j ev = 0 ∨
    ∀ k < MAX_STR + 1, ¬ Stale info i ev (rawOf info j ev + UInt64.ofNat k).toNat

end

variable {info : SyscallInfo} {ev : SyscallEvent}

theorem info_mem {table : List SyscallInfo} (h : ev.info table = some info) : info ∈ table := by
  obtain ⟨nr, -, hrow⟩ := Option.bind_eq_some_iff.mp h
  exact List.mem_of_find?_eq_some hrow

/-- A filled buffer is the only one of its call, and its size is the next argument. -/
theorem filled_row (hinfo : ev.info SYSCALLS = some info) (hname : info.name ∈ FILLED)
    {i : Fin info.args.length} (hbuf : (info.args.get i).ty = .Buf) :
    (∃ h : i.val + 1 < info.args.length, (info.args.get ⟨i.val + 1, h⟩).ty = .Size) ∧
      ∀ j, (info.args.get j).ty = .Buf → j = i := by
  obtain ⟨e, -, rfl⟩ := List.mem_map.mp (info_mem hinfo)
  have hall : ∀ name ∈ FILLED, ∀ i : Fin (Gen.argsOf name).length,
      ((Gen.argsOf name).get i).ty = .Buf →
        (∃ h : i.val + 1 < (Gen.argsOf name).length,
          ((Gen.argsOf name).get ⟨i.val + 1, h⟩).ty = .Size) ∧
        ∀ j, ((Gen.argsOf name).get j).ty = .Buf → j = i := by
    decide +kernel
  exact hall e.2 hname i hbuf

theorem filled_plain (hname : info.name ∈ FILLED) (i : Fin info.args.length)
    (mem : MemoryReader) :
    renderArg info.name info i ev mem = renderTyped info.name info i ev mem := by
  have hconst : Consts.render info.name info i ev = none := by
    simp only [FILLED, List.mem_cons, List.not_mem_nil, or_false] at hname
    rcases hname with h | h | h | h | h | h | h <;> simp [Consts.render, h]
  have hopt : info.name ≠ "setsockopt" := by
    intro h
    simp [FILLED, h] at hname
  rw [renderArg, hconst]
  simp only [hopt, false_and, if_false]

theorem filled_want (hinfo : ev.info SYSCALLS = some info) (hname : info.name ∈ FILLED)
    {i : Fin info.args.length} (hbuf : (info.args.get i).ty = .Buf) :
    bufWant info i ev = min (ev.args[i.val + 1]!).toNat (MAX_STR + 1) := by
  obtain ⟨⟨hlt, hsize⟩, -⟩ := filled_row hinfo hname hbuf
  have hsix := info.sixAtMost
  have hraw : rawOf info ⟨i.val + 1, hlt⟩ ev = ev.args[i.val + 1]! := by
    rw [getElem!_pos ev.args (i.val + 1) (by omega)]
    rfl
  unfold bufWant
  rw [dif_pos hlt, if_pos hsize, hraw]

/-- Memories that differ in stale bytes alone are shown alike if all that is shown is fresh. -/
theorem Fresh.alike (hinfo : ev.info SYSCALLS = some info) (hname : info.name ∈ FILLED)
    {i : Fin info.args.length} (hbuf : (info.args.get i).ty = .Buf) (h : Fresh info i ev)
    (hsame : ∀ a, ¬ Stale info i ev a → mem'.byte a = mem.byte a) :
    decode SYSCALLS ev mem'.reader = decode SYSCALLS ev mem.reader := by
  rw [decode_eq_iff, hinfo]
  rintro _ ⟨⟩ j
  rw [filled_plain hname, filled_plain hname]
  unfold renderTyped
  cases hty : (info.args.get j).ty with
  | Path =>
    have hpath : (readCstr mem'.reader (rawOf info j ev) PATH_CAP).map quoteBytes =
        (readCstr mem.reader (rawOf info j ev) PATH_CAP).map quoteBytes := by
      rw [readCstr_shown, readCstr_shown]
      rcases h.2 j hty with hnull | hfresh
      · rw [if_pos (.inl hnull), if_pos (.inl hnull)]
      · rw [Image.around_congr fun k hk => hsame _ (hfresh k hk)]
    simp only [hpath]
  | Buf =>
    obtain rfl := (filled_row hinfo hname hbuf).2 j hty
    simp only [renderBuf_eq, Image.reader_getD]
    by_cases hnull : rawOf info j ev = 0
    · rw [if_pos hnull, if_pos hnull]
    · have hmapped : mem'.mapped (rawOf info j ev).toNat (bufWant info j ev) =
          mem.mapped (rawOf info j ev).toNat (bufWant info j ev) := by
        apply Image.mapped_congr
        intro k hk
        apply hsame
        rw [filled_want hinfo hname hbuf] at hk
        have hvisible := h.1.resolve_left hnull
        unfold Stale
        omega
      rw [hmapped]
  | _ => rfl

/-- Letters at all addresses but one. -/
def letters (hole : ℕ) : Image where
  byte a := if a < 2 ^ 64 ∧ a ≠ hole then some 97 else none
  top a h := if_neg (by omega)

theorem letters_byte {hole a : ℕ} (ha : a < 2 ^ 64) (hne : a ≠ hole) :
    (letters hole).byte a = some 97 := if_pos ⟨ha, hne⟩

theorem letters_hole (hole : ℕ) : (letters hole).byte hole = none :=
  if_neg fun h => h.2 rfl

theorem letters_mapped {hole addr k : ℕ} (hk : addr + k ≤ hole) (htop : addr + k ≤ 2 ^ 64) :
    (letters hole).mapped addr k = List.replicate k 97 := by
  induction k generalizing addr with
  | zero => rfl
  | succ k ih =>
    rw [Image.mapped_succ (letters_byte (by omega) (by omega)), ih (by omega) (by omega),
      List.replicate_succ]

theorem letters_around {hole : ℕ} {cursor : UInt64} {k : ℕ}
    (h : ∀ j < k, (cursor + UInt64.ofNat j).toNat ≠ hole) :
    (letters hole).around cursor k = List.replicate k 97 := by
  induction k generalizing cursor with
  | zero => rfl
  | succ k ih =>
    have hfirst := h 0 (Nat.succ_pos k)
    have hzero : cursor + UInt64.ofNat 0 = cursor := UInt64.add_zero cursor
    rw [hzero] at hfirst
    rw [Image.around_succ (letters_byte cursor.toNat_lt hfirst), ih, List.replicate_succ]
    intro j hj
    rw [Image.next_add]
    exact h (j + 1) (Nat.succ_lt_succ hj)

theorem bufText_append_ne {l m : List UInt8} (hl : l.length ≤ MAX_STR) (hm : m ≠ []) :
    bufText addr l ≠ bufText addr (l ++ m) := by
  unfold bufText
  rw [if_neg (List.append_ne_nil_of_right_ne_nil l hm)]
  split_ifs with hnil
  · exact fun h => absurd (List.cons.inj h).1 (by decide)
  · intro h
    have hlong := (quoteBytes_append_iff hm).mp h.symm
    omega

/-- A path among letters is shown as they are. -/
theorem path_letters {mem : Image} {k : ℕ} (hnull : addr ≠ 0)
    (h : mem.around addr (MAX_STR + 1) = List.replicate k 97) :
    ((readCstr mem.reader addr PATH_CAP).map quoteBytes).getD (ptrOrNull addr) =
      bufText addr (List.replicate k 97) := by
  rw [readCstr_shown, h, ptrOrNull, if_neg hnull, bufText]
  cases k with
  | zero => simp
  | succ k => simp [hnull]

/-- A letter in place of a stale hole changes nothing else. -/
theorem letters_agree {i : Fin info.args.length} {hole a : ℕ} (hstale : Stale info i ev hole)
    (ha : ¬ Stale info i ev a) : (letters hole).byte a = (letters (2 ^ 64)).byte a := by
  have hne : a ≠ hole := fun heq => ha (heq ▸ hstale)
  by_cases htop : a < 2 ^ 64
  · rw [letters_byte htop hne, letters_byte htop (by omega)]
  · rw [(letters _).top a (by omega), (letters _).top a (by omega)]

/-- A hole right after what is returned shows where the buffer is shown beyond it. -/
theorem buf_differs (hinfo : ev.info SYSCALLS = some info) (hname : info.name ∈ FILLED)
    {i : Fin info.args.length} (hbuf : (info.args.get i).ty = .Buf) (hnull : rawOf info i ev ≠ 0)
    (hshort : ev.retval.toInt.toNat < min (ev.args[i.val + 1]!).toNat (MAX_STR + 1))
    (htop : (rawOf info i ev).toNat + ev.retval.toInt.toNat < 2 ^ 64) :
    renderTyped info.name info i ev
        (letters ((rawOf info i ev).toNat + ev.retval.toInt.toNat)).reader ≠
      renderTyped info.name info i ev (letters (2 ^ 64)).reader := by
  simp only [renderTyped, hbuf, renderBuf_eq, if_neg hnull, Image.reader_getD,
    filled_want hinfo hname hbuf]
  generalize (rawOf info i ev).toNat = start, ev.retval.toInt.toNat = returned at *
  obtain ⟨more, hmore⟩ := Nat.exists_eq_add_of_lt hshort
  have hrun (hole : ℕ) (hle : start + returned ≤ hole) :
      (letters hole).mapped start (returned + (more + 1)) = List.replicate returned 97 ++
        (letters hole).mapped (start + returned) (more + 1) := by
    have hletters := letters_mapped hle htop.le
    rw [Image.mapped_append _ (by rw [hletters, List.length_replicate]), hletters]
  rw [hmore, Nat.add_assoc, hrun _ le_rfl, hrun _ htop.le,
    Image.mapped_none (letters_hole _), List.append_nil]
  apply bufText_append_ne
  · rw [List.length_replicate]
    omega
  · rw [Image.mapped_succ (letters_byte htop (by omega))]
    exact List.cons_ne_nil _ _

/-- A hole among the bytes of a path cuts the path short. -/
theorem path_differs {j : Fin info.args.length} (hty : (info.args.get j).ty = .Path)
    (hnull : rawOf info j ev ≠ 0) {k : ℕ} (hk : k < MAX_STR + 1) :
    renderTyped info.name info j ev
        (letters (rawOf info j ev + UInt64.ofNat k).toNat).reader ≠
      renderTyped info.name info j ev (letters (2 ^ 64)).reader := by
  simp only [renderTyped, hty]
  generalize rawOf info j ev = start at *
  have hbelow (n : ℕ) : (start + UInt64.ofNat n).toNat ≠ 2 ^ 64 :=
    (start + UInt64.ofNat n).toNat_lt.ne
  have hapart (n : ℕ) (hn : n < k) :
      (start + UInt64.ofNat n).toNat ≠ (start + UInt64.ofNat k).toNat := by
    rw [MAX_STR] at hk
    simp only [UInt64.toNat_add, UInt64.toNat_ofNat']
    omega
  have hall := letters_around (k := MAX_STR + 1) fun n _ => hbelow n
  have hcut : (letters (start + UInt64.ofNat k).toNat).around start (MAX_STR + 1) =
      (letters (start + UInt64.ofNat k).toNat).around start k :=
    Image.around_stop hk.le (letters_hole _)
  rw [letters_around hapart] at hcut
  rw [path_letters hnull hall, path_letters hnull hcut]
  obtain ⟨more, hmore⟩ := Nat.exists_eq_add_of_lt hk
  rw [hmore, Nat.add_assoc, List.replicate_add]
  apply bufText_append_ne
  · rw [List.length_replicate]
    omega
  · exact List.cons_ne_nil _ _

/-- What is shown of a stale byte tells memories apart that differ in it alone. -/
theorem exists_differing (hinfo : ev.info SYSCALLS = some info) (hname : info.name ∈ FILLED)
    {i : Fin info.args.length} (hbuf : (info.args.get i).ty = .Buf) (h : ¬ Fresh info i ev) :
    ∃ mem mem' : Image, (∀ a, ¬ Stale info i ev a → mem'.byte a = mem.byte a) ∧
      decode SYSCALLS ev mem'.reader ≠ decode SYSCALLS ev mem.reader := by
  have hshown {hole : ℕ} (j : Fin info.args.length)
      (hne : renderTyped info.name info j ev (letters hole).reader ≠
        renderTyped info.name info j ev (letters (2 ^ 64)).reader) :
      decode SYSCALLS ev (letters hole).reader ≠
        decode SYSCALLS ev (letters (2 ^ 64)).reader := by
    rw [Ne, decode_eq_iff, hinfo]
    intro hsame
    have harg := hsame info rfl j
    rw [filled_plain hname, filled_plain hname] at harg
    exact hne harg
  rw [Fresh, not_and_or] at h
  rcases h with hbuffer | hpath
  · simp only [not_or, not_le] at hbuffer
    obtain ⟨hnull, hshort, htop⟩ := hbuffer
    have hstale : Stale info i ev ((rawOf info i ev).toNat + ev.retval.toInt.toNat) := by
      unfold Stale
      omega
    exact ⟨_, _, fun a => letters_agree hstale,
      hshown i (buf_differs hinfo hname hbuf hnull hshort htop)⟩
  · push Not at hpath
    obtain ⟨j, hty, hnull, k, hk, hstale⟩ := hpath
    exact ⟨_, _, fun a => letters_agree hstale, hshown j (path_differs hty hnull hk)⟩

/-- The text of a call with a buffer that the kernel fills depends on nothing in it beyond what the
call has returned, exactly if all that is shown is fresh. -/
theorem filled_alike_iff (hinfo : ev.info SYSCALLS = some info) (hname : info.name ∈ FILLED)
    {i : Fin info.args.length} (hbuf : (info.args.get i).ty = .Buf) :
    (∀ mem mem' : Image, (∀ a, ¬ Stale info i ev a → mem'.byte a = mem.byte a) →
      decode SYSCALLS ev mem'.reader = decode SYSCALLS ev mem.reader) ↔ Fresh info i ev := by
  constructor
  · intro h
    by_contra hstale
    obtain ⟨mem, mem', hsame, hne⟩ := exists_differing hinfo hname hbuf hstale
    exact hne (h mem mem' hsame)
  · intro h mem mem' hsame
    exact h.alike hinfo hname hbuf hsame

/-- A read of up to five bytes into the page at 4096 that has returned so many. -/
def readEvent (returned : Int64) : SyscallEvent :=
  ⟨7, 7, 0, #v[3, 4096, 5, 0, 0, 0], returned, 0, 0⟩

theorem info_read (returned : Int64) :
    (readEvent returned).info SYSCALLS = some (Gen.row (0, "read")) :=
  info_row 0 rfl (by decide +kernel)

def readBuf : Fin (Gen.row (0, "read")).args.length := ⟨1, by decide +kernel⟩

/-- A read of five bytes that returned one. -/
theorem filled_alike_short :
    (∀ mem mem' : Image, (∀ a, ¬ Stale (Gen.row (0, "read")) readBuf (readEvent 1) a →
        mem'.byte a = mem.byte a) →
      decode SYSCALLS (readEvent 1) mem'.reader = decode SYSCALLS (readEvent 1) mem.reader) ↔
    Fresh (Gen.row (0, "read")) readBuf (readEvent 1) :=
  filled_alike_iff (info_read 1) (by decide +kernel) (by decide +kernel)

/-- Five mapped bytes, of which the first is fixed. -/
def fiveBytes (b : UInt8) : Image where
  byte a := if a = 4096 then some 97 else if a < 4096 ∨ 4101 ≤ a then none else some b
  top a h := by rw [if_neg (by omega), if_pos (by omega)]

/-- A read of one byte shows five. -/
theorem short_read_shows_stale : ¬ ∀ (ev : SyscallEvent) (info : SyscallInfo)
    (i : Fin info.args.length), ev.info SYSCALLS = some info → info.name ∈ FILLED →
      (info.args.get i).ty = .Buf → ∀ mem mem' : Image,
        (∀ a, ¬ Stale info i ev a → mem'.byte a = mem.byte a) →
          decode SYSCALLS ev mem'.reader = decode SYSCALLS ev mem.reader := by
  intro h
  have hname : (Gen.row (0, "read")).name ∈ FILLED := by decide +kernel
  have hstale (a : ℕ) : Stale (Gen.row (0, "read")) readBuf (readEvent 1) a ↔
      4096 + 1 ≤ a ∧ a < 4096 + 5 ∧ a < 2 ^ 64 := Iff.rfl
  have hsame (a : ℕ) (ha : ¬ Stale (Gen.row (0, "read")) readBuf (readEvent 1) a) :
      (fiveBytes 121).byte a = (fiveBytes 120).byte a := by
    rw [hstale] at ha
    simp only [fiveBytes]
    split_ifs with hfirst hout
    · rfl
    · rfl
    · omega
  have htext := h _ _ readBuf (info_read 1) hname (by decide +kernel) _ _ hsame
  rw [decode_eq_iff] at htext
  have harg := htext _ (info_read 1) readBuf
  rw [filled_plain hname, filled_plain hname] at harg
  exact absurd harg (by decide +kernel)

end Syren
