import Syren.Decode.Decode
import Syren.Gen.Syscalls
import Syren.Layout.Sgr

/-! The texts of a decoded call are printable, whatever the memory of the traced process holds. -/
namespace Syren
open Text Layout

theorem clean_toDigits {b : ℕ} (hlow : 1 < b) (hb : b ≤ 16) (n : ℕ) : Clean (Nat.toDigits b n) := by
  have hall : ∀ d : Fin 16, Printable (Nat.digitChar d) := by decide
  intro c hc
  obtain ⟨d, hd, rfl⟩ := mem_toDigits hlow hc
  exact hall ⟨d, by omega⟩

@[simp] theorem clean_dec (n : ℕ) : Clean (dec n) := clean_toDigits (by decide) (by decide) n

@[simp] theorem clean_hex (n : ℕ) : Clean (hex n) := by
  simpa [hex] using ⟨by decide, by decide, clean_toDigits (by decide) (by decide) n⟩

@[simp] theorem clean_decInt (n : ℤ) : Clean (decInt n) := by
  unfold decInt
  split_ifs
  · simpa using show Printable '-' by decide
  · exact clean_dec _

namespace Render

theorem clean_quoteByte (b : UInt8) : Clean (quoteByte b) := by
  have hall : ∀ n : Fin 256, Clean (quoteByte (UInt8.ofFin n)) := by decide +kernel
  simpa using hall b.toFin

/-- Whatever the bytes are, what is shown of them is printable. -/
theorem clean_quoteBytes (bytes : List UInt8) : Clean (quoteBytes bytes) := by
  have hquote : Printable '"' := by decide
  have hdots : Clean (if bytes.length > MAX_STR then ['.', '.', '.'] else []) := by
    split_ifs <;> decide
  have hbytes := clean_flatMap fun b (_ : b ∈ bytes.take MAX_STR) => clean_quoteByte b
  simp [quoteBytes, hquote, hdots, hbytes]

end Render

/-- What is found in a table of printable names is printable. -/
theorem clean_found {α : Type*} {names : List (α × String)} (h : ∀ p ∈ names, Visible p.2)
    (found : α × String → Bool) :
    ∀ text ∈ ((names.find? found).map (·.2)).map String.toList, Clean text := by
  intro text htext
  simp only [Option.map_map, Option.mem_def, Option.map_eq_some_iff] at htext
  obtain ⟨p, hp, rfl⟩ := htext
  exact (h p (List.mem_of_find?_eq_some hp)).clean

namespace Consts

theorem clean_named {names : List (UInt64 × String)} (h : ∀ p ∈ names, Visible p.2)
    (value : UInt64) : ∀ text ∈ (named value names).map String.toList, Clean text :=
  clean_found h _

theorem clean_socketType (value : UInt64) : ∀ text ∈ socketType value, Clean text := by
  intro text htext
  obtain ⟨name, hname, rfl⟩ := Option.map_eq_some_iff.mp htext
  have hbase := clean_named (by decide) _ name.toList (Option.mem_map_of_mem _ hname)
  simp only [clean_append]
  refine ⟨⟨hbase, ?_⟩, ?_⟩ <;> split_ifs <;> decide

theorem clean_protocol (family value : UInt64) :
    ∀ text ∈ (protocol family value).map String.toList, Clean text := by
  unfold protocol
  split_ifs
  · exact clean_named (by decide) _
  · simp

theorem clean_sockoptName (level value : UInt64) :
    ∀ text ∈ (sockoptName level value).map String.toList, Clean text := by
  unfold sockoptName
  split_ifs
  · exact clean_named (by decide) _
  · exact clean_named (by decide) _
  · exact clean_named (by decide) _
  · exact clean_named (by decide) _
  · simp

end Consts

theorem clean_signalName (sig : Int32) :
    ∀ text ∈ (signalName sig).map String.toList, Clean text :=
  clean_found (by decide) _

theorem Consts.clean_render (syscall : String) (info : SyscallInfo) (i : Fin info.args.length)
    (ev : SyscallEvent) : ∀ text ∈ render syscall info i ev, Clean text := by
  unfold render
  dsimp only
  split_ifs
  · exact clean_named (by decide) _
  · exact clean_socketType _
  · exact clean_protocol _ _
  · exact clean_named (by decide) _
  · exact clean_sockoptName _ _
  · exact clean_signalName _
  · simp

namespace Flags

/-- The names of a set of flags are printable. -/
def NamesVisible (set : List Flag) : Prop := ∀ f ∈ set, Visible f.name

instance (set : List Flag) : Decidable (NamesVisible set) := by
  unfold NamesVisible
  infer_instance

variable {set : List Flag}

theorem clean_decodeBits (h : NamesVisible set) (value : UInt64) :
    ∀ text ∈ decodeBits set value, Clean text := by
  intro text htext
  obtain ⟨f, hf, rfl⟩ := List.mem_map.mp htext
  exact (h f (List.mem_filter.mp hf).1).clean

theorem clean_join {lead : List Char} (hlead : Clean lead) {rest : List (List Char)}
    (hrest : ∀ text ∈ rest, Clean text) (masked : UInt64) : Clean (join lead rest masked set) := by
  have hbar : Printable '|' := by decide
  unfold join
  simp only [clean_append]
  refine ⟨⟨hlead, clean_flatMap fun text ht => clean_cons.mpr ⟨hbar, hrest text ht⟩⟩, ?_⟩
  split_ifs <;> simp [hbar]

theorem clean_renderSet (h : NamesVisible set) {zero : List Char} (hzero : Clean zero)
    (value : UInt64) : Clean (renderSet set value zero) := by
  have hbar : Printable '|' := by decide
  have hnames : Clean (['|'].intercalate (decodeBits set value)) :=
    clean_intercalate (by simpa using hbar) (clean_decodeBits h value)
  unfold renderSet
  dsimp only
  split_ifs
  · exact hzero
  · exact clean_hex _
  · exact hnames
  · simp [hnames, hbar]

theorem clean_renderOpen (value : UInt64) : Clean (renderOpen value) := by
  unfold renderOpen
  apply clean_join
  · split_ifs <;> decide
  · exact clean_decodeBits (by decide) _

theorem clean_renderMap (value : UInt64) : Clean (renderMap value) := by
  have hnames : NamesVisible MAP_FLAGS := by decide
  unfold renderMap
  dsimp only
  split
  next kind hkind =>
    apply clean_join
    · split_ifs at hkind <;> cases hkind <;> decide
    · exact clean_decodeBits hnames _
  next => exact clean_renderSet hnames (by decide) _

theorem clean_render (syscall arg : String) (value : UInt64) :
    ∀ text ∈ render syscall arg value, Clean text := by
  unfold render
  split_ifs
  · simpa using clean_renderOpen value
  · simpa using clean_renderSet (by decide) (by decide) value
  · simpa using clean_renderMap value
  · simp

end Flags

section Arguments

variable (info : SyscallInfo) (i : Fin info.args.length) (ev : SyscallEvent) (mem : MemoryReader)

theorem clean_renderFd (value : UInt64) : Clean (renderFd value) := by
  unfold renderFd
  dsimp only
  split_ifs
  · decide
  · exact clean_decInt _

theorem clean_ptrOrNull (value : UInt64) : Clean (ptrOrNull value) := by
  unfold ptrOrNull
  split_ifs
  · decide
  · exact clean_hex _

theorem clean_renderBuf : Clean (renderBuf info i ev mem) := by
  unfold renderBuf
  dsimp only
  split_ifs
  · decide
  · split
    · split_ifs
      · exact clean_hex _
      · exact Render.clean_quoteBytes _
    · exact clean_hex _

theorem clean_renderSockoptOptval : Clean (renderSockoptOptval ev mem) := by
  unfold renderSockoptOptval
  dsimp only
  split_ifs
  · decide
  · split
    · split_ifs
      · exact clean_append.mpr ⟨clean_cons.mpr ⟨by decide, clean_decInt _⟩, by decide⟩
      · exact clean_hex _
    · exact clean_hex _
  · exact clean_hex _

/-- Every type of argument is shown by printable characters. -/
theorem clean_renderTyped (syscall : String) : Clean (renderTyped syscall info i ev mem) := by
  unfold renderTyped
  dsimp only
  split
  · exact clean_renderFd _
  · cases Render.readCstr mem (rawOf info i ev) Render.PATH_CAP with
    | none => exact clean_ptrOrNull _
    | some bytes => exact Render.clean_quoteBytes bytes
  · exact clean_renderBuf info i ev mem
  · exact clean_dec _
  · exact clean_dec _
  · exact clean_decInt _
  · exact clean_decInt _
  · exact clean_hex _
  · cases hflags : Flags.render syscall (info.args.get i).name (rawOf info i ev) with
    | none => exact clean_hex _
    | some text => exact Flags.clean_render _ _ _ text hflags
  · exact clean_ptrOrNull _

theorem clean_renderArg (syscall : String) : Clean (renderArg syscall info i ev mem) := by
  unfold renderArg
  split
  next text htext => exact Consts.clean_render _ _ _ _ text htext
  next =>
    split_ifs
    · exact clean_renderSockoptOptval ev mem
    · exact clean_renderTyped info i ev mem syscall

end Arguments

/-- The names of a table are printable. -/
def AllVisible (table : List SyscallInfo) : Prop := ∀ info ∈ table, Visible info.name

theorem visible_SYSCALLS : AllVisible SYSCALLS := by
  have hall : ∀ e ∈ Gen.ENTRIES, Visible e.2 := by decide +kernel
  intro info hinfo
  obtain ⟨e, he, rfl⟩ := List.mem_map.mp hinfo
  exact hall e he

theorem clean_syscallName {table : List SyscallInfo} (h : AllVisible table) (nr : UInt64) :
    Clean (syscallName table nr) := by
  unfold syscallName
  split
  next info hinfo =>
    obtain ⟨number, -, hrow⟩ := Option.bind_eq_some_iff.mp hinfo
    exact (h info (List.mem_of_find?_eq_some hrow)).clean
  next => exact clean_append.mpr ⟨by decide, clean_dec _⟩

theorem clean_errno (code : Int32) : ∀ e ∈ errno code,
    Clean e.name.toList ∧ Clean e.description.toList := by
  have hall : ∀ p ∈ ERRNOS, Visible p.2.1 ∧ Visible p.2.2 := by decide +kernel
  intro e he
  simp only [errno, nameAndDesc, Option.map_map, Option.mem_def, Option.map_eq_some_iff] at he
  obtain ⟨p, hp, rfl⟩ := he
  obtain ⟨hname, hdesc⟩ := hall p (List.mem_of_find?_eq_some hp)
  exact ⟨hname.clean, hdesc.clean⟩

/-- The texts of a decoded call are printable. -/
structure CleanCall (s : DecodedSyscall) : Prop where
  name : Clean s.name
  args : ∀ a ∈ s.args, Clean a.value
  error : ∀ e ∈ s.error, Clean e.name.toList ∧ Clean e.description.toList

/-- Whatever the memory of the traced process holds, the texts of its calls are printable. -/
theorem cleanCall_decode {table : List SyscallInfo} (h : AllVisible table) (ev : SyscallEvent)
    (mem : MemoryReader) : CleanCall (decode table ev mem) where
  name := clean_syscallName h _
  args := by
    have hraw : ∀ a ∈ decodeRaw ev, Clean a.value := by simp [decodeRaw]
    unfold decode
    dsimp only
    split
    next info _ =>
      split_ifs
      · exact hraw
      · simpa [decodeTyped] using fun i => clean_renderArg info i ev mem info.name
    next => exact hraw
  error := by
    intro e he
    simp only [decode, Option.mem_def, Option.map_eq_some_iff, Option.bind_eq_some_iff] at he
    obtain ⟨d, ⟨code, -, hd⟩, rfl⟩ := he
    exact clean_errno code d hd

theorem CleanCall.retvalStr {s : DecodedSyscall} (h : CleanCall s) : Clean s.retvalStr := by
  unfold DecodedSyscall.retvalStr
  split
  next e he =>
    obtain ⟨hname, hdesc⟩ := h.error e he
    simp only [clean_append]
    exact ⟨⟨⟨⟨by decide, hname⟩, by decide⟩, hdesc⟩, by decide⟩
  next =>
    split_ifs
    · exact clean_hex _
    · exact clean_decInt _

end Syren
