import Syren.Decode.Decode
import Syren.Gen.Syscalls
import Syren.Layout.Fields

/-! The text of a decoded argument is one field of its line: outside of quotes it has no quote, no
comma and no parenthesis, and what is in quotes is escaped. -/
namespace Syren
open Text Layout

/-- A text without quotes and separators. -/
structure Word (text : List Char) : Prop where
  nonempty : text ≠ []
  bare : ∀ c ∈ text, Bare c

theorem Word.isField {text : List Char} (h : Word text) : IsField text :=
  isField_bare h.nonempty h.bare

theorem Word.append {s t : List Char} (hs : Word s) (ht : ∀ c ∈ t, Bare c) : Word (s ++ t) where
  nonempty := List.append_ne_nil_of_left_ne_nil hs.nonempty t
  bare c hc := (List.mem_append.mp hc).elim (hs.bare c) (ht c)

theorem word_intercalate {texts : List (List Char)} (hne : texts ≠ [])
    (h : ∀ text ∈ texts, Word text) : Word (['|'].intercalate texts) := by
  induction texts with
  | nil => contradiction
  | cons text texts ih =>
    have htext := h text List.mem_cons_self
    by_cases hlast : texts = []
    · subst hlast
      rwa [List.intercalate_singleton]
    · have hrest := ih hlast fun t ht => h t (List.mem_cons_of_mem text ht)
      have hbar : Bare '|' := by
        unfold Bare
        decide
      rw [List.intercalate_cons_of_ne_nil hlast, List.append_assoc]
      refine htext.append fun c hc => ?_
      rcases List.mem_cons.mp hc with rfl | hc
      · exact hbar
      · exact hrest.bare c hc

/-- A string whose UTF-8 encoding has none of some bytes, and is not empty. -/
def Lacks (bytes : List UInt8) (s : String) : Prop :=
  s.toByteArray.data.toList ≠ [] ∧ ∀ b ∈ bytes, b ∉ s.toByteArray.data.toList

instance (bytes : List UInt8) (s : String) : Decidable (Lacks bytes s) :=
  @instDecidableAnd _ _ inferInstance
    (List.decidableBAll (fun b => b ∉ s.toByteArray.data.toList) bytes)

theorem bytes_toList (s : String) :
    s.toByteArray.data.toList = s.toList.flatMap String.utf8EncodeChar := by
  rw [← String.utf8Encode_toList, List.utf8Encode, List.toList_data_toByteArray]

theorem Lacks.nonempty {bytes : List UInt8} {s : String} (h : Lacks bytes s) : s.toList ≠ [] := by
  intro hs
  have hne := h.1
  rw [bytes_toList, hs] at hne
  exact hne rfl

theorem Lacks.notMem {bytes : List UInt8} {s : String} (h : Lacks bytes s) {c : Char} {b : UInt8}
    (hb : b ∈ bytes) (hc : String.utf8EncodeChar c = [b]) : c ∉ s.toList := by
  intro hmem
  apply h.2 b hb
  rw [bytes_toList]
  exact List.mem_flatMap_of_mem hmem (hc ▸ List.mem_singleton_self b)

/-- The quote, the comma and the closing parenthesis. -/
def SEPARATORS : List UInt8 := [34, 44, 41]

theorem Lacks.word {s : String} (h : Lacks SEPARATORS s) : Word s.toList where
  nonempty := h.nonempty
  bare c hc := by
    refine ⟨?_, ?_, ?_⟩
    · rintro rfl
      exact h.notMem (b := 34) (by decide) (by decide) hc
    · rintro rfl
      exact h.notMem (b := 44) (by decide) (by decide) hc
    · rintro rfl
      exact h.notMem (b := 41) (by decide) (by decide) hc

theorem word_toDigits {b : ℕ} (hlow : 1 < b) (n : ℕ) : Word (Nat.toDigits b n) where
  nonempty := Nat.toDigits_ne_nil
  bare c hc := by
    have hne {d : Char} (hd : ∀ n : ℕ, n.digitChar ≠ d) : c ≠ d := by
      rintro rfl
      exact notMem_toDigits hlow hd n hc
    exact ⟨hne fun _ => Nat.digitChar_ne '"' (by decide),
      hne fun _ => Nat.digitChar_ne ',' (by decide), hne fun _ => Nat.digitChar_ne ')' (by decide)⟩

theorem word_dec (n : ℕ) : Word (dec n) := word_toDigits (by decide) n

theorem Word.cons {c : Char} {text : List Char} (hc : Bare c) (h : Word text) : Word (c :: text) :=
  ⟨List.cons_ne_nil c text, fun d hd => (List.mem_cons.mp hd).elim (fun he => he ▸ hc) (h.bare d)⟩

theorem word_hex (n : ℕ) : Word (hex n) := by
  have hlead : Bare '0' ∧ Bare 'x' := by
    unfold Bare
    decide
  exact (Word.cons hlead.2 (word_toDigits (by decide) n)).cons hlead.1

theorem word_decInt (n : ℤ) : Word (decInt n) := by
  have hminus : Bare '-' := by
    unfold Bare
    decide
  unfold decInt
  split_ifs
  · exact (word_dec _).cons hminus
  · exact word_dec _

/-- What is found in a table of words is a word. -/
theorem word_found {α : Type*} {names : List (α × String)}
    (h : ∀ p ∈ names, Lacks SEPARATORS p.2) (found : α × String → Bool) :
    ∀ text ∈ ((names.find? found).map (·.2)).map String.toList, Word text := by
  intro text htext
  simp only [Option.map_map, Option.mem_def, Option.map_eq_some_iff] at htext
  obtain ⟨p, hp, rfl⟩ := htext
  exact (h p (List.mem_of_find?_eq_some hp)).word

namespace Consts

theorem word_named {names : List (UInt64 × String)} (h : ∀ p ∈ names, Lacks SEPARATORS p.2)
    (value : UInt64) : ∀ text ∈ (named value names).map String.toList, Word text :=
  word_found h _

theorem word_socketType (value : UInt64) : ∀ text ∈ socketType value, Word text := by
  intro text htext
  obtain ⟨name, hname, rfl⟩ := Option.map_eq_some_iff.mp htext
  have hbase := word_named (by decide) _ name.toList (Option.mem_map_of_mem _ hname)
  have hflags : (∀ c ∈ "|SOCK_CLOEXEC".toList, Bare c) ∧ ∀ c ∈ "|SOCK_NONBLOCK".toList, Bare c :=
    ⟨(Lacks.word (by decide)).bare, (Lacks.word (by decide)).bare⟩
  refine (hbase.append ?_).append ?_
  · split_ifs
    · exact hflags.1
    · simp
  · split_ifs
    · exact hflags.2
    · simp

theorem word_protocol (family value : UInt64) :
    ∀ text ∈ (protocol family value).map String.toList, Word text := by
  unfold protocol
  split_ifs
  · exact word_named (by decide) _
  · simp

theorem word_sockoptName (level value : UInt64) :
    ∀ text ∈ (sockoptName level value).map String.toList, Word text := by
  unfold sockoptName
  split_ifs
  · exact word_named (by decide) _
  · exact word_named (by decide) _
  · exact word_named (by decide) _
  · exact word_named (by decide) _
  · simp

theorem word_render (syscall : String) (info : SyscallInfo) (i : Fin info.args.length)
    (ev : SyscallEvent) : ∀ text ∈ render syscall info i ev, Word text := by
  unfold render
  dsimp only
  split_ifs
  · exact word_named (by decide) _
  · exact word_socketType _
  · exact word_protocol _ _
  · exact word_named (by decide) _
  · exact word_sockoptName _ _
  · exact word_found (by decide) _
  · simp

end Consts

namespace Flags

/-- The names of a set of flags are words. -/
def NamesWords (set : List Flag) : Prop := ∀ f ∈ set, Lacks SEPARATORS f.name

instance (set : List Flag) : Decidable (NamesWords set) := by
  unfold NamesWords
  infer_instance

variable {set : List Flag}

theorem word_decodeBits (h : NamesWords set) (value : UInt64) :
    ∀ text ∈ decodeBits set value, Word text := by
  intro text htext
  obtain ⟨f, hf, rfl⟩ := List.mem_map.mp htext
  exact (h f (List.mem_filter.mp hf).1).word

theorem bare_bar : Bare '|' := by
  unfold Bare
  decide

theorem word_join {lead : List Char} (hlead : Word lead) {rest : List (List Char)}
    (hrest : ∀ text ∈ rest, Word text) (masked : UInt64) : Word (join lead rest masked set) := by
  refine (hlead.append fun c hc => ?_).append fun c hc => ?_
  · obtain ⟨text, htext, hc⟩ := List.mem_flatMap.mp hc
    exact ((hrest text htext).cons bare_bar).bare c hc
  · split_ifs at hc
    · exact ((word_hex _).cons bare_bar).bare c hc
    · cases hc

theorem word_renderSet (h : NamesWords set) {zero : List Char} (hzero : Word zero)
    (value : UInt64) : Word (renderSet set value zero) := by
  unfold renderSet
  dsimp only
  split_ifs with _ hnone
  · exact hzero
  · exact word_hex _
  · exact word_intercalate hnone (word_decodeBits h value)
  · exact (word_intercalate hnone (word_decodeBits h value)).append
      ((word_hex _).cons bare_bar).bare

theorem word_renderOpen (value : UInt64) : Word (renderOpen value) := by
  unfold renderOpen
  apply word_join
  · apply Lacks.word
    split_ifs <;> decide
  · exact word_decodeBits (by decide) _

theorem word_renderMap (value : UInt64) : Word (renderMap value) := by
  have hnames : NamesWords MAP_FLAGS := by decide
  unfold renderMap
  dsimp only
  split
  next kind hkind =>
    apply word_join
    · apply Lacks.word
      split_ifs at hkind <;> cases hkind <;> decide
    · exact word_decodeBits hnames _
  next => exact word_renderSet hnames (Lacks.word (by decide)) _

theorem word_render (syscall arg : String) (value : UInt64) :
    ∀ text ∈ render syscall arg value, Word text := by
  have hnames : NamesWords PROT_FLAGS := by decide
  have hnone : Word "PROT_NONE".toList := Lacks.word (by decide)
  unfold render
  split_ifs
  · simpa using word_renderOpen value
  · simpa using word_renderSet hnames hnone value
  · simpa using word_renderMap value
  · simp

end Flags

namespace Render

theorem advance_quoteByte (b : UInt8) :
    (quoteByte b).foldlM Place.next .quoted = some .quoted := by
  have hall : ∀ n : Fin 256,
      (quoteByte (UInt8.ofFin n)).foldlM Place.next .quoted = some .quoted := by decide +kernel
  simpa using hall b.toFin

/-- Whatever the bytes are, their quoted text is one field. -/
theorem isField_quoteBytes (bytes : List UInt8) : IsField (quoteBytes bytes) := by
  refine isField_quoted (bytes.take MAX_STR) advance_quoteByte fun c hc => ?_
  split_ifs at hc
  · have hdots : Bare '.' := by
      unfold Bare
      decide
    have heq : c = '.' := by simpa using hc
    exact heq ▸ hdots
  · cases hc

end Render

section Arguments

variable (info : SyscallInfo) (i : Fin info.args.length) (ev : SyscallEvent) (mem : MemoryReader)

theorem word_renderFd (value : UInt64) : Word (renderFd value) := by
  unfold renderFd
  dsimp only
  split_ifs
  · exact Lacks.word (by decide)
  · exact word_decInt _

theorem word_ptrOrNull (value : UInt64) : Word (ptrOrNull value) := by
  unfold ptrOrNull
  split_ifs
  · exact Lacks.word (by decide)
  · exact word_hex _

theorem isField_renderBuf : IsField (renderBuf info i ev mem) := by
  unfold renderBuf
  dsimp only
  split_ifs
  · exact (Lacks.word (by decide)).isField
  · split
    · split_ifs
      · exact (word_hex _).isField
      · exact Render.isField_quoteBytes _
    · exact (word_hex _).isField

theorem word_renderSockoptOptval : Word (renderSockoptOptval ev mem) := by
  have hbrackets : Bare '[' ∧ Bare ']' := by
    unfold Bare
    decide
  unfold renderSockoptOptval
  dsimp only
  split_ifs
  · exact Lacks.word (by decide)
  · split
    · split_ifs
      · exact ((word_decInt _).cons hbrackets.1).append (by simpa using hbrackets.2)
      · exact word_hex _
    · exact word_hex _
  · exact word_hex _

/-- Every type of argument is shown by one field. -/
theorem isField_renderTyped (syscall : String) : IsField (renderTyped syscall info i ev mem) := by
  unfold renderTyped
  dsimp only
  split
  · exact (word_renderFd _).isField
  · cases Render.readCstr mem (rawOf info i ev) Render.PATH_CAP with
    | none => exact (word_ptrOrNull _).isField
    | some bytes => exact Render.isField_quoteBytes bytes
  · exact isField_renderBuf info i ev mem
  · exact (word_dec _).isField
  · exact (word_dec _).isField
  · exact (word_decInt _).isField
  · exact (word_decInt _).isField
  · exact (word_hex _).isField
  · cases hflags : Flags.render syscall (info.args.get i).name (rawOf info i ev) with
    | none => exact (word_hex _).isField
    | some text => exact (Flags.word_render _ _ _ text hflags).isField
  · exact (word_ptrOrNull _).isField

theorem isField_renderArg (syscall : String) : IsField (renderArg syscall info i ev mem) := by
  unfold renderArg
  split
  next text htext => exact (Consts.word_render _ _ _ _ text htext).isField
  next =>
    split_ifs
    · exact (word_renderSockoptOptval ev mem).isField
    · exact isField_renderTyped info i ev mem syscall

end Arguments

/-- Whatever the registers and the memory hold, every decoded argument is one field. -/
theorem isField_decode (table : List SyscallInfo) (ev : SyscallEvent) (mem : MemoryReader) :
    ∀ a ∈ (decode table ev mem).args, IsField a.value := by
  have hraw : ∀ a ∈ decodeRaw ev, IsField a.value := by
    intro a ha
    obtain ⟨raw, -, rfl⟩ := List.mem_map.mp ha
    exact (word_hex _).isField
  unfold decode
  dsimp only
  split
  next info _ =>
    split_ifs
    · exact hraw
    · intro a ha
      obtain ⟨i, -, rfl⟩ := List.mem_map.mp ha
      exact isField_renderArg info i ev mem info.name
  next => exact hraw

/-- The space, the percent sign, the opening parenthesis, the plus, the comma, the minus and the
equals sign. -/
def PUNCTUATION : List UInt8 := [32, 37, 40, 43, 44, 45, 61]

/-- A table whose names have no punctuation. -/
def AllNames (table : List SyscallInfo) : Prop := ∀ info ∈ table, Lacks PUNCTUATION info.name

theorem names_SYSCALLS : AllNames SYSCALLS := by
  have hall : ∀ e ∈ Gen.ENTRIES, Lacks PUNCTUATION e.2 := by decide +kernel
  intro info hinfo
  obtain ⟨e, he, rfl⟩ := List.mem_map.mp hinfo
  exact hall e he

end Syren
