import Syren.Gen.Tbl
import Syren.Source.Reader

/-! The Rust source that the build makes of the kernel's table, and that a compiler takes from it
the rows that it was made of. -/
namespace Syren
open Text Source

/-- The identifier of the variant. -/
def Category.ident : Category → String
  | Fs => "Fs"
  | Net => "Net"
  | Memory => "Memory"
  | Process => "Process"
  | Signal => "Signal"
  | Ipc => "Ipc"
  | Time => "Time"
  | Security => "Security"
  | System => "System"
  | Other => "Other"

/-- The identifier of the variant. -/
def ArgType.ident : ArgType → String
  | Fd => "Fd"
  | Path => "Path"
  | Buf => "Buf"
  | Size => "Size"
  | Int => "Int"
  | Uint => "Uint"
  | Hex => "Hex"
  | Offset => "Offset"
  | Flags => "Flags"
  | Ptr => "Ptr"

namespace Gen

section Source

-- The characters that are printable and extend no grapheme.
variable (plain : Char → Bool)

/-- A character of a string in the format `:?`. -/
def debugChar (c : Char) : List Char :=
  if c = '\x00' then ['\\', '0']
  else if c = '\t' then ['\\', 't']
  else if c = '\r' then ['\\', 'r']
  else if c = '\n' then ['\\', 'n']
  else if c = '"' ∨ c = '\\' then ['\\', c]
  else if plain c then [c]
  else '\\' :: 'u' :: '\x7b' :: (Nat.toDigits 16 c.toNat ++ ['\x7d'])

/-- A string in the format `:?`. -/
def debugStr (s : String) : List Char := '"' :: s.toList.flatMap (debugChar plain) ++ ['"']

def renderArg (arg : ArgInfo) : List Char :=
  "crate::ArgInfo \x7b name: ".toList ++ debugStr plain arg.name ++
    ", ty: crate::ArgType::".toList ++ arg.ty.ident.toList ++ " \x7d".toList

def renderArgs (name : String) : List Char :=
  match lookup name with
  | none => "&[]".toList
  | some m =>
    if m.args = [] then "&[]".toList
    else "&[".toList ++ ", ".toList.intercalate (m.args.map (renderArg plain)) ++ [']']

/-- The line of a row. -/
def sourceRow (e : SyscallEntry) : List Char :=
  "    crate::SyscallInfo \x7b number: ".toList ++ dec e.number.toNat ++ ", name: ".toList ++
    debugStr plain e.name ++ ", category: crate::Category::".toList ++
    (categorize e.name).ident.toList ++ ", args: ".toList ++ renderArgs plain e.name ++
    " \x7d,\n".toList

/-- The generated file. -/
def generateSource (tbl : List Char) : List Char :=
  let entries := parseTbl tbl
  "// @generated by syren-gen — DO NOT EDIT.\n".toList ++
    "// Regenerated from crates/syren-common/data/syscall_64.tbl at build time.\n\n".toList ++
    "/// Number of syscalls known to syren on this ABI.\n".toList ++
    "pub const SYSCALL_COUNT: usize = ".toList ++ dec entries.length ++ ";\n\n".toList ++
    "/// All known syscalls, sorted by syscall number.\n".toList ++
    "pub static SYSCALLS: &[crate::SyscallInfo] = &[\n".toList ++
    entries.flatMap (sourceRow plain) ++ "];\n".toList

end Source

section Tokens

def argTokens (arg : ArgInfo) : List Token := [.word "crate".toList, .scope,
  .word "ArgInfo".toList, .mark '\x7b', .word "name".toList, .mark ':', .string arg.name.toList,
  .mark ',', .word "ty".toList, .mark ':', .word "crate".toList, .scope, .word "ArgType".toList,
  .scope, .word arg.ty.ident.toList, .mark '\x7d']

def argsTokens (args : List ArgInfo) : List Token :=
  .mark '&' :: .mark '[' :: ([.mark ','].intercalate (args.map argTokens) ++ [.mark ']'])

def rowTokens (info : SyscallInfo) : List Token :=
  [.word "crate".toList, .scope, .word "SyscallInfo".toList, .mark '\x7b', .word "number".toList,
    .mark ':', .number info.number.toNat, .mark ',', .word "name".toList, .mark ':',
    .string info.name.toList, .mark ',', .word "category".toList, .mark ':', .word "crate".toList,
    .scope, .word "Category".toList, .scope, .word info.category.ident.toList, .mark ',',
    .word "args".toList, .mark ':'] ++ argsTokens info.args ++ [.mark '\x7d']

variable (plain : Char → Bool)

theorem escapes_debugChar : Escapes (debugChar plain) := by
  intro c text before
  unfold debugChar
  split_ifs with hzero htab hreturn hnewline hshort hplain
  · subst hzero
    rfl
  · subst htab
    rfl
  · subst hreturn
    rfl
  · subst hnewline
    rfl
  · rcases hshort with rfl | rfl <;> rfl
  · obtain ⟨hquote, hslash⟩ := not_or.mp hshort
    simp [Lexer.next, hquote, hslash, hreturn]
  · have hdigit : ∀ k d, d < 16 → Lexer.next ⟨.unicode text k, before⟩ d.digitChar =
        some ⟨.unicode text (k * 16 + d), before⟩ := by
      intro k d hd
      have hne : d.digitChar ≠ '\x7d' := Nat.digitChar_ne '\x7d' (by decide)
      simp [Lexer.next, hne, Layout.hexValue_digitChar hd]
    have hread := Layout.foldlM_toDigits (by decide) hdigit c.toNat
    have hvalid : c.toNat.isValidChar := c.valid
    show ((Nat.toDigits 16 c.toNat) ++ ['\x7d']).foldlM Lexer.next ⟨.unicode text 0, before⟩ = _
    rw [List.foldlM_append, hread]
    simp [Lexer.next, hvalid]

theorem reads_debugStr (s : String) : Reads (debugStr plain s) [.string s.toList] :=
  reads_string (escapes_debugChar plain) s.toList

theorem reads_renderArg (arg : ArgInfo) : Reads (renderArg plain arg) (argTokens arg) := by
  have hopen : Reads "crate::ArgInfo \x7b name: ".toList [.word "crate".toList, .scope,
      .word "ArgInfo".toList, .mark '\x7b', .word "name".toList, .mark ':'] := by decide
  have hmiddle : Reads ", ty: crate::ArgType::".toList [.mark ',', .word "ty".toList, .mark ':',
      .word "crate".toList, .scope, .word "ArgType".toList, .scope] := by decide
  have hident : IsWord arg.ty.ident.toList := by cases arg.ty <;> decide
  have hclose : Reads (arg.ty.ident.toList ++ " \x7d".toList)
      [.word arg.ty.ident.toList, .mark '\x7d'] :=
    reads_word hident (by decide) (show Reads " \x7d".toList _ by decide)
  have hall := ((hopen.append (reads_debugStr plain arg.name)).append hmiddle).append hclose
  rwa [← List.append_assoc] at hall

theorem reads_renderArgs (name : String) :
    Reads (renderArgs plain name) (argsTokens (argsOf name)) := by
  have hnone : Reads "&[]".toList [.mark '&', .mark '[', .mark ']'] := by decide
  unfold renderArgs argsOf
  cases lookup name with
  | none => exact hnone
  | some m =>
    dsimp only
    split_ifs with hargs
    · rw [hargs]
      exact hnone
    · have hopen : Reads "&[".toList [.mark '&', .mark '['] := by decide
      have hsep : Reads ", ".toList [.mark ','] := by decide
      have hclose : Reads [']'] [.mark ']'] := by decide
      exact (hopen.append (hsep.intercalate fun arg _ => reads_renderArg plain arg)).append hclose

theorem reads_sourceRow (e : SyscallEntry) :
    Reads (sourceRow plain e) (rowTokens (row (e.number, e.name)) ++ [.mark ',']) := by
  have hopen : Reads "    crate::SyscallInfo \x7b number: ".toList [.word "crate".toList, .scope,
      .word "SyscallInfo".toList, .mark '\x7b', .word "number".toList, .mark ':'] := by decide
  have hname : Reads ", name: ".toList [.mark ',', .word "name".toList, .mark ':'] := by decide
  have hnumber : Reads (dec e.number.toNat ++ ", name: ".toList)
      [.number e.number.toNat, .mark ',', .word "name".toList, .mark ':'] :=
    reads_number _ (by decide) hname
  have hcategory : Reads ", category: crate::Category::".toList [.mark ',',
      .word "category".toList, .mark ':', .word "crate".toList, .scope, .word "Category".toList,
      .scope] := by decide
  have hargs : Reads ", args: ".toList [.mark ',', .word "args".toList, .mark ':'] := by decide
  have hident : IsWord (categorize e.name).ident.toList := by
    cases categorize e.name <;> decide
  have hvariant : Reads ((categorize e.name).ident.toList ++ ", args: ".toList)
      [.word (categorize e.name).ident.toList, .mark ',', .word "args".toList, .mark ':'] :=
    reads_word hident (by decide) hargs
  have hclose : Reads " \x7d,\n".toList [.mark '\x7d', .mark ','] := by decide
  have hall := (((((hopen.append hnumber).append (reads_debugStr plain e.name)).append
    hcategory).append hvariant).append (reads_renderArgs plain e.name)).append hclose
  simp only [← List.append_assoc] at hall
  rw [rowTokens, List.append_assoc]
  exact hall

end Tokens

end Gen

end Syren
