import Syren.Gen.Codegen

/-! What a compiler makes of the generated file: the number of rows and the rows. -/
namespace Syren
open Source

namespace Gen

/-- A variant of an enumeration of the crate. -/
def readVariant {α : Type} (type : String) (variants : List α) (ident : α → String) :
    Value → Option α
  | .path [crate, name, variant] =>
    if crate = "crate".toList ∧ name = type.toList then
      variants.find? fun v => (ident v).toList = variant
    else none
  | _ => none

def readNumber : Value → Option ℕ
  | .number n => some n
  | _ => none

/-- A literal of 32 bits. -/
def readU32 (v : Value) : Option UInt32 := do
  let n ← readNumber v
  if n < 2 ^ 32 then some (UInt32.ofNat n) else none

def readStr : Value → Option String
  | .string text => some (String.ofList text)
  | _ => none

def readSlice : Value → Option (List Value)
  | .slice items => some items
  | _ => none

/-- The fields of a structure of the crate, in the order that is asked for. -/
def readRecord (type : String) (names : List String) : Value → Option (List Value)
  | .record path fields =>
    if path = ["crate".toList, type.toList] ∧ fields.length = names.length then
      names.mapM fun name => fields.lookup name.toList
    else none
  | _ => none

def ARG_TYPES : List ArgType :=
  [.Fd, .Path, .Buf, .Size, .Int, .Uint, .Hex, .Offset, .Flags, .Ptr]

def readArgInfo (v : Value) : Option ArgInfo :=
  match readRecord "ArgInfo" ["name", "ty"] v with
  | some [name, ty] => do
    return ⟨← readStr name, ← readVariant "ArgType" ARG_TYPES ArgType.ident ty⟩
  | _ => none

def readSyscallInfo (v : Value) : Option SyscallInfo :=
  match readRecord "SyscallInfo" ["number", "name", "category", "args"] v with
  | some [number, name, category, args] => do
    let number ← readU32 number
    let name ← readStr name
    let category ← readVariant "Category" Category.ALL Category.ident category
    let args ← (← readSlice args).mapM readArgInfo
    if h : args.length ≤ 6 then some ⟨number, name, category, args, h⟩ else none
  | _ => none

/-- The two items of the file, with their types. -/
def readGenerated (text : List Char) : Option (ℕ × List SyscallInfo) := do
  match ← readText text with
  | [count, table] =>
    if count.kind = "const".toList ∧ count.name = "SYSCALL_COUNT".toList ∧
        count.type = [.word "usize".toList] ∧
        table.kind = "static".toList ∧ table.name = "SYSCALLS".toList ∧
        table.type = [.mark '&', .mark '[', .word "crate".toList, .scope,
          .word "SyscallInfo".toList, .mark ']'] then
      return (← readNumber count.value, ← (← readSlice table.value).mapM readSyscallInfo)
    else none
  | _ => none

def argValue (arg : ArgInfo) : Value := .record ["crate".toList, "ArgInfo".toList]
  [("name".toList, .string arg.name.toList),
    ("ty".toList, .path ["crate".toList, "ArgType".toList, arg.ty.ident.toList])]

def rowValue (info : SyscallInfo) : Value := .record ["crate".toList, "SyscallInfo".toList]
  [("number".toList, .number info.number.toNat), ("name".toList, .string info.name.toList),
    ("category".toList, .path ["crate".toList, "Category".toList, info.category.ident.toList]),
    ("args".toList, .slice (info.args.map argValue))]

theorem writes_arg (arg : ArgInfo) : Writes (argTokens arg) (argValue arg) :=
  writes_record "crate".toList ["ArgInfo".toList]
    (.cons (writes_string arg.name.toList)
      (.last (writes_path "crate".toList ["ArgType".toList, arg.ty.ident.toList])))

theorem writes_args (args : List ArgInfo) :
    Writes (argsTokens args) (.slice (args.map argValue)) :=
  writes_slice (writesItems_intercalate fun arg _ => writes_arg arg)

theorem writes_row (info : SyscallInfo) : Writes (rowTokens info) (rowValue info) := by
  have hargs := @WritesFields.last "args".toList _ _ (writes_args info.args)
  have hcategory := @WritesFields.cons "category".toList _ _ _ _
    (writes_path "crate".toList ["Category".toList, info.category.ident.toList]) hargs
  have hname := @WritesFields.cons "name".toList _ _ _ _ (writes_string info.name.toList) hcategory
  have hnumber := @WritesFields.cons "number".toList _ _ _ _ (writes_number info.number.toNat) hname
  have hrow := writes_record "crate".toList ["SyscallInfo".toList] hnumber
  rw [rowTokens, List.append_assoc]
  exact hrow

theorem readArgInfo_argValue (arg : ArgInfo) : readArgInfo (argValue arg) = some arg := by
  have hfields : readRecord "ArgInfo" ["name", "ty"] (argValue arg) =
      some [.string arg.name.toList,
        .path ["crate".toList, "ArgType".toList, arg.ty.ident.toList]] := rfl
  have hty : readVariant "ArgType" ARG_TYPES ArgType.ident
      (.path ["crate".toList, "ArgType".toList, arg.ty.ident.toList]) = some arg.ty := by
    cases arg.ty <;> rfl
  simp only [readArgInfo, hfields, hty, readStr, String.ofList_toList]
  rfl

theorem readSyscallInfo_rowValue (info : SyscallInfo) :
    readSyscallInfo (rowValue info) = some info := by
  have hfields : readRecord "SyscallInfo" ["number", "name", "category", "args"] (rowValue info) =
      some [.number info.number.toNat, .string info.name.toList,
        .path ["crate".toList, "Category".toList, info.category.ident.toList],
        .slice (info.args.map argValue)] := rfl
  have hcategory : readVariant "Category" Category.ALL Category.ident
      (.path ["crate".toList, "Category".toList, info.category.ident.toList]) =
        some info.category := by
    cases info.category <;> rfl
  have hnumber : readU32 (.number info.number.toNat) = some info.number := by
    simp [readU32, readNumber, info.number.toNat_lt]
  have hargs : (info.args.map argValue).mapM readArgInfo = some info.args := by
    have hround : readArgInfo ∘ argValue = fun arg => pure (id arg) := funext readArgInfo_argValue
    rw [List.mapM_map, hround, List.mapM_pure, List.map_id]
    rfl
  simp only [readSyscallInfo, hfields, hnumber, readStr, String.ofList_toList, hcategory, readSlice,
    Option.bind_eq_bind, Option.bind_some, hargs]
  rw [dif_pos info.sixAtMost]

def COUNT_TYPE : List Token := [.word "usize".toList]

def TABLE_TYPE : List Token := [.mark '&', .mark '[', .word "crate".toList, .scope,
  .word "SyscallInfo".toList, .mark ']']

/-- The tokens of the file up to the number of rows. -/
def countHead : List Token := [.word "pub".toList, .word "const".toList,
  .word "SYSCALL_COUNT".toList, .mark ':', .word "usize".toList, .mark '=']

/-- The tokens between the number of rows and the rows. -/
def tableHead : List Token := [.word "pub".toList, .word "static".toList, .word "SYSCALLS".toList,
  .mark ':', .mark '&', .mark '[', .word "crate".toList, .scope, .word "SyscallInfo".toList,
  .mark ']', .mark '=', .mark '&', .mark '[']

def rowsTokens (table : List SyscallInfo) : List Token :=
  table.flatMap fun info => rowTokens info ++ [.mark ',']

def fileTokens (table : List SyscallInfo) : List Token :=
  countHead ++ [.number table.length, .mark ';'] ++ tableHead ++ rowsTokens table ++
    [.mark ']', .mark ';']

theorem reads_generateSource (plain : Char → Bool) (tbl : List Char) :
    Reads (generateSource plain tbl) (fileTokens (generate tbl)) := by
  have htitle : Reads "// @generated by syren-gen — DO NOT EDIT.\n".toList [] := by decide
  have hsource : Reads
      "// Regenerated from crates/syren-common/data/syscall_64.tbl at build time.\n\n".toList
      [] := by decide
  have hdoc : Reads "/// Number of syscalls known to syren on this ABI.\n".toList [] := by decide
  have hcount : Reads "pub const SYSCALL_COUNT: usize = ".toList countHead := by decide
  have hnumber : Reads (Nat.toDigits 10 (parseTbl tbl).length ++ ";\n\n".toList)
      [.number (parseTbl tbl).length, .mark ';'] :=
    reads_number _ (by decide) (show Reads ";\n\n".toList [.mark ';'] by decide)
  have hdocs : Reads "/// All known syscalls, sorted by syscall number.\n".toList [] := by decide
  have htable : Reads "pub static SYSCALLS: &[crate::SyscallInfo] = &[\n".toList tableHead := by
    decide
  have hrows : Reads ((parseTbl tbl).flatMap (sourceRow plain)) (rowsTokens (generate tbl)) := by
    rw [rowsTokens, generate, List.flatMap_map]
    exact Reads.flatMap fun e _ => reads_sourceRow plain e
  have hclose : Reads "];\n".toList [.mark ']', .mark ';'] := by decide
  have hlength : (generate tbl).length = (parseTbl tbl).length := List.length_map _
  have hall := (((((((htitle.append hsource).append hdoc).append hcount).append hnumber).append
    hdocs).append htable).append hrows).append hclose
  rw [← List.append_assoc (_ ++ _ ++ _ ++ _)] at hall
  rw [fileTokens, hlength]
  exact hall

theorem fileTokens_eq (table : List SyscallInfo) : fileTokens table =
    itemTokens "const".toList "SYSCALL_COUNT".toList COUNT_TYPE [.number table.length] ++
      (itemTokens "static".toList "SYSCALLS".toList TABLE_TYPE
        (.mark '&' :: .mark '[' :: (rowsTokens table ++ [.mark ']'])) ++ []) := by
  have hassoc : rowsTokens table ++ [.mark ']', .mark ';'] =
      rowsTokens table ++ [.mark ']'] ++ [.mark ';'] := (List.append_assoc _ [_] [_]).symm
  rw [List.append_nil, fileTokens, List.append_assoc, hassoc]
  rfl

theorem readText_generateSource (plain : Char → Bool) (tbl : List Char) :
    readText (generateSource plain tbl) = some [
      ⟨"const".toList, "SYSCALL_COUNT".toList, COUNT_TYPE, .number (generate tbl).length⟩,
      ⟨"static".toList, "SYSCALLS".toList, TABLE_TYPE,
        .slice ((generate tbl).map rowValue)⟩] := by
  have hcount : .mark '=' ∉ COUNT_TYPE := by decide
  have htable : .mark '=' ∉ TABLE_TYPE := by decide
  have hrows : Writes (.mark '&' :: .mark '[' :: (rowsTokens (generate tbl) ++ [.mark ']']))
      (.slice ((generate tbl).map rowValue)) :=
    writes_slice (writesItems_flatMap fun info _ => writes_row info)
  have hlength : (fileTokens (generate tbl)).length =
      (rowsTokens (generate tbl)).length + 21 + 1 + 1 := by
    simp [fileTokens, countHead, tableHead]
  rw [readText, (reads_generateSource plain tbl).lex, Option.bind_eq_bind, Option.bind_some,
    hlength, fileTokens_eq]
  refine readModule_itemTokens hcount (writes_number _) (by simp) ?_
  exact readModule_itemTokens htable hrows (by simp) (by rw [readModule])

/-- Whatever the text of the kernel's table is, a compiler takes from the file that is generated
from it the rows of the table and their number. -/
theorem generated_compiles (plain : Char → Bool) (tbl : List Char) :
    readGenerated (generateSource plain tbl) = some ((generate tbl).length, generate tbl) := by
  have hround : readSyscallInfo ∘ rowValue = fun info => pure (id info) :=
    funext readSyscallInfo_rowValue
  have hrows : ((generate tbl).map rowValue).mapM readSyscallInfo = some (generate tbl) := by
    rw [List.mapM_map, hround, List.mapM_pure, List.map_id]
    rfl
  rw [readGenerated, readText_generateSource]
  simp only [Option.bind_eq_bind, Option.bind_some, COUNT_TYPE, TABLE_TYPE, true_and, if_true,
    readNumber, readSlice, hrows]
  rfl

end Gen

end Syren
