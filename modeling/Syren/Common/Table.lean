import Mathlib.Algebra.Group.Nat.Defs
import Mathlib.Tactic.Common
import Syren.Common.Text

/-! The rows of the syscall table and the look-ups in it. The table itself is generated by the build
and is a parameter of what uses it. -/
namespace Syren

inductive Category where
  | Fs | Net | Memory | Process | Signal | Ipc | Time | Security | System | Other
  deriving DecidableEq

namespace Category

def ALL : List Category :=
  [.Fs, .Net, .Memory, .Process, .Signal, .Ipc, .Time, .Security, .System, .Other]

def asStr : Category → String
  | Fs => "fs"
  | Net => "net"
  | Memory => "memory"
  | Process => "process"
  | Signal => "signal"
  | Ipc => "ipc"
  | Time => "time"
  | Security => "security"
  | System => "system"
  | Other => "other"

def parse (s : List Char) : Option Category :=
  ALL.find? fun c => Text.eqIgnoreAsciiCase c.asStr.toList s

end Category

inductive ArgType where
  | Fd | Path | Buf | Size | Int | Uint | Hex | Offset | Flags | Ptr
  deriving DecidableEq

structure ArgInfo where
  name : String
  ty : ArgType
  deriving DecidableEq

/-- A row of the table. The ABI passes six register arguments, and the generator's test suite
rejects a row with more. -/
structure SyscallInfo where
  number : UInt32
  name : String
  category : Category
  args : List ArgInfo
  sixAtMost : args.length ≤ 6 := by decide
  deriving DecidableEq

/-- The binary search over the table, which is sorted by number. -/
def syscallByNumber (table : List SyscallInfo) (number : UInt32) : Option SyscallInfo :=
  table.find? (·.number = number)

def syscallByName (table : List SyscallInfo) (name : List Char) : Option SyscallInfo :=
  table.find? (·.name = String.ofList name)

/-- `u32::try_from`. -/
def tryU32 (nr : UInt64) : Option UInt32 := if nr.toNat < 2 ^ 32 then some nr.toUInt32 else none

/-- The display name for a raw syscall number. -/
def syscallName (table : List SyscallInfo) (nr : UInt64) : List Char :=
  match (tryU32 nr).bind (syscallByNumber table) with
  | some info => info.name.toList
  | none => "syscall_".toList ++ Text.dec nr.toNat

end Syren
