import Mathlib.Data.List.DropRight
import Syren.Common.Errno
import Syren.Decode.Consts
import Syren.Decode.Flags
import Syren.Decode.Render
import Syren.Layout.LittleEndian

/-! The decoder: from a syscall event and a reader of the task's memory to texts. -/
namespace Syren
open Text Render

structure DecodedArg where
  name : Option String
  value : List Char
  raw : UInt64
  deriving DecidableEq

structure DecodedError where
  errno : Int32
  name : String
  description : String
  deriving DecidableEq

structure DecodedSyscall where
  pid : UInt32
  tid : UInt32
  nr : UInt64
  name : List Char
  args : List DecodedArg
  retval : Int64
  error : Option DecodedError
  durationNs : UInt64
  tsEnterNs : UInt64
  deriving DecidableEq

def returnsHex (name : List Char) : Bool :=
  String.ofList name ∈ ["mmap", "mmap2", "brk", "mremap", "shmat"]

namespace DecodedSyscall

/-- The call signature `name(arg, arg, ...)` without the return value. -/
def signature (s : DecodedSyscall) : List Char :=
  s.name ++ '(' :: [',', ' '].intercalate (s.args.map (·.value)) ++ [')']

def retvalStr (s : DecodedSyscall) : List Char :=
  match s.error with
  | some e => "-1 ".toList ++ e.name.toList ++ " (".toList ++ e.description.toList ++ [')']
  | none =>
    if returnsHex s.name ∧ s.retval > 0 then hex s.retval.toInt.toNat else decInt s.retval.toInt

end DecodedSyscall

/-- The low 32 bits, as a signed number. -/
def renderFd (value : UInt64) : List Char :=
  let fd := value.toUInt32.toInt32
  if fd = -100 then "AT_FDCWD".toList else decInt fd.toInt

def ptrOrNull (value : UInt64) : List Char :=
  if value = 0 then "NULL".toList else hex value.toNat

/-- How many bytes of a buffer are asked for: the next argument bounds them if it is a size. -/
def bufWant (info : SyscallInfo) (i : Fin info.args.length) (ev : SyscallEvent) : ℕ :=
  let bound :=
    if h : i + 1 < info.args.length then
      if (info.args.get ⟨i + 1, h⟩).ty = .Size then (rawOf info ⟨i + 1, h⟩ ev).toNat else MAX_STR
    else MAX_STR
  min bound (MAX_STR + 1)

def renderBuf (info : SyscallInfo) (i : Fin info.args.length) (ev : SyscallEvent)
    (mem : MemoryReader) : List Char :=
  let addr := rawOf info i ev
  if addr = 0 then "NULL".toList
  else match mem addr (bufWant info i ev) with
    | some bytes => if bytes = [] then hex addr.toNat else quoteBytes bytes
    | none => hex addr.toNat

def renderSockoptOptval (ev : SyscallEvent) (mem : MemoryReader) : List Char :=
  let addr := ev.args[3]!
  if addr = 0 then "NULL".toList
  else if ev.args[4]! = 4 then
    match mem addr 4 with
    | some bytes =>
      if bytes.length = 4 then
        '[' :: decInt (UInt32.ofNat (Layout.leValue bytes)).toInt32.toInt ++ [']']
      else hex addr.toNat
    | none => hex addr.toNat
  else hex addr.toNat

/-- What an argument is shown as by its type alone. -/
def renderTyped (syscall : String) (info : SyscallInfo) (i : Fin info.args.length)
    (ev : SyscallEvent) (mem : MemoryReader) : List Char :=
  let raw := rawOf info i ev
  match (info.args.get i).ty with
  | .Fd => renderFd raw
  | .Path => ((readCstr mem raw PATH_CAP).map quoteBytes).getD (ptrOrNull raw)
  | .Buf => renderBuf info i ev mem
  | .Size | .Uint => dec raw.toNat
  | .Int | .Offset => decInt raw.toInt64.toInt
  | .Hex => hex raw.toNat
  | .Flags => (Flags.render syscall (info.args.get i).name raw).getD (hex raw.toNat)
  | .Ptr => ptrOrNull raw

def renderArg (syscall : String) (info : SyscallInfo) (i : Fin info.args.length)
    (ev : SyscallEvent) (mem : MemoryReader) : List Char :=
  match Consts.render syscall info i ev with
  | some symbolic => symbolic
  | none =>
    if syscall = "setsockopt" ∧ (info.args.get i).name = "optval" then renderSockoptOptval ev mem
    else renderTyped syscall info i ev mem

def decodeTyped (syscall : String) (info : SyscallInfo) (ev : SyscallEvent) (mem : MemoryReader) :
    List DecodedArg :=
  (List.finRange info.args.length).map fun i =>
    { name := some (info.args.get i).name
      value := renderArg syscall info i ev mem
      raw := rawOf info i ev }

/-- The registers up to the last that is not zero. -/
def decodeRaw (ev : SyscallEvent) : List DecodedArg :=
  (ev.args.toList.rdropWhile (· = 0)).map fun raw => ⟨none, hex raw.toNat, raw⟩

/-- The static metadata for a syscall, if its number is in the table. -/
def SyscallEvent.info (table : List SyscallInfo) (ev : SyscallEvent) : Option SyscallInfo :=
  (tryU32 ev.nr).bind (syscallByNumber table)

def decode (table : List SyscallInfo) (ev : SyscallEvent) (mem : MemoryReader) :
    DecodedSyscall where
  pid := ev.pid
  tid := ev.tid
  nr := ev.nr
  name := syscallName table ev.nr
  args := match ev.info table with
    | some info => if info.args = [] then decodeRaw ev else decodeTyped info.name info ev mem
    | none => decodeRaw ev
  retval := ev.retval
  error := (ev.errno.bind errno).map fun e => ⟨e.number, e.name, e.description⟩
  durationNs := ev.durationNs
  tsEnterNs := ev.tsEnterNs

end Syren
