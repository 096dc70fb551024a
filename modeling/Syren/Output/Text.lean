import Syren.Common.Signal
import Syren.Decode.Decode

/-! The records that are written out, and the strace-style lines that they are written as. The
seconds of a duration are formatted by floating-point arithmetic, which is a parameter. -/
namespace Syren.Output
open Syren.Text

/-- One item in a trace stream. -/
inductive Record where
  | syscall (s : DecodedSyscall)
  | exit (pid : UInt32) (code : Int32)
  | signal (pid : UInt32) (signal : Int32)
  deriving DecidableEq

/-- Right-aligned in so many columns. -/
def padLeft (width : ℕ) (text : List Char) : List Char :=
  List.replicate (width - text.length) ' ' ++ text

structure TextOptions where
  showPid : Bool
  showTiming : Bool
  color : Bool

structure Palette where
  name : List Char
  error : List Char
  info : List Char
  reset : List Char

namespace Palette

def PLAIN : Palette := ⟨[], [], [], []⟩

def COLOR : Palette := ⟨"\x1b[36m".toList, "\x1b[31m".toList, "\x1b[33m".toList, "\x1b[0m".toList⟩

def new (color : Bool) : Palette := if color then COLOR else PLAIN

end Palette

namespace TextSink

def signalName (sig : Int32) : List Char :=
  match Syren.signalName sig with
  | some name => name.toList
  | none => "signal ".toList ++ decInt sig.toInt

def pidPart (opts : TextOptions) (pid : UInt32) : List Char :=
  if opts.showPid then "[pid ".toList ++ padLeft 5 (dec pid.toNat) ++ "] ".toList else []

/-- The call of a line, up to its closing parenthesis. -/
def callPart (p : Palette) (s : DecodedSyscall) : List Char :=
  p.name ++ s.name ++ p.reset ++ '(' :: [',', ' '].intercalate (s.args.map (·.value)) ++ [')']

/-- The return value of a line, with its colour. -/
def returnPart (p : Palette) (s : DecodedSyscall) : List Char :=
  if s.error.isSome then p.error ++ s.retvalStr ++ p.reset else s.retvalStr

def writeCall (p : Palette) (s : DecodedSyscall) : List Char :=
  callPart p s ++ " = ".toList ++ returnPart p s

def timingPart (fmtSecs : UInt64 → List Char) (opts : TextOptions) (s : DecodedSyscall) :
    List Char :=
  if opts.showTiming then " <".toList ++ fmtSecs s.durationNs ++ ['>'] else []

/-- What is written for a record. -/
def record (fmtSecs : UInt64 → List Char) (opts : TextOptions) (rec : Record) : List Char :=
  let p := Palette.new opts.color
  match rec with
  | .syscall s => pidPart opts s.pid ++ writeCall p s ++ timingPart fmtSecs opts s ++ ['\n']
  | .exit pid code => pidPart opts pid ++ p.info ++ "+++ exited with ".toList ++
      decInt code.toInt ++ " +++".toList ++ p.reset ++ ['\n']
  | .signal pid sig => pidPart opts pid ++ p.info ++ "--- ".toList ++ signalName sig ++
      " ---".toList ++ p.reset ++ ['\n']

end TextSink

end Syren.Output
