import Syren.Output.Text

/-! The objects of the JSON output, as the derived serialisation writes them. -/
namespace Syren.Output
open Text

namespace JsonSink

def escapeChar (c : Char) : List Char :=
  if c = '"' then ['\\', '"']
  else if c = '\\' then ['\\', '\\']
  else if c = '\n' then ['\\', 'n']
  else if c = '\r' then ['\\', 'r']
  else if c = '\t' then ['\\', 't']
  else if c = '\x08' then ['\\', 'b']
  else if c = '\x0c' then ['\\', 'f']
  else if c < ' ' then
    "\\u00".toList ++ [Nat.digitChar (c.toNat / 16), Nat.digitChar (c.toNat % 16)]
  else [c]

def string (text : List Char) : List Char := '"' :: text.flatMap escapeChar ++ ['"']

/-- An object with some fields. -/
def object (fields : List (String × List Char)) : List Char :=
  '\x7b' :: [','].intercalate (fields.map fun f => string f.1.toList ++ ':' :: f.2) ++ ['\x7d']

def array (items : List (List Char)) : List Char := '[' :: [','].intercalate items ++ [']']

def arg (a : DecodedArg) : List Char :=
  object ((a.name.map fun name => ("name", string name.toList)).toList ++
    [("value", string a.value), ("raw", dec a.raw.toNat)])

def error (e : DecodedError) : List Char :=
  object [("errno", decInt e.errno.toInt), ("name", string e.name.toList),
    ("description", string e.description.toList)]

/-- What `to_writer` writes for a record. -/
def toWriter (rec : Record) : List Char :=
  match rec with
  | .syscall s => object ([("type", string "syscall".toList), ("pid", dec s.pid.toNat),
      ("tid", dec s.tid.toNat), ("nr", dec s.nr.toNat), ("name", string s.name),
      ("args", array (s.args.map arg)), ("retval", decInt s.retval.toInt)] ++
      (s.error.map fun e => ("error", error e)).toList ++
      [("duration_ns", dec s.durationNs.toNat), ("ts_enter_ns", dec s.tsEnterNs.toNat)])
  | .exit pid code => object [("type", string "exit".toList), ("pid", dec pid.toNat),
      ("code", decInt code.toInt)]
  | .signal pid sig => object [("type", string "signal".toList), ("pid", dec pid.toNat),
      ("signal", decInt sig.toInt)]

end JsonSink

end Syren.Output
