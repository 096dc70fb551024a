import Mathlib.Data.List.TakeWhile
import Syren.Common.Text
import Syren.Trace.Memory

/-! Strings and buffers of a traced process, read and quoted. -/
namespace Syren.Render

/-- The number of bytes shown of a string or buffer. -/
def MAX_STR : ℕ := 32

/-- How far a path is followed. -/
def PATH_CAP : ℕ := 4096

/-- The loop of `read_cstr`, with what it has read so far. -/
def readCstrLoop (mem : MemoryReader) (cap : ℕ) (cursor : UInt64) (out : List UInt8) :
    Option (List UInt8) :=
  if _hlt : out.length < cap then
    match mem cursor (min 256 (cap - out.length)) with
    | none => if out = [] then none else some out
    | some chunk =>
      if _hne : chunk = [] then if out = [] then none else some out
      else if 0 ∈ chunk then some (out ++ chunk.takeWhile (· ≠ 0))
      else readCstrLoop mem cap (cursor + UInt64.ofNat chunk.length) (out ++ chunk)
  else some out
  termination_by cap - out.length
  decreasing_by
    have hpos := List.length_pos_iff.mpr _hne
    rw [List.length_append]
    omega

/-- Read a string from the memory of a task: the bytes before its terminator, or `None` if nothing
could be read. -/
def readCstr (mem : MemoryReader) (addr : UInt64) (cap : ℕ) : Option (List UInt8) :=
  if addr = 0 then none else readCstrLoop mem cap addr []

/-- The text shown for a byte. -/
def quoteByte (b : UInt8) : List Char :=
  if b = 34 then ['\\', '"']
  else if b = 92 then ['\\', '\\']
  else if b = 10 then ['\\', 'n']
  else if b = 13 then ['\\', 'r']
  else if b = 9 then ['\\', 't']
  else if 0x20 ≤ b ∧ b ≤ 0x7e then [Char.ofNat b.toNat]
  else '\\' :: Nat.toDigits 8 b.toNat

def quoteBytes (bytes : List UInt8) : List Char :=
  '"' :: (bytes.take MAX_STR).flatMap quoteByte ++
    ['"'] ++ if bytes.length > MAX_STR then ['.', '.', '.'] else []

end Syren.Render
