import Mathlib.Data.Int.Log
import Mathlib.Data.Rat.Floor
import Syren.Common.Text

/-! Floating-point numbers as the sinks compute and format them. An `f64` is the number it stands
for. -/
namespace Syren.Output
open Text

/-- The nearest integer, and of two that are as near the even one. -/
def nearestEven (x : ℚ) : ℤ :=
  let k := ⌊x⌋
  if x - k < 1 / 2 then k else if 1 / 2 < x - k then k + 1 else k + k % 2

/-- The nearest `f64` to a number that is not negative, which has 53 significant bits. No duration
comes near the limits of the exponent. -/
def toF64 (x : ℚ) : ℚ :=
  let ulp := (2 : ℚ) ^ (Int.log 2 x - 52)
  nearestEven (x / ulp) * ulp

/-- The formatting of a number that is not negative with so many digits after the point. -/
def fixed (digits : ℕ) (x : ℚ) : List Char :=
  let scaled := (nearestEven (x * 10 ^ digits)).toNat
  let fraction := dec (scaled % Nat.pow 10 digits)
  dec (scaled / Nat.pow 10 digits) ++ '.' ::
    List.replicate (digits - fraction.length) '0' ++ fraction

/-- The seconds of some nanoseconds, with six digits. -/
def formatSecs (ns : ℕ) : List Char := fixed 6 (toF64 (toF64 ns / 10 ^ 9))

/-- The percentage of a total, with two digits. -/
def formatPct (ns grand : ℕ) : List Char :=
  fixed 2 (toF64 (toF64 (toF64 ns / toF64 grand) * 100))

def TextSink.fmtSecs (ns : UInt64) : List Char := formatSecs ns.toNat

end Syren.Output
