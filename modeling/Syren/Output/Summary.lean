import Mathlib.Data.Char
import Mathlib.Data.List.Lex
import Mathlib.Order.Compare
import Syren.Folding.Tally
import Syren.Output.Text

/-! The aggregate table of the summary. Counters and sums are natural numbers: for fewer than
`2 ^ 64` calls they fit the `u64` and `u128` of the source (`Summarizes.fits`). Percentages and
seconds are formatted by floating-point arithmetic, which is a parameter. -/
namespace Syren.Output
open Folding Syren.Text

structure Stat where
  calls : ℕ
  errors : ℕ
  totalNs : ℕ
  deriving DecidableEq

/-- `Stat::default`. -/
def Stat.zero : Stat := ⟨0, 0, 0⟩

def Stat.add (stat : Stat) (s : DecodedSyscall) : Stat where
  calls := stat.calls + 1
  errors := if s.error.isSome then stat.errors + 1 else stat.errors
  totalNs := stat.totalNs + s.durationNs.toNat

structure SummarySink where
  stats : Finmap fun _ : List Char => Stat

/-- A row of the table: a name with what was recorded under it. -/
abbrev Row := Sigma fun _ : List Char => Stat

/-- The texts of a percentage of a total, and of nanoseconds in seconds. -/
structure Floats where
  pct : ℕ → ℕ → List Char
  secs : ℕ → List Char

namespace SummarySink

def new : SummarySink := ⟨∅⟩

def record (sink : SummarySink) (rec : Record) : SummarySink :=
  match rec with
  | .syscall s => { sink with stats := upsert sink.stats s.name Stat.zero fun stat => stat.add s }
  | _ => sink

/-- The comparison that rows are sorted by. Names are compared by their bytes, which is by their
characters. -/
def compareRows (a b : Row) : Ordering :=
  ((cmp b.2.totalNs a.2.totalNs).then (cmp b.2.calls a.2.calls)).then (cmp a.1 b.1)

/-- The rows in their order, from the entries as the map iterates over them. -/
def sortRows (entries : List Row) : List Row :=
  entries.mergeSort fun a b => (compareRows a b).isLE

def usecs (s : Stat) : ℕ := if s.calls = 0 then 0 else s.totalNs / s.calls / 1000

/-- The cell of an error count: empty if there is none. -/
def errorsCell (n : ℕ) : List Char := if n = 0 then [] else dec n

def grand (entries : List Row) : ℕ := (entries.map fun row => row.2.totalNs).sum

def totalCalls (rows : List Row) : ℕ := rows.foldl (fun n row => n + row.2.calls) 0

def totalErrors (rows : List Row) : ℕ := rows.foldl (fun n row => n + row.2.errors) 0

def rowLine (floats : Floats) (grand : ℕ) (row : Row) : List Char :=
  let pct := if grand = 0 then "0.00".toList else floats.pct row.2.totalNs grand
  padLeft 6 pct ++ ' ' :: padLeft 11 (floats.secs row.2.totalNs) ++
    ' ' :: padLeft 11 (dec (usecs row.2)) ++ ' ' :: padLeft 9 (dec row.2.calls) ++
    ' ' :: padLeft 9 (errorsCell row.2.errors) ++ ' ' :: row.1

def header : List Char :=
  padLeft 6 "% time".toList ++ ' ' :: padLeft 11 "seconds".toList ++
    ' ' :: padLeft 11 "usecs/call".toList ++ ' ' :: padLeft 9 "calls".toList ++
    ' ' :: padLeft 9 "errors".toList ++ " syscall".toList

def rule : List Char :=
  [' '].intercalate ([6, 11, 11, 9, 9, 16].map fun width => List.replicate width '-')

def totalLine (floats : Floats) (grand calls errors : ℕ) : List Char :=
  padLeft 6 "100.00".toList ++ ' ' :: padLeft 11 (floats.secs grand) ++ ' ' :: padLeft 11 [] ++
    ' ' :: padLeft 9 (dec calls) ++ ' ' :: padLeft 9 (errorsCell errors) ++ " total".toList

/-- The lines that are written, from the entries as the map iterates over them. -/
def finish (floats : Floats) (entries : List Row) : List (List Char) :=
  let total := grand entries
  let rows := sortRows entries
  [header, rule] ++ rows.map (rowLine floats total) ++
    [rule, totalLine floats total (totalCalls rows) (totalErrors rows)]

end SummarySink

end Syren.Output
