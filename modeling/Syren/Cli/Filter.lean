import Mathlib.Data.Finset.Union
import Syren.Gen.Syscalls

/-! The filter that the `-e` expressions of the command line stand for. -/
namespace Syren
open Text

/-- Which syscalls to report. -/
inductive Filter where
  | All
  | Numbers (set : Finset UInt32)
  deriving DecidableEq

namespace Filter

/-- What ends the loops of `from_exprs` early: an error, or a filter returned at once. -/
abbrev Stop := Except (List Char) Filter

/-- `bail!`. -/
def bail (message : List Char) : Except Stop (Finset UInt32) := .error (.error message)

/-- The token without its optional percent sign. -/
def bare (token : List Char) : List Char := (stripStart ['%'] token).getD token

def inCategory (table : List SyscallInfo) (category : Category) : List SyscallInfo :=
  table.filter (·.category = category)

def addToken (table : List SyscallInfo) (numbers : Finset UInt32) (token : List Char) :
    Except Stop (Finset UInt32) :=
  if eqIgnoreAsciiCase token "all".toList then .error (.ok .All)
  else match Category.parse (bare token) with
    | some category => .ok (numbers ∪ ((inCategory table category).map (·.number)).toFinset)
    | none => match syscallByName table token with
      | some info => .ok (insert info.number numbers)
      | none => bail ("unknown syscall or category in `-e`: `".toList ++ token ++ "`".toList)

def tokens (set : List Char) : List (List Char) :=
  ((set.splitOn ',').map trim).filter fun t => t ≠ []

/-- The set of tokens that an expression gives, if its qualifier is supported. -/
def setOf (spec : List Char) : Except (List Char) (List Char) :=
  match splitOnce '=' spec with
  | some (qualifier, rest) =>
    if qualifier = "trace".toList then .ok rest
    else .error ("unsupported `-e` qualifier `".toList ++ qualifier ++
      "=` (only `trace=` is supported)".toList)
  | none => .ok spec

def addSpec (table : List SyscallInfo) (numbers : Finset UInt32) (spec : List Char) :
    Except Stop (Finset UInt32) :=
  match setOf spec with
  | .ok set => (tokens set).foldlM (addToken table) numbers
  | .error message => bail message

def fromExprs (table : List SyscallInfo) (exprs : List (List Char)) : Except (List Char) Filter :=
  if exprs = [] then .ok .All
  else match exprs.foldlM (addSpec table) ∅ with
    | .ok numbers => .ok (.Numbers numbers)
    | .error stop => stop

/-- Whether the syscall with raw number `nr` should be reported. -/
def allows (f : Filter) (nr : UInt64) : Bool :=
  match f with
  | .All => true
  | .Numbers set => (tryU32 nr).any fun n => n ∈ set

end Filter

end Syren
