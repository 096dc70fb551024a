import Syren.Output.Json
import Syren.Output.Float
import Syren.Output.SummaryRows
import Syren.Writers.Writer

/-! The three sinks as they write, and the errors that they pass on. How formatting and serialising
divide a text into writes, and the order in which the map of the summary iterates, are parameters. -/
namespace Syren.Output
open Writers

/-- The kinds of I/O error that matter here. -/
inductive ErrorKind where
  | BrokenPipe | StorageFull | Other
  deriving DecidableEq

/-- An error in a chain of sources: an `io::Error` of some kind, or an error of another type. -/
inductive Cause where
  | io (kind : ErrorKind)
  | foreign
  deriving DecidableEq

/-- An `io::Error`, with the chain that its source starts. -/
structure IoError where
  kind : ErrorKind
  sources : List Cause
  deriving DecidableEq

/-- A `serde_json::Error` of a write that failed. -/
structure JsonError where
  io : IoError

/-- The source of the error is that of the `io::Error` in it. -/
def JsonError.sources (e : JsonError) : List Cause := e.io.sources

/-- `io::Error::other` of an error with these sources, of which it is none itself. -/
def IoError.other (sources : List Cause) : IoError := ⟨.Other, sources⟩

def utf8 (text : List Char) : List UInt8 := text.flatMap String.utf8EncodeChar

/-- The float columns of the summary. -/
def floats : Floats := ⟨formatPct, formatSecs⟩

/-- How texts are divided into writes, and how the map of the summary iterates. -/
structure Formatting where
  text : TextOptions → Record → List (List UInt8)
  textWhole : ∀ opts rec,
    (text opts rec).flatten = utf8 (TextSink.record TextSink.fmtSecs opts rec)
  json : Record → List (List UInt8)
  jsonWhole : ∀ rec, (json rec).flatten = utf8 (JsonSink.toWriter rec)
  iterate : SummarySink → List Row
  iterates : ∀ sink : SummarySink, sink.Iterates (iterate sink)
  table : List (List Char) → List (List UInt8)
  tableWhole : ∀ rows, (table rows).flatten = utf8 (rows.flatMap fun row => row ++ ['\n'])

/-- Every text in one write, and the map in some order. -/
noncomputable def Formatting.whole : Formatting where
  text opts rec := [utf8 (TextSink.record TextSink.fmtSecs opts rec)]
  textWhole opts rec := by simp
  json rec := [utf8 (JsonSink.toWriter rec)]
  jsonWhole rec := by simp
  iterate sink := sink.stats.entries.toList
  iterates sink := Multiset.coe_toList _
  table rows := [utf8 (rows.flatMap fun row => row ++ ['\n'])]
  tableWhole rows := by simp

inductive Sink where
  | text (opts : TextOptions)
  | json
  | summary (stats : SummarySink)

namespace Sink

/-- What a failed write of the JSON serialiser is passed on as. -/
def viaJson (e : IoError) : IoError := .other (JsonError.mk e).sources

variable {σ : Type} (fmt : Formatting) (write : List UInt8 → Io IoError σ Unit)

def record (rec : Record) : Sink → Io IoError σ Sink
  | text opts => do
    writePieces write (fmt.text opts rec)
    return text opts
  | json => do
    ExceptT.adapt viaJson (writePieces write (fmt.json rec))
    write [10]
    return json
  | summary stats => return summary (stats.record rec)

/-- The text and JSON sinks have the default, which does nothing. -/
def finish : Sink → Io IoError σ Unit
  | summary stats =>
    writePieces write (fmt.table (SummarySink.finish floats (fmt.iterate stats)))
  | _ => return ()

/-- The sink after a record. -/
def next (rec : Record) : Sink → Sink
  | summary stats => summary (stats.record rec)
  | sink => sink

/-- The writes for a record, with the conversions of their failures. -/
def writes (rec : Record) : Sink → List (List UInt8 × (IoError → IoError))
  | text opts => (fmt.text opts rec).map fun p => (p, id)
  | json => ((fmt.json rec).map fun p => (p, viaJson)) ++ [([10], id)]
  | summary _ => []

def lastWrites : Sink → List (List UInt8 × (IoError → IoError))
  | summary stats =>
    (fmt.table (SummarySink.finish floats (fmt.iterate stats))).map fun p => (p, id)
  | _ => []

/-- The writes for some records and the end of the trace. -/
def allWrites : List Record → Sink → List (List UInt8 × (IoError → IoError))
  | [], sink => sink.lastWrites fmt
  | rec :: recs, sink => sink.writes fmt rec ++ allWrites recs (sink.next rec)

/-- The whole output for some records. -/
def output (recs : List Record) : Sink → List UInt8
  | text opts => utf8 (recs.flatMap (TextSink.record TextSink.fmtSecs opts))
  | json => recs.flatMap fun rec => utf8 (JsonSink.toWriter rec) ++ [10]
  | summary stats => utf8 ((SummarySink.finish floats
      (fmt.iterate (recs.foldl SummarySink.record stats))).flatMap fun row => row ++ ['\n'])

variable {fmt write}

theorem record_eq (rec : Record) (sink : Sink) : sink.record fmt write rec =
    perform write (sink.writes fmt rec) >>= fun _ => pure (sink.next rec) := by
  cases sink with
  | text opts => simp [record, writes, next, writePieces_eq]
  | json =>
    have hnewline : perform write [([10], id)] = write [10] := by
      simp [perform_cons, adapt_id]
    simp only [record, writes, next, perform_append, hnewline, bind_assoc, adapt_writePieces]
  | summary stats => simp [record, writes, next]

theorem finish_eq (sink : Sink) : sink.finish fmt write = perform write (sink.lastWrites fmt) := by
  cases sink with
  | text opts => rfl
  | json => rfl
  | summary stats => exact writePieces_eq _

theorem flatMap_fst {f : IoError → IoError} (pieces : List (List UInt8)) :
    (pieces.map fun p => (p, f)).flatMap Prod.fst = pieces.flatten := by
  induction pieces with
  | nil => rfl
  | cons p pieces ih => simp [ih]

/-- The writes are the whole output, however it is divided. -/
theorem allWrites_output (recs : List Record) (sink : Sink) :
    (sink.allWrites fmt recs).flatMap Prod.fst = sink.output fmt recs := by
  induction recs generalizing sink with
  | nil =>
    cases sink with
    | text opts => rfl
    | json => rfl
    | summary stats => simp [allWrites, lastWrites, output, flatMap_fst, fmt.tableWhole]
  | cons rec recs ih =>
    rw [allWrites, List.flatMap_append, ih]
    cases sink with
    | text opts => simp [writes, next, output, flatMap_fst, fmt.textWhole, utf8]
    | json => simp [writes, next, output, flatMap_fst, fmt.jsonWhole]
    | summary stats => simp [writes, next, output]

end Sink

end Syren.Output
