import Syren.Cli.LostTail
import Syren.Layout.Lines
import Syren.Output.JsonLines
import Syren.Output.Printable

/-! What the file of the command line holds when the command does not come to its end: it is killed
with a part of the output in its buffer, or the trace fails and the sink is dropped. -/
namespace Syren
open Output Writers Layout

/-- What is kept in the file when the command stops after some of its writes, which ended with
`result`: the output is cut off, its whole lines are those of the first records, and what is missing
of the writes that succeeded fits the buffer. -/
structure Kept (session : Session) (evs : List (Event × MemoryReader)) (sink : Sink)
    (done : List (List UInt8 × (IoError → IoError))) (result : Except IoError Unit)
    (file : List UInt8) : Prop where
  begins : file <+: sink.output session.fmt (session.records evs)
  whole : (∀ stats, sink ≠ .summary stats) →
    wholeLines 10 file = sink.output session.fmt ((session.records evs).take (file.count 10))
  json : sink = .json →
    JsonSink.readStream (wholeLines 10 file) = some ((session.records evs).take (file.count 10))
  missing : result = .ok () → (done.flatMap Prod.fst).length ≤ file.length + BUFFER

variable {session : Session} {evs : List (Event × MemoryReader)} {sink : Sink} {limit : ℕ}
  {refusal : IoError}

/-- The sink's lines for some records. -/
def outputLines (sink : Sink) (recs : List Output.Record) : List (List UInt8) :=
  match sink with
  | .text opts => recs.map fun rec => utf8 (TextSink.record TextSink.fmtSecs opts rec)
  | .json => recs.map fun rec => utf8 (JsonSink.toWriter rec) ++ [10]
  | .summary _ => []

theorem flatten_outputLines (hsink : ∀ stats, sink ≠ .summary stats) (fmt : Formatting)
    (recs : List Output.Record) : (outputLines sink recs).flatten = sink.output fmt recs := by
  cases sink with
  | text opts =>
    show _ = utf8 (recs.flatMap (TextSink.record TextSink.fmtSecs opts))
    rw [utf8, List.flatMap_assoc]
    rfl
  | json => rfl
  | summary stats => exact absurd rfl (hsink stats)

theorem take_outputLines (sink : Sink) (recs : List Output.Record) (n : ℕ) :
    (outputLines sink recs).take n = outputLines sink (recs.take n) := by
  cases sink with
  | text opts => exact List.map_take.symm
  | json => exact List.map_take.symm
  | summary stats => exact List.take_nil

theorem cleanRecord_of_records (htable : AllVisible session.table) :
    ∀ rec ∈ session.records evs, CleanRecord rec := by
  intro rec hrec
  obtain ⟨e, -, he⟩ := List.mem_filterMap.mp hrec
  have hclean := cleanRecord_toRecord htable e
  obtain ⟨event, mem⟩ := e
  cases event with
  | syscall ev =>
    simp only [Session.recordOf, Option.ite_none_right_eq_some, Option.some.injEq] at he
    exact he.2 ▸ hclean
  | processExit pid status =>
    cases he
    exact hclean
  | signal pid sig =>
    cases he
    exact hclean

theorem isLine_outputLines (htable : AllVisible session.table) :
    ∀ line ∈ outputLines sink (session.records evs), IsLine 10 line := by
  intro line hline
  have hfeed : utf8 ['\n'] = [10] := by decide
  cases sink with
  | text opts =>
    obtain ⟨rec, hrec, rfl⟩ := List.mem_map.mp hline
    refine ⟨utf8 (TextSink.line opts rec), ?_, fun hmem => ?_⟩
    · rw [TextSink.record_line, utf8, List.flatMap_append, ← hfeed]
      rfl
    · exact TextSink.newline_notMem_line (cleanRecord_of_records htable rec hrec) opts
        (lineFeed_mem_utf8 hmem)
  | json =>
    obtain ⟨rec, -, rfl⟩ := List.mem_map.mp hline
    exact ⟨_, rfl, fun hmem =>
      JsonSink.newline_notMem_toWriter rec (lineFeed_mem_utf8 hmem)⟩
  | summary stats => cases hline

/-- The whole lines of an output that is cut off. -/
theorem wholeLines_output (htable : AllVisible session.table)
    (hsink : ∀ stats, sink ≠ .summary stats) {file : List UInt8}
    (h : file <+: sink.output session.fmt (session.records evs)) :
    wholeLines 10 file =
      sink.output session.fmt ((session.records evs).take (file.count 10)) := by
  rw [← flatten_outputLines hsink] at h ⊢
  rw [wholeLines_torn (isLine_outputLines htable) h, take_outputLines]

theorem flatMap_begins {ws ws' : List (List UInt8 × (IoError → IoError))} (h : ws <+: ws') :
    ws.flatMap Prod.fst <+: ws'.flatMap Prod.fst := by
  obtain ⟨more, rfl⟩ := h
  rw [List.flatMap_append]
  exact List.prefix_append _ _

/-- Wherever the command stops, and whatever the file refused, the file begins the output: it has
the whole lines of the first records, which a consumer reads back, and at most one line cut off;
and what was written and is not in the file is no more than the buffer. -/
theorem interrupted {done : List (List UInt8 × (IoError → IoError))} {result : Except IoError Unit}
    {s : Buffered} {file : List UInt8} (htable : AllVisible session.table)
    (hdone : done <+: sink.allWrites session.fmt (session.records evs))
    (hrun : outcome (perform (Buffered.write BUFFER limit refusal) done) Buffered.empty =
      (result, s)) (hfile : file = s.taken ∨ file = (s.drop limit refusal).taken) :
    Kept session evs sink done result file := by
  have hprefixed := Buffered.perform_prefixed (s := Buffered.empty) refusal done
    (Nat.zero_le BUFFER) (Nat.zero_le limit)
  rw [hrun] at hprefixed
  have hwritten : s.taken ++ s.buf <+: sink.output session.fmt (session.records evs) := by
    rw [← Sink.allWrites_output]
    exact hprefixed.begins.trans (flatMap_begins hdone)
  have hdrop : (s.drop limit refusal).taken = (s.taken ++ s.buf).take limit :=
    Buffered.drop_taken hprefixed.taken
  have hbegins : file <+: s.taken ++ s.buf := by
    rcases hfile with rfl | rfl
    · exact List.prefix_append _ _
    · rw [hdrop]
      exact List.take_prefix _ _
  have hlong : s.taken.length ≤ file.length := by
    rcases hfile with rfl | rfl
    · exact le_rfl
    · rw [hdrop, List.length_take, List.length_append]
      exact le_min hprefixed.taken (Nat.le_add_right _ _)
  have hkept := hbegins.trans hwritten
  have hwhole := fun hsink => wholeLines_output htable hsink hkept
  refine ⟨hkept, hwhole, fun hjson => ?_, fun hok => ?_⟩
  · subst hjson
    rw [hwhole fun stats => nofun]
    exact JsonSink.readStream_output _ _
  · obtain ⟨hall, hbuf⟩ := hprefixed.all hok
    have hlen : s.taken.length + s.buf.length = (done.flatMap Prod.fst).length := by
      rw [← List.length_append]
      exact congrArg List.length hall
    have hheld : s.buf.length ≤ BUFFER := hbuf
    omega

/-- The process 1 exits with 0 and the command is killed: the line may still be in the buffer. -/
theorem interrupted_after_exit :
    let session : Session := ⟨SYSCALLS, .All, some 1, .whole⟩
    let evs : List (Event × MemoryReader) := [(.processExit 1 0, fun _ _ => none)]
    let ended := outcome (perform (Buffered.write BUFFER 4096 ⟨.StorageFull, []⟩)
      (Sink.json.allWrites session.fmt (session.records evs))) Buffered.empty
    Kept session evs .json (Sink.json.allWrites session.fmt (session.records evs)) ended.1
      ended.2.taken := by
  intro session evs ended
  have hrun : ended = (ended.1, ended.2) := rfl
  exact interrupted visible_SYSCALLS List.prefix_rfl hrun (.inl rfl)

end Syren
