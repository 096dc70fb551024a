import Syren.Cli.Run

/-! What the command makes of a closed pipe. The text and the summary sinks pass the error on as it
is; the serialiser of the JSON sink hides it. -/
namespace Syren
open Output Writers

/-- The command ends as if all was well, and prints nothing, if its run ends with an error. -/
def Quiet (result : Except IoError UInt8) : Prop :=
  ∀ e, result = .error e → isBrokenPipe e ∧ main result = ⟨0, none⟩

/-- A position is within the object of a record, where each is followed by a line feed. -/
def inObject : List Output.Record → ℕ → Bool
  | [], _ => false
  | rec :: recs, n =>
    let len := (utf8 (JsonSink.toWriter rec)).length
    n < len || (len < n && inObject recs (n - (len + 1)))

variable {fmt : Formatting} {limit : ℕ} {refusal : IoError} {written : List UInt8}

/-- A write that fails as it is ends the writes with the writer's own error. -/
theorem perform_plain {ws : List (List UInt8 × (IoError → IoError))} (hplain : ∀ w ∈ ws, w.2 = id)
    (hlimit : written.length ≤ limit) {e : IoError}
    (h : (outcome (perform (writeAll limit refusal) ws) written).1 = .error e) : e = refusal := by
  by_cases hfits : written.length + (ws.flatMap Prod.fst).length ≤ limit
  · simp [perform_fits hfits] at h
  · have hconv : ∀ w ∈ ws, w.2 refusal = refusal := fun w hw => by rw [hplain w hw, id_eq]
    have hrefused := perform_refused hconv (Nat.lt_of_not_le hfits) hlimit
    rw [h] at hrefused
    exact Except.error.inj hrefused

theorem allWrites_plain (recs : List Output.Record) {sink : Sink} (hsink : sink ≠ .json) :
    ∀ w ∈ sink.allWrites fmt recs, w.2 = id := by
  induction recs generalizing sink with
  | nil =>
    cases sink with
    | text opts => simp [Sink.allWrites, Sink.lastWrites]
    | json => contradiction
    | summary stats => simp +contextual [Sink.allWrites, Sink.lastWrites]
  | cons rec recs ih =>
    have hnext : sink.next rec ≠ .json := by
      cases sink with
      | text opts => simp [Sink.next]
      | json => contradiction
      | summary stats => simp [Sink.next]
    have hwrites : ∀ w ∈ sink.writes fmt rec, w.2 = id := by
      cases sink with
      | text opts => simp +contextual [Sink.writes]
      | json => contradiction
      | summary stats => simp [Sink.writes]
    intro w hw
    rcases List.mem_append.mp hw with hw | hw
    · exact hwrites w hw
    · exact ih hnext w hw

section Json

variable {rec : Output.Record} {recs : List Output.Record}

theorem perform_append_error {ws ws' : List (List UInt8 × (IoError → IoError))} {e : IoError}
    (h : (outcome (perform (writeAll limit refusal) ws) written).1 = .error e) :
    (outcome (perform (writeAll limit refusal) (ws ++ ws')) written).1 = .error e := by
  rw [perform_append]
  cases hws : outcome (perform (writeAll limit refusal) ws) written with
  | mk result written' =>
    rw [hws] at h
    dsimp only at h
    rw [h] at hws
    rw [outcome_bind_error hws]

theorem serialised : ((fmt.json rec).map fun p => (p, Sink.viaJson)).flatMap Prod.fst =
    utf8 (JsonSink.toWriter rec) := by
  rw [Sink.flatMap_fst, fmt.jsonWhole]

/-- Refused within an object, the error is the one that the serialiser made. -/
theorem json_within (hlimit : written.length ≤ limit)
    (h : limit < written.length + (utf8 (JsonSink.toWriter rec)).length) :
    (outcome (perform (writeAll limit refusal) (Sink.json.allWrites fmt (rec :: recs))) written).1 =
      .error (Sink.viaJson refusal) := by
  rw [Sink.allWrites, Sink.writes, List.append_assoc]
  apply perform_append_error
  apply perform_refused (by simp) _ hlimit
  rwa [serialised]

/-- Refused at a line feed, it is the writer's own. -/
theorem json_between (h : limit = written.length + (utf8 (JsonSink.toWriter rec)).length) :
    (outcome (perform (writeAll limit refusal) (Sink.json.allWrites fmt (rec :: recs))) written).1 =
      .error refusal := by
  rw [Sink.allWrites, Sink.writes, List.append_assoc, perform_append]
  rw [outcome_bind_ok (perform_fits (by rw [serialised]; omega))]
  apply perform_append_error
  apply perform_refused (by simp)
  · simp [serialised]
    omega
  · rw [serialised, List.length_append]
    omega

theorem json_after (h : written.length + (utf8 (JsonSink.toWriter rec)).length < limit) :
    outcome (perform (writeAll limit refusal) (Sink.json.allWrites fmt (rec :: recs))) written =
      outcome (perform (writeAll limit refusal) (Sink.json.allWrites fmt recs))
        (written ++ (utf8 (JsonSink.toWriter rec) ++ [10])) := by
  have hline : (Sink.json.writes fmt rec).flatMap Prod.fst =
      utf8 (JsonSink.toWriter rec) ++ [10] := by
    rw [Sink.writes, List.flatMap_append, serialised]
    rfl
  have hfits : outcome (perform (writeAll limit refusal) (Sink.json.writes fmt rec)) written =
      (.ok (), written ++ (Sink.json.writes fmt rec).flatMap Prod.fst) := by
    apply perform_fits
    rw [hline, List.length_append, List.length_singleton]
    omega
  rw [hline] at hfits
  rw [Sink.allWrites, perform_append, outcome_bind_ok hfits]
  rfl

/-- The JSON sink hides the writer's error at a position within an object. -/
theorem json_hidden (hlimit : written.length ≤ limit)
    (h : inObject recs (limit - written.length) = true) :
    (outcome (perform (writeAll limit refusal) (Sink.json.allWrites fmt recs)) written).1 =
      .error (Sink.viaJson refusal) := by
  induction recs generalizing written with
  | nil => cases h
  | cons rec recs ih =>
    simp only [inObject, Bool.or_eq_true, Bool.and_eq_true, decide_eq_true_eq] at h
    rcases h with hwithin | ⟨hafter, hrest⟩
    · exact json_within hlimit (by omega)
    · rw [json_after (by omega)]
      apply ih
      · simp only [List.length_append, List.length_singleton]
        omega
      · simp only [List.length_append, List.length_singleton]
        rwa [Nat.sub_add_eq]

/-- Elsewhere it passes the error on. -/
theorem json_shown (hlimit : written.length ≤ limit)
    (h : inObject recs (limit - written.length) = false) {e : IoError}
    (he : (outcome (perform (writeAll limit refusal) (Sink.json.allWrites fmt recs)) written).1 =
      .error e) : e = refusal := by
  induction recs generalizing written with
  | nil => cases he
  | cons rec recs ih =>
    simp only [inObject, Bool.or_eq_false_iff, Bool.and_eq_false_iff, decide_eq_false_iff_not] at h
    rcases Nat.lt_or_eq_of_le (Nat.le_of_not_lt h.1) with hafter | hbetween
    · rw [json_after (by omega)] at he
      apply ih _ _ he
      · simp only [List.length_append, List.length_singleton]
        omega
      · simp only [List.length_append, List.length_singleton]
        rw [Nat.sub_add_eq]
        exact h.2.resolve_left (not_not.mpr hafter)
    · rw [json_between (by omega)] at he
      exact (Except.error.inj he).symm

end Json

theorem quiet_pipe {sources : List Cause} {result : Except IoError UInt8}
    (h : ∀ e, result = .error e → e = ⟨.BrokenPipe, sources⟩) : Quiet result := by
  intro e he
  have hpipe : isBrokenPipe e := by simp [h e he, isBrokenPipe, IoError.chain]
  exact ⟨hpipe, by simp [main, he, hpipe]⟩

theorem isBrokenPipe_viaJson (kind : ErrorKind) (sources : List Cause) :
    isBrokenPipe (Sink.viaJson ⟨kind, sources⟩) ↔ .io .BrokenPipe ∈ sources := by
  simp [isBrokenPipe, IoError.chain, Sink.viaJson, IoError.other, JsonError.sources]

variable {session : Session} {evs : List (Event × MemoryReader)} {sink : Sink}

/-- The error of a run is that of its writes. -/
theorem run_error {e : IoError} : (outcome (session.run (writeAll limit refusal) evs sink) []).1 =
    .error e ↔ (outcome (perform (writeAll limit refusal)
      (sink.allWrites session.fmt (session.records evs))) []).1 = .error e := by
  rw [Session.run_eq]
  cases h : outcome (perform (writeAll limit refusal)
    (sink.allWrites session.fmt (session.records evs))) [] with
  | mk result written =>
    cases result with
    | error e =>
      rw [outcome_bind_error h]
      simp
    | ok u =>
      rw [outcome_bind_ok h]
      simp

theorem run_hidden (hobject : inObject (session.records evs) limit = true) :
    (outcome (session.run (writeAll limit refusal) evs .json) []).1 =
      .error (Sink.viaJson refusal) :=
  run_error.mpr (json_hidden (Nat.zero_le limit) hobject)

/-- A pipe that closes within an object of the JSON output is reported as a failure. -/
theorem loud_json {sources : List Cause} (hobject : inObject (session.records evs) limit = true)
    (hsources : .io .BrokenPipe ∉ sources) :
    ¬ Quiet (outcome (session.run (writeAll limit ⟨.BrokenPipe, sources⟩) evs .json) []).1 := by
  intro hquiet
  obtain ⟨hpipe, -⟩ := hquiet _ (run_hidden hobject)
  exact hsources ((isBrokenPipe_viaJson _ _).mp hpipe)

/-- A closed pipe ends the command quietly, unless it closes within an object of the JSON output and
the error of the pipe has no other such error among its sources. -/
theorem quiet_iff (session : Session) (evs : List (Event × MemoryReader)) (sink : Sink)
    (limit : ℕ) (sources : List Cause) :
    Quiet (outcome (session.run (writeAll limit ⟨.BrokenPipe, sources⟩) evs sink) []).1 ↔
      ¬ (sink = .json ∧ inObject (session.records evs) limit = true ∧
        .io .BrokenPipe ∉ sources) := by
  constructor
  · rintro hquiet ⟨rfl, hobject, hsources⟩
    exact loud_json hobject hsources hquiet
  · intro h
    by_cases hsink : sink = .json
    · subst hsink
      by_cases hobject : inObject (session.records evs) limit = true
      · have hsources := not_not.mp fun hs => h ⟨rfl, hobject, hs⟩
        have hpipe := (isBrokenPipe_viaJson .BrokenPipe sources).mpr hsources
        rw [run_hidden hobject]
        rintro e ⟨⟩
        exact ⟨hpipe, if_pos hpipe⟩
      · exact quiet_pipe fun e he =>
          json_shown (Nat.zero_le limit) (Bool.eq_false_of_not_eq_true hobject) (run_error.mp he)
    · exact quiet_pipe fun e he =>
        perform_plain (allWrites_plain _ hsink) (Nat.zero_le limit) (run_error.mp he)

/-- A pipe that is closed before the only line of a JSON trace. -/
theorem closed_pipe_reported :
    ¬ Quiet (outcome (Session.run ⟨SYSCALLS, .All, some 1, .whole⟩ (writeAll 0 ⟨.BrokenPipe, []⟩)
      [(.processExit 1 0, fun _ _ => none)] .json) []).1 :=
  loud_json (by decide +kernel) (by decide)

end Syren
