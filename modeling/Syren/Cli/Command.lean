import Syren.Cli.Run
import Syren.Trace.PtraceGroups
import Syren.Writers.Buffered

/-! The loop of `run` as it takes turns between a tracer and a sink, whichever backend the tracer
has, and what it comes to: the session over the events that the tracer returned. -/
namespace Syren
open Output Writers

/-- The trait `Tracer`, as far as the loop uses it: a call leads from one state of the tracer and
of the system it traces to another. -/
structure Traceable (α : Type) where
  nextEvent : α → Except TraceError (Option Event) → α → Prop
  memory : α → SyscallEvent → MemoryReader → Prop

/-- What `run` fails with once the tracer and the output are there. -/
inductive Failure where
  | trace (e : TraceError)
  | output (e : IoError)

variable {α σ : Type}

namespace Session

/-- The memory that the loop asks for, for the syscalls that the filter lets through. -/
def Asks (session : Session) (tracer : Traceable α) (a : α) (x : Event × MemoryReader) : Prop :=
  match x.1 with
  | .syscall ev => session.filter.allows ev.nr = true → tracer.memory a ev x.2
  | _ => True

/-- The body of the loop for one event, with the sink and the exit code so far. -/
def body (session : Session) (write : List UInt8 → Io IoError σ Unit) (x : Event × MemoryReader)
    (sink : Sink) (code : Int32) : Io IoError σ (Sink × Int32) :=
  match x.1 with
  | .syscall ev => do
    if session.filter.allows ev.nr then
      let sink ← sink.record session.fmt write (.syscall (decode session.table ev x.2))
      return (sink, code)
    else return (sink, code)
  | .processExit pid status => do
    let code := if some pid = session.leader then status else code
    let sink ← sink.record session.fmt write (.exit pid status)
    return (sink, code)
  | .signal pid sig => do
    let sink ← sink.record session.fmt write (.signal pid sig)
    return (sink, code)

end Session

/-- The rest of the loop of `run` with what follows it, from a state of the tracer, the sink, the
exit code so far and a state of the output. -/
inductive Loops (tracer : Traceable α) (session : Session)
    (write : List UInt8 → Io IoError σ Unit) :
    α → Sink → Int32 → σ → Except Failure UInt8 → α → σ → Prop where
  | ended {a b : α} {sink : Sink} {code : Int32} {w w' : σ} {q : Except IoError Unit}
      (hn : tracer.nextEvent a (.ok none) b)
      (hf : outcome (sink.finish session.fmt write) w = (q, w')) :
      Loops tracer session write a sink code w
        ((q.map fun _ => exitCode code).mapError .output) b w'
  | failed {a b : α} {sink : Sink} {code : Int32} {w : σ} {e : TraceError}
      (hn : tracer.nextEvent a (.error e) b) :
      Loops tracer session write a sink code w (.error (.trace e)) b w
  | refused {a b : α} {sink : Sink} {code : Int32} {w w' : σ} {x : Event × MemoryReader}
      {e : IoError} (hn : tracer.nextEvent a (.ok (some x.1)) b) (hm : session.Asks tracer b x)
      (hw : outcome (session.body write x sink code) w = (.error e, w')) :
      Loops tracer session write a sink code w (.error (.output e)) b w'
  | handled {a a₁ b : α} {sink sink' : Sink} {code code' : Int32} {w w₁ w' : σ}
      {x : Event × MemoryReader} {r : Except Failure UInt8}
      (hn : tracer.nextEvent a (.ok (some x.1)) a₁) (hm : session.Asks tracer a₁ x)
      (hw : outcome (session.body write x sink code) w = (.ok (sink', code'), w₁))
      (hr : Loops tracer session write a₁ sink' code' w₁ r b w') :
      Loops tracer session write a sink code w r b w'

/-- The events that successive calls of `next_event` return, each with the memory asked for it. -/
inductive Traces (tracer : Traceable α) (session : Session) :
    α → List (Event × MemoryReader) → α → Prop where
  | nil {a : α} : Traces tracer session a [] a
  | cons {a a₁ b : α} {x : Event × MemoryReader} {evs : List (Event × MemoryReader)}
      (hn : tracer.nextEvent a (.ok (some x.1)) a₁) (hm : session.Asks tracer a₁ x)
      (hr : Traces tracer session a₁ evs b) : Traces tracer session a (x :: evs) b

variable {tracer : Traceable α} {session : Session} {write : List UInt8 → Io IoError σ Unit}
  {a b : α} {sink : Sink} {code : Int32} {w w' : σ} {r : Except Failure UInt8}

namespace Session

theorem outcome_loop_nil :
    outcome (session.loop write [] sink code) w = (.ok (sink, code), w) := rfl

theorem loop_cons (x : Event × MemoryReader) (evs : List (Event × MemoryReader)) :
    session.loop write (x :: evs) sink code =
      session.body write x sink code >>= fun p => session.loop write evs p.1 p.2 := by
  obtain ⟨event, mem⟩ := x
  cases event with
  | syscall ev =>
    by_cases hallowed : session.filter.allows ev.nr
    · simp only [loop, body, if_pos hallowed, bind_assoc, pure_bind]
    · simp only [loop, body, if_neg hallowed, pure_bind]
  | processExit pid status => simp only [loop, body, bind_assoc, pure_bind]
  | signal pid sig => simp only [loop, body, bind_assoc, pure_bind]

theorem loop_append (evs more : List (Event × MemoryReader)) :
    session.loop write (evs ++ more) sink code =
      session.loop write evs sink code >>= fun p => session.loop write more p.1 p.2 := by
  induction evs generalizing sink code with
  | nil => rfl
  | cons x evs ih => simp only [List.cons_append, loop_cons, bind_assoc, ih]

end Session

/-- How the command ends after a trace: all events written and the trace over, or failed; or an
event of which the record could not be written. -/
inductive Ended (tracer : Traceable α) (session : Session) (write : List UInt8 → Io IoError σ Unit)
    (a : α) (sink : Sink) (code : Int32) (w : σ) : Except Failure UInt8 → α → σ → Prop where
  | finished {evs : List (Event × MemoryReader)} {a₁ b : α} {p : Sink × Int32} {w₁ w' : σ}
      {q : Except IoError Unit} (ht : Traces tracer session a evs a₁)
      (hn : tracer.nextEvent a₁ (.ok none) b)
      (hw : outcome (session.loop write evs sink code) w = (.ok p, w₁))
      (hf : outcome (p.1.finish session.fmt write) w₁ = (q, w')) :
      Ended tracer session write a sink code w
        ((q.map fun _ => exitCode p.2).mapError .output) b w'
  | failed {evs : List (Event × MemoryReader)} {a₁ b : α} {p : Sink × Int32} {w₁ : σ}
      {e : TraceError} (ht : Traces tracer session a evs a₁)
      (hn : tracer.nextEvent a₁ (.error e) b)
      (hw : outcome (session.loop write evs sink code) w = (.ok p, w₁)) :
      Ended tracer session write a sink code w (.error (.trace e)) b w₁
  | refused {evs : List (Event × MemoryReader)} {x : Event × MemoryReader} {b : α}
      {p : Sink × Int32} {w₁ w' : σ} {e : IoError} (ht : Traces tracer session a (evs ++ [x]) b)
      (hw : outcome (session.loop write evs sink code) w = (.ok p, w₁))
      (hx : outcome (session.loop write (evs ++ [x]) sink code) w = (.error e, w')) :
      Ended tracer session write a sink code w (.error (.output e)) b w'

/-- One event more in front of a trace that goes on. -/
theorem Ended.handled {a a₁ : α} {x : Event × MemoryReader} {sink sink' : Sink}
    {code code' : Int32} {w w₁ : σ} (hn : tracer.nextEvent a (.ok (some x.1)) a₁)
    (hm : session.Asks tracer a₁ x)
    (hw : outcome (session.body write x sink code) w = (.ok (sink', code'), w₁))
    (h : Ended tracer session write a₁ sink' code' w₁ r b w') :
    Ended tracer session write a sink code w r b w' := by
  have hloop (evs : List (Event × MemoryReader)) :
      outcome (session.loop write (x :: evs) sink code) w =
        outcome (session.loop write evs sink' code') w₁ := by
    rw [Session.loop_cons, outcome_bind_ok hw]
  cases h with
  | finished ht hend hrest hf => exact .finished (.cons hn hm ht) hend ((hloop _).trans hrest) hf
  | failed ht hend hrest => exact .failed (.cons hn hm ht) hend ((hloop _).trans hrest)
  | refused ht hrest hx =>
    have hcons := Traces.cons hn hm ht
    rw [← List.cons_append] at hcons
    exact .refused hcons ((hloop _).trans hrest) ((hloop _).trans hx)

theorem Loops.ends (h : Loops tracer session write a sink code w r b w') :
    Ended tracer session write a sink code w r b w' := by
  induction h with
  | @ended _ _ sink code _ _ _ hn hf =>
    exact .finished (p := (sink, code)) .nil hn Session.outcome_loop_nil hf
  | failed hn => exact .failed .nil hn Session.outcome_loop_nil
  | refused hn hm hw =>
    have ht : Traces tracer session _ ([] ++ [_]) _ := .cons hn hm .nil
    refine .refused ht Session.outcome_loop_nil ?_
    rw [List.nil_append, Session.loop_cons, outcome_bind_error hw]
  | handled hn hm hw _ ih => exact ih.handled hn hm hw

/-- A loop whose first calls return `evs`, all written, goes on from there. -/
theorem Loops.after {evs : List (Event × MemoryReader)} {a a₁ : α} {sink : Sink} {code : Int32}
    {w w₁ : σ} {p : Sink × Int32} (ht : Traces tracer session a evs a₁)
    (hw : outcome (session.loop write evs sink code) w = (.ok p, w₁))
    (h : Loops tracer session write a₁ p.1 p.2 w₁ r b w') :
    Loops tracer session write a sink code w r b w' := by
  induction ht generalizing sink code w with
  | nil =>
    obtain ⟨hp, rfl⟩ := Prod.mk.inj (Session.outcome_loop_nil.symm.trans hw)
    cases hp
    exact h
  | @cons a a₂ b x evs hn hm hr ih =>
    rw [Session.loop_cons] at hw
    cases hbody : outcome (session.body write x sink code) w with
    | mk result w₂ =>
      cases result with
      | error e =>
        rw [outcome_bind_error hbody] at hw
        cases hw
      | ok p₂ =>
        rw [outcome_bind_ok hbody] at hw
        exact .handled hn hm hbody (ih hw h)

theorem Traces.split {evs : List (Event × MemoryReader)} {x : Event × MemoryReader}
    (h : Traces tracer session a (evs ++ [x]) b) : ∃ a₁, Traces tracer session a evs a₁ ∧
      tracer.nextEvent a₁ (.ok (some x.1)) b ∧ session.Asks tracer b x := by
  induction evs generalizing a with
  | nil =>
    obtain _ | ⟨hn, hm, ⟨⟩⟩ := h
    exact ⟨a, .nil, hn, hm⟩
  | cons y evs ih =>
    obtain _ | ⟨hn, hm, hr⟩ := h
    obtain ⟨a₁, hevs, hx⟩ := ih hr
    exact ⟨a₁, .cons hn hm hevs, hx⟩

/-- The loop, which takes turns between the tracer and the output, ends in exactly the ways in
which the session over the returned events does: each event is written before the next is asked
for, nothing is asked for after a failed write, and a trace that fails is not finished. -/
theorem loops_iff : Loops tracer session write a sink code w r b w' ↔
    Ended tracer session write a sink code w r b w' := by
  constructor
  · exact Loops.ends
  · intro h
    cases h with
    | finished ht hn hw hf => exact .after ht hw (.ended hn hf)
    | failed ht hn hw => exact .after ht hw (.failed hn)
    | refused ht hw hx =>
      obtain ⟨a₁, hevs, hn, hm⟩ := ht.split
      refine .after hevs hw (.refused hn hm ?_)
      rw [Session.loop_append, outcome_bind_ok hw, Session.loop_cons] at hx
      cases hbody : outcome (session.body write _ _ _) _ with
      | mk result w₂ =>
        cases result with
        | error e =>
          rw [outcome_bind_error hbody] at hx
          exact hx
        | ok p₂ =>
          rw [outcome_bind_ok hbody, Session.outcome_loop_nil] at hx
          cases hx

namespace Session

/-- The exit code after one more event. -/
def codeOf (session : Session) (event : Event) (code : Int32) : Int32 :=
  match event with
  | .processExit pid status => if some pid = session.leader then status else code
  | _ => code

theorem codeAfter_eq (evs : List (Event × MemoryReader)) (code : Int32) :
    session.codeAfter evs code =
      (evs.map Prod.fst).foldl (fun code event => session.codeOf event code) code := by
  induction evs generalizing code with
  | nil => rfl
  | cons x evs ih =>
    obtain ⟨event, mem⟩ := x
    cases event <;> exact ih _

/-- The exit code depends on the events alone. -/
theorem run_code {evs : List (Event × MemoryReader)} {c : UInt8}
    (h : outcome (session.run write evs sink) w = (.ok c, w')) :
    c = exitCode ((evs.map Prod.fst).foldl (fun code event => session.codeOf event code) 0) := by
  rw [run_eq] at h
  obtain ⟨_, w₁, -, hcode⟩ := outcome_bind_eq_ok h
  rw [outcome_pure] at hcode
  cases hcode
  rw [codeAfter_eq]

end Session

/-- A command that succeeds has run the session over the events that the tracer returned before its
last call, which returned `None`. -/
theorem Loops.ran {c : UInt8} (h : Loops tracer session write a sink 0 w (.ok c) b w') :
    ∃ evs a₁, Traces tracer session a evs a₁ ∧ tracer.nextEvent a₁ (.ok none) b ∧
      outcome (session.run write evs sink) w = (.ok c, w') := by
  generalize hr : (Except.ok c : Except Failure UInt8) = r at h
  cases h.ends with
  | @finished evs a₁ _ p w₁ _ q ht hn hw hf =>
    obtain e | u := q
    · cases hr
    · cases hr
      refine ⟨evs, a₁, ht, hn, ?_⟩
      rw [Session.run, outcome_bind_ok hw, outcome_bind_ok hf, outcome_pure]
  | failed | refused => cases hr

theorem Loops.of_run {evs : List (Event × MemoryReader)} {a₁ : α} {c : UInt8}
    (ht : Traces tracer session a evs a₁) (hn : tracer.nextEvent a₁ (.ok none) b)
    (hr : outcome (session.run write evs sink) w = (.ok c, w')) :
    Loops tracer session write a sink 0 w (.ok c) b w' := by
  obtain ⟨p, w₁, hw, hrest⟩ := outcome_bind_eq_ok hr
  obtain ⟨_, w₂, hf, hcode⟩ := outcome_bind_eq_ok hrest
  rw [outcome_pure] at hcode
  cases hcode
  exact .after ht hw (.ended (q := .ok ()) hn hf)

section Passes
open Interaction Interaction.Method

/-- What a pass of `next_event` comes to: it goes round, or it returns. -/
abbrev PassEnd := Except TraceError (Option (Option Event))

/-- The events that the passes of a run have returned. -/
def yielded (l : List (PassEnd × α)) : List Event :=
  l.filterMap fun x => PtraceTracer.eventOf x.1

/-- The calls of the tracer are the runs of passes that all go round but the last, which returns. -/
def Traceable.Passes (tracer : Traceable α) (step : α → PassEnd → α → Prop) : Prop :=
  ∀ a r b, tracer.nextEvent a r b ↔ ∃ l o, IsRun step a (l ++ [(o, b)]) ∧
    (∀ x ∈ l, x.1 = .ok none) ∧ returned o = some r

variable {step : α → PassEnd → α → Prop}

theorem yielded_silent {l : List (PassEnd × α)} (hl : ∀ x ∈ l, x.1 = .ok none) :
    yielded l = [] := by
  refine List.filterMap_eq_nil_iff.mpr fun x hx => ?_
  rw [hl x hx]
  rfl

/-- What a call of `next_event` returns is what its passes yield. -/
theorem yielded_call {l : List (PassEnd × α)} {o : PassEnd} {r : Option Event}
    (hl : ∀ x ∈ l, x.1 = .ok none) (ho : returned o = some (.ok r)) :
    yielded (l ++ [(o, b)]) = r.toList := by
  have heq : o = .ok (some r) := by
    obtain e | _ | q := o <;> cases ho
    rfl
  rw [yielded, List.filterMap_append, ← yielded, yielded_silent hl, heq]
  cases r <;> rfl

theorem Traceable.Passes.run (hp : tracer.Passes step) {evs : List (Event × MemoryReader)}
    (h : Traces tracer session a evs b) :
    ∃ l, IsRun step a l ∧ lastState a l = b ∧ yielded l = evs.map Prod.fst := by
  induction h with
  | nil => exact ⟨[], trivial, rfl, rfl⟩
  | @cons a a₁ b x evs hn _ _ ih =>
    obtain ⟨l, o, hrun, hl, ho⟩ := (hp _ _ _).mp hn
    obtain ⟨m, hm, hlast, hevs⟩ := ih
    have hend : lastState a (l ++ [(o, a₁)]) = a₁ := lastState_concat _ _
    refine ⟨l ++ [(o, a₁)] ++ m, isRun_append.mpr ⟨hrun, hend.symm ▸ hm⟩, ?_, ?_⟩
    · rw [lastState_append, hend, hlast]
    · rw [yielded, List.filterMap_append, ← yielded, ← yielded, yielded_call hl ho, hevs]
      rfl

/-- A command that succeeds has gone through passes of which the last returned `None`, and has run
the session over the events that the ones before returned. -/
theorem Loops.passes {c : UInt8} (hp : tracer.Passes step)
    (h : Loops tracer session write a sink 0 w (.ok c) b w') :
    ∃ l evs, IsRun step a (l ++ [(.ok (some none), b)]) ∧ yielded l = evs.map Prod.fst ∧
      outcome (session.run write evs sink) w = (.ok c, w') := by
  obtain ⟨evs, a₁, ht, hn, hr⟩ := h.ran
  obtain ⟨l, hrun, hlast, hevs⟩ := hp.run ht
  obtain ⟨m, o, hlastrun, hm, ho⟩ := (hp _ _ _).mp hn
  obtain rfl : o = .ok (some none) := by
    obtain e | _ | r := o <;> cases ho
    rfl
  refine ⟨l ++ m, evs, ?_, ?_, hr⟩
  · rw [List.append_assoc]
    exact isRun_append.mpr ⟨hrun, hlast.symm ▸ hlastrun⟩
  · rw [yielded, List.filterMap_append, ← yielded, ← yielded, yielded_silent hm, hevs,
      List.append_nil]

/-- An outlet that takes all records lets the run succeed. -/
theorem Session.run_clean {outlet : Outlet IoError σ} {evs : List (Event × MemoryReader)}
    (hw : outcome (perform outlet.write (sink.allWrites session.fmt (session.records evs)))
      outlet.start = (.ok (), w)) :
    outcome (session.run outlet.write evs sink) outlet.start =
      (.ok (exitCode (session.codeAfter evs 0)), w) := by
  rw [run_eq, outcome_bind_ok hw, outcome_pure]

/-- Passes without errors that come to an end are calls that return events and then `None`. -/
theorem Traceable.Passes.traces (hp : tracer.Passes step) (session : Session)
    (hmem : ∀ a ev, ∃ mem, tracer.memory a ev mem) {l : List (PassEnd × α)}
    (h : IsRun step a (l ++ [(.ok (some none), b)])) (hl : ∀ x ∈ l, ∀ e, x.1 ≠ .error e) :
    ∃ evs a₁ b', Traces tracer session a evs a₁ ∧ tracer.nextEvent a₁ (.ok none) b' := by
  induction l generalizing a with
  | nil => exact ⟨[], a, b, .nil, (hp _ _ _).mpr ⟨[], _, h, by simp, rfl⟩⟩
  | cons x l ih =>
    obtain ⟨o, a₂⟩ := x
    obtain ⟨hstep, hrest⟩ := h
    obtain ⟨evs, a₁, b', ht, hn⟩ := ih hrest fun x hx => hl x (List.mem_cons_of_mem _ hx)
    have hcall {r : Except TraceError (Option Event)} (ho : Method.returned o = some r) :
        tracer.nextEvent a r a₂ := (hp _ _ _).mpr ⟨[], o, ⟨hstep, trivial⟩, by simp, ho⟩
    -- A pass that goes round belongs to the call of the passes after it.
    have hround {r : Except TraceError (Option Event)} {c : α} (ho : o = .ok none)
        (hc : tracer.nextEvent a₂ r c) : tracer.nextEvent a r c := by
      obtain ⟨m, o', hrun, hm, hr⟩ := (hp _ _ _).mp hc
      exact (hp _ _ _).mpr ⟨(o, a₂) :: m, o', ⟨hstep, hrun⟩, List.forall_mem_cons.mpr ⟨ho, hm⟩, hr⟩
    obtain e | _ | _ | ev := o
    · exact absurd rfl (hl _ List.mem_cons_self e)
    · cases ht with
      | nil => exact ⟨[], a, b', .nil, hround rfl hn⟩
      | cons hfirst hm hr => exact ⟨_, a₁, b', .cons (hround rfl hfirst) hm hr, hn⟩
    · exact ⟨[], a, a₂, .nil, hcall rfl⟩
    · have hasks : ∃ mem, session.Asks tracer a₂ (ev, mem) := by
        cases ev with
        | syscall ev =>
          obtain ⟨mem, hm⟩ := hmem a₂ ev
          exact ⟨mem, fun _ => hm⟩
        | processExit | signal => exact ⟨fun _ _ => none, trivial⟩
      obtain ⟨mem, hm⟩ := hasks
      exact ⟨(ev, mem) :: evs, a₁, b', .cons (hcall rfl) hm ht, hn⟩

/-- A command over such passes succeeds when the outlet has room. -/
theorem Traceable.Passes.loops (hp : tracer.Passes step) (session : Session)
    {outlet : ℕ → Outlet IoError σ} (ho : Outlet.Roomy outlet) (sink : Sink)
    (hmem : ∀ a ev, ∃ mem, tracer.memory a ev mem) {l : List (PassEnd × α)}
    (h : IsRun step a (l ++ [(.ok (some none), b)])) (hl : ∀ x ∈ l, ∀ e, x.1 ≠ .error e) :
    ∃ limit c b' w, Loops tracer session (outlet limit).write a sink 0 (outlet limit).start (.ok c)
      b' w ∧ (outlet limit).Clean w := by
  obtain ⟨evs, a₁, b', ht, hn⟩ := hp.traces session hmem h hl
  obtain ⟨limit, w, hall, hclean⟩ := ho (sink.allWrites session.fmt (session.records evs))
  exact ⟨limit, _, b', w, .of_run ht hn (Session.run_clean hall), hclean⟩

end Passes

namespace PtraceTracer
open Interaction Interaction.Method

variable {env : Kernel σ}

/-- The `ptrace` backend as the command line sees it. -/
def asTracer (env : Kernel σ)
    (memory : PtraceTracer × σ → SyscallEvent → MemoryReader → Prop) :
    Traceable (PtraceTracer × σ) where
  nextEvent a r b := ∃ fuel, Runs env (nextEvent fuel) a.1 a.2 r b.1 b.2
  memory := memory

variable {memory : PtraceTracer × σ → SyscallEvent → MemoryReader → Prop}

theorem passes_asTracer : (asTracer env memory).Passes (passStep env) :=
  fun _ _ _ => runs_nextEvent_iff

theorem codeOf_other {event : Event} {leader : Pid} {code : Int32}
    (hs : session.leader = some leader.toU32)
    (h : ∀ status, event ≠ .processExit leader.toU32 status) :
    session.codeOf event code = code := by
  cases event with
  | processExit pid status =>
    refine if_neg fun he => ?_
    rw [hs, Option.some.injEq] at he
    exact h status (he ▸ rfl)
  | syscall | signal => rfl

/-- Once the leader was reported dead the exit code is its exit status, and no thread that was
reported before it or is reported after it changes that. -/
theorem code_run {g : Groups} {a : PtraceTracer × Finset Pid} {leader : Pid}
    {l : List (Outcome × (PtraceTracer × Finset Pid))} (ha : Launched g a)
    (h : IsRun (passStep (groupKernel g)) a l) (hs : session.leader = some leader.toU32)
    (hlead : g.group leader = leader) (hdead : leader ∈ (lastState a l).2) :
    (events l).foldl (fun code event => session.codeOf event code) 0 = g.code leader := by
  revert hdead
  refine observed_induction (motive := fun evs reaped => leader ∈ reaped →
    evs.foldl (fun code event => session.codeOf event code) 0 = g.code leader) ha h (by simp) ?_
  intro evs r r' e ih ho hdead
  rw [List.foldl_append]
  rcases ho with ⟨rfl, rfl⟩ | ⟨pid, ev, -, rfl, rfl, -, hx⟩ |
    ⟨pid, v, code, hp, rfl, rfl, hv, hcode⟩
  · exact ih hdead
  · show session.codeOf ev _ = _
    rw [codeOf_other hs fun status => hx _ status]
    exact ih hdead
  · show session.codeOf (.processExit v code) _ = _
    by_cases hpid : pid = leader
    · subst hpid
      have hown : v = pid.toU32 := by simpa [hlead] using hv
      rw [← hcode hlead, hown]
      exact if_pos hs.symm
    · have hold : leader ∈ r := (Finset.mem_insert.mp hdead).resolve_left (Ne.symm hpid)
      rw [codeOf_other hs, ih hold]
      rintro status ⟨⟩
      rcases hv with hgroup | hself
      · rw [Pid.toU32_inj] at hgroup
        exact hp.2 (hgroup ▸ hold)
      · exact hpid (Pid.toU32_inj.mp hself).symm

/-- A command over the `ptrace` backend that succeeds after its leader was reported dead exits with
the exit status of the leader's process, whatever its threads and the other processes of the tree
exit with, and in whichever order. -/
theorem command_exits_as_leader {g : Groups} {a b : PtraceTracer × Finset Pid} {leader : Pid}
    {memory : PtraceTracer × Finset Pid → SyscallEvent → MemoryReader → Prop} {c : UInt8}
    (ha : Launched g a) (hs : session.leader = a.1.leader)
    (hleader : a.1.leader = some leader.toU32) (hlead : g.group leader = leader)
    (h : Loops (asTracer (groupKernel g) memory) session write a sink 0 w (.ok c) b w')
    (hdead : leader ∈ b.2) : c = exitCode (g.code leader) := by
  obtain ⟨l, evs, hrun, hevs, hr⟩ := h.passes passes_asTracer
  have hend : lastState a (l ++ [(.ok (some none), b)]) = b := lastState_concat _ _
  have hrunCode := code_run ha hrun (hs.trans hleader) hlead (hend.symm ▸ hdead)
  have hyielded : events (l ++ [(.ok (some none), b)]) = evs.map Prod.fst := by
    rw [← hevs]
    simp [events, yielded, eventOf]
  rw [hyielded] at hrunCode
  exact (Session.run_code hr).trans (congrArg exitCode hrunCode)

theorem nextEvent_of_pass {a b : PtraceTracer × σ} {o : Outcome}
    {r : Except TraceError (Option Event)} (h : passStep env a o b) (ho : returned o = some r) :
    (asTracer env memory).nextEvent a r b :=
  runs_nextEvent_iff.mpr ⟨[], o, ⟨h, trivial⟩, by simp, ho⟩

noncomputable def leaderSession : Session where
  table := []
  filter := .All
  leader := some 100
  fmt := .whole

/-- The thread 101 exits with 0, then the process 100 with 7; the output takes everything. -/
theorem command_exits_seven :
    ∃ b : PtraceTracer × Finset Pid,
      Loops (asTracer (groupKernel twoThreads) fun _ _ _ => True) leaderSession
        (fun _ => (pure () : Io IoError Unit Unit)) (attachedTo 100 true, ∅) .json 0 () (.ok 7) b ()
        ∧ (7 : UInt8) = exitCode (twoThreads.code ⟨100⟩) := by
  let t := attachedTo 100 true
  let t₁ := (t.withTgid ⟨101⟩ 101).without ⟨101⟩
  let t₂ := (t₁.withTgid ⟨100⟩ 100).without ⟨100⟩
  have hthread : passStep (groupKernel twoThreads) (t, ∅)
      (.ok (some (some (.processExit 101 0)))) (t₁, {⟨101⟩}) :=
    passStep_handled (e := some (.processExit 101 0)) (.exited ⟨101⟩ 0) (.idle rfl)
      (Finset.singleton_ne_empty _) ⟨⟨by decide, by decide⟩, by decide, rfl⟩
      (.exited (.read (a := none) rfl ⟨rfl, rfl⟩))
  have hleader : passStep (groupKernel twoThreads) (t₁, {⟨101⟩})
      (.ok (some (some (.processExit 100 7)))) (t₂, {⟨100⟩, ⟨101⟩}) :=
    passStep_handled (e := some (.processExit 100 7)) (.exited ⟨100⟩ 7) (.idle rfl)
      (by decide) ⟨⟨by decide, by decide⟩, fun _ => rfl, rfl⟩
      (.exited (.read (a := none) rfl ⟨rfl, rfl⟩))
  have hover : passStep (groupKernel twoThreads) (t₂, {⟨100⟩, ⟨101⟩}) (.ok (some none))
      (t₂.ready, {⟨100⟩, ⟨101⟩}) := passStep_iff.mpr (.empty (.idle rfl) (by decide))
  have hloops : Loops (asTracer (groupKernel twoThreads) fun _ _ _ => True) leaderSession
      (fun _ => (pure () : Io IoError Unit Unit)) (t, ∅) .json 0 () (.ok 7)
      (t₂.ready, {⟨100⟩, ⟨101⟩}) () := by
    let mem : MemoryReader := fun _ _ => none
    refine .handled (x := (.processExit 101 0, mem)) (nextEvent_of_pass hthread rfl) trivial rfl ?_
    refine .handled (x := (.processExit 100 7, mem)) (nextEvent_of_pass hleader rfl) trivial rfl ?_
    exact .ended (q := .ok ()) (nextEvent_of_pass hover rfl) rfl
  exact ⟨_, hloops, command_exits_as_leader ⟨built_attachedTo 100 true, fun _ _ h => (by cases h),
    rfl⟩ rfl rfl rfl hloops (by decide)⟩

end PtraceTracer

end Syren
