import Syren.Cli.EbpfCommand
import Syren.Cli.LostTail
import Syren.Decode.Arity
import Syren.Output.Failures
import Syren.Output.JsonLines
import Syren.Trace.Streams

/-! What a reader of the JSON output of a command learns of the program that the command runs. -/
namespace Syren
open Output Writers Interaction Interaction.Attempt Relation

variable {α ω : Type} {tracer : Traceable α} {session : Session} {step : α → PassEnd → α → Prop}
  {a b : α} {outlet : Outlet IoError ω} {w : ω} {c : UInt8}

/-- A result that the table of errors has a name for: it ends at 133 and has two gaps. -/
def Fails (ret : Int64) : Prop := -133 ≤ ret ∧ ret < 0 ∧ ret ≠ -41 ∧ ret ≠ -58

instance (ret : Int64) : Decidable (Fails ret) :=
  inferInstanceAs (Decidable (_ ∧ _ ∧ _ ∧ _))

/-- A decoded call tells of a line: its task, its number and name, its result, whether that is an
error with a name, and as its arguments as many of the registers as it shows. -/
structure TellsOf (table : List SyscallInfo) (d : DecodedSyscall) (line : Line) : Prop where
  tid : d.tid = line.1
  nr : d.nr = line.2.1
  name : d.name = syscallName table line.2.1
  args : d.args.map DecodedArg.raw <+: line.2.2.1.toList
  ret : d.retval = line.2.2.2
  error : d.error.isSome ↔ Fails line.2.2.2

theorem decodeTyped_raws (name : String) (info : SyscallInfo) (ev : SyscallEvent)
    (mem : MemoryReader) :
    (decodeTyped name info ev mem).map DecodedArg.raw = ev.args.toList.take info.args.length := by
  have hsix := info.sixAtMost
  apply List.ext_getElem
  · simp [decodeTyped, hsix]
  · intro k _ _
    simp [decodeTyped, rawOf, Vector.get]

theorem tellsOf_decode (table : List SyscallInfo) (ev : SyscallEvent) (mem : MemoryReader) :
    TellsOf table (decode table ev mem) (ev.tid, ev.nr, ev.args, ev.retval) := by
  have herror : ev.isError ∧ ev.Named ↔ Fails ev.retval := by
    have hlit : (-4095 : Int64) ≤ -133 := by decide
    simp only [SyscallEvent.isError, SyscallEvent.Named, Fails, decide_eq_true_eq]
    constructor
    · rintro ⟨⟨-, hneg⟩, hlow, hgaps⟩
      exact ⟨hlow, hneg, hgaps⟩
    · rintro ⟨hlow, hneg, hgaps⟩
      exact ⟨⟨Int64.le_trans hlit hlow, hneg⟩, hlow, hgaps⟩
  refine ⟨rfl, rfl, rfl, ?_, rfl, (decode_error table ev mem).trans herror⟩
  have hraw : (decodeRaw ev).map DecodedArg.raw <+: ev.args.toList := by
    rw [decodeRaw_raws]
    exact List.rdropWhile_prefix _ _
  unfold decode
  dsimp only
  cases ev.info table with
  | none => exact hraw
  | some info =>
    dsimp only
    split_ifs
    · exact hraw
    · rw [decodeTyped_raws]
      exact List.take_prefix _ _

/-- The filter lets the call of a line through. -/
def Session.lets (session : Session) (line : Line) : Bool := session.filter.allows line.2.1

/-- The records are about the syscalls that the filter lets through, in order. -/
theorem records_tell (evs : List (Event × MemoryReader)) :
    List.Forall₂ (TellsOf session.table) (Output.syscalls (session.records evs))
      (((evs.map Prod.fst).filterMap lineOf).filter session.lets) := by
  induction evs with
  | nil => exact .nil
  | cons x evs ih =>
    obtain ⟨event, mem⟩ := x
    cases event with
    | syscall ev =>
      have hline : lineOf (.syscall ev) = some (ev.tid, ev.nr, ev.args, ev.retval) := rfl
      rw [List.map_cons, List.filterMap_cons_some hline, Session.records]
      by_cases hallowed : session.lets (ev.tid, ev.nr, ev.args, ev.retval)
      · have hrec : session.recordOf (.syscall ev, mem) =
            some (.syscall (decode session.table ev mem)) := if_pos hallowed
        rw [List.filterMap_cons_some hrec, List.filter_cons_of_pos hallowed]
        exact .cons (tellsOf_decode ..) ih
      · have hrec : session.recordOf (.syscall ev, mem) = none := if_neg hallowed
        rw [List.filterMap_cons_none hrec, List.filter_cons_of_neg hallowed]
        exact ih
    | processExit | signal => exact ih

theorem lines_eq_yielded (l : List (PassEnd × α)) : lines l = (yielded l).filterMap lineOf := by
  rw [yielded, List.filterMap_filterMap, lines]
  refine List.filterMap_congr fun x _ => ?_
  obtain ⟨_ | _ | _ | ev, b⟩ := x <;> rfl

/-- When a command succeeds and nothing is left behind in its outlet, all its records have come
through. -/
theorem Session.run_output {evs : List (Event × MemoryReader)} {sink : Sink}
    (h : outcome (session.run outlet.write evs sink) outlet.start = (.ok c, w))
    (hw : outlet.Clean w) : outlet.through w = sink.output session.fmt (session.records evs) := by
  rw [run_eq] at h
  obtain ⟨_, written, hall, hcode⟩ := outcome_bind_eq_ok h
  rw [outcome_pure] at hcode
  cases hcode
  rw [outlet.whole _ _ hall hw, Sink.allWrites_output]

/-- The output of a command that succeeds is that of records that tell of the syscalls that the
tracer has returned, as far as the filter lets them through. -/
theorem Loops.heard {sink : Sink} (hp : tracer.Passes step)
    (h : Loops tracer session outlet.write a sink 0 outlet.start (.ok c) b w)
    (hw : outlet.Clean w) : ∃ l recs, IsRun step a (l ++ [(.ok (some none), b)]) ∧
      outlet.through w = sink.output session.fmt recs ∧
        List.Forall₂ (TellsOf session.table) (Output.syscalls recs)
          ((lines l).filter session.lets) := by
  obtain ⟨l, evs, hrun, hevs, hr⟩ := h.passes hp
  refine ⟨l, session.records evs, hrun, Session.run_output hr hw, ?_⟩
  rw [lines_eq_yielded, hevs]
  exact records_tell evs

/-- A program that asks for its pid and exits. -/
def pidStory : Story := { exitStory with calls := [⟨39, .replicate 6 0, 100⟩] }

noncomputable def heardSession : Session where
  table := SYSCALLS
  filter := .All
  leader := some 100
  fmt := .whole

namespace PtraceTracer

/-- A command over the `ptrace` backend that runs a program and succeeds, and whose output has all
come through: what is read from it tells of the calls that the program made after its first stop, in
order, each as it was, and of no others, but for those that the filter leaves out. -/
theorem json_tells_made {s : Story} {before after : Traced} {t : PtraceTracer}
    {memory : PtraceTracer × Traced → SyscallEvent → MemoryReader → Prop}
    {b : PtraceTracer × Traced} (hu : before.Unborn)
    (hnew : Ends (storyKernel s) (new (.spawn s.program s.args) ⟨false⟩) before (.ok t) after)
    (h : Loops (asTracer (storyKernel s) memory) session outlet.write (t, after) .json 0
      outlet.start (.ok c) b w) (hw : outlet.Clean w) :
    ∃ recs, JsonSink.readStream (outlet.through w) = some recs ∧
      List.Forall₂ (TellsOf session.table) (Output.syscalls recs)
        (((s.launched.drop after.first).map (Made.line s.pid)).filter session.lets) ∧
        after.first ≤ s.attempts.length + 1 := by
  obtain ⟨l, recs, hrun, hout, htells⟩ := h.heard passes_asTracer hw
  obtain ⟨hlines, hfirst⟩ := Telling.lines_eq ⟨before, t, after, l, b, hu, hnew, hrun⟩
  exact ⟨recs, hout ▸ JsonSink.readStream_output _ _, hlines ▸ htells, hfirst⟩

def pidRegs (rax : UInt64) : Regs := ⟨39, 0, 0, 0, 0, 0, 0, rax⟩

theorem storyKernel_adopting_pidStory (k : Traced) (c : Call) (a : c.Answer) (k' : Traced)
    (h : adopting k c = some (a, k')) : storyKernel pidStory k c a k' := by
  cases c with
  | fork => cases h; exact ⟨rfl, rfl⟩
  | waitpid => cases h; exact ⟨rfl, 1, le_rfl, rfl⟩
  | now | setoptions | syscall => cases h; rfl
  | _ => cases h

/-- The program stops in its one call and out of it, enters its last call and exits. -/
theorem run_pidStory : ∃ l b, IsRun (passStep (storyKernel pidStory))
    (exitTracer, exitTraced .user false) (l ++ [(.ok (some none), b)]) ∧
      ∀ x ∈ l, ∀ e, x.1 ≠ .error e := by
  let t := exitTracer.withInflight ⟨100⟩ (some (enterOf (pidRegs 0) 0))
  let t₁ := { t.withInflight ⟨100⟩ none with pendingResume := some (⟨100⟩, none) }
  let t₂ := t₁.ready.withInflight ⟨100⟩ (some (enterOf exitRegs 0))
  let k : Traced := { exitTraced .entered false with regs := pidRegs 0 }
  let k₁ : Traced := ⟨.user, 1, 2, pidRegs 100, false⟩
  let k₂ : Traced := ⟨.entered, 1, 2, exitRegs, false⟩
  let call := completedCall 100 ⟨100⟩ (enterOf (pidRegs 0) 0) (pidRegs 100) 0
  have hnow (k : Traced) : storyKernel pidStory k .now (0 : ℕ) k := rfl
  have henter : passStep (storyKernel pidStory) (exitTracer, exitTraced .user false) (.ok none)
      (t, k) :=
    passStep_handled (e := none) (.ptraceSyscall ⟨100⟩) (.idle rfl)
      (Finset.singleton_ne_empty _) ⟨rfl, pidRegs 0, .inl ⟨rfl, rfl, rfl⟩⟩
      (.enter rfl ⟨rfl, rfl⟩ (hnow _) rfl)
  have hreturns : ∀ c, pidStory.launched[k.past]? = some c →
      (pidRegs 100).rax.toInt64 = c.ret := by
    rintro c ⟨⟩
    rfl
  have hleave : passStep (storyKernel pidStory) (t, k) (.ok (some (some (.syscall call))))
      (t₁, k₁) :=
    passStep_handled (e := some (.syscall call)) (.ptraceSyscall ⟨100⟩) (.idle rfl)
      (Finset.singleton_ne_empty _) ⟨rfl, pidRegs 100, .inr ⟨rfl, hreturns, rfl⟩⟩
      (.exit rfl ⟨rfl, by decide, rfl⟩ (hnow _) (.cached rfl))
  have hlast : passStep (storyKernel pidStory) (t₁, k₁) (.ok none) (t₂, k₂) :=
    passStep_handled (e := none) (.ptraceSyscall ⟨100⟩) (.pending rfl rfl)
      (Finset.singleton_ne_empty _) ⟨rfl, exitRegs, .inl ⟨rfl, rfl, rfl⟩⟩
      (.enter rfl ⟨rfl, rfl⟩ (hnow _) rfl)
  have hdies : passStep (storyKernel pidStory) (t₂, k₂) (.ok (some (some (.processExit 100 0))))
      (t₂.without ⟨100⟩, { k₂ with reaped := true }) :=
    passStep_handled (e := some (.processExit 100 0)) (.exited ⟨100⟩ 0) (.idle rfl)
      (Finset.singleton_ne_empty _) ⟨rfl, rfl, rfl⟩ (.exited (.cached rfl))
  have hover : passStep (storyKernel pidStory) (t₂.without ⟨100⟩, { k₂ with reaped := true })
      (.ok (some none)) (t₂.without ⟨100⟩, { k₂ with reaped := true }) :=
    passStep_iff.mpr (.empty (.idle rfl) rfl)
  exact ⟨[(_, t, k), (_, t₁, k₁), (_, t₂, k₂),
    (_, t₂.without ⟨100⟩, { k₂ with reaped := true })], _,
    ⟨henter, hleave, hlast, hdies, hover, trivial⟩, by simp⟩

theorem constructs_pidStory : Ends (storyKernel pidStory)
    (new (.spawn pidStory.program pidStory.args) ⟨false⟩)
    { exitTraced .user false with first := 0, past := 0 } (.ok exitTracer)
    (exitTraced .user false) := Program.exec_of_play storyKernel_adopting_pidStory rfl

/-- A command that traces the program with this backend succeeds. -/
theorem loops_pidStory {outlet : ℕ → Outlet IoError ω} (ho : Outlet.Roomy outlet) (sink : Sink) :
    ∃ limit c b w, Loops (asTracer (storyKernel pidStory) fun _ _ _ => True) heardSession
      (outlet limit).write (exitTracer, exitTraced .user false) sink 0 (outlet limit).start (.ok c)
      b w ∧ (outlet limit).Clean w := by
  obtain ⟨l, b, hrun, hsteps⟩ := run_pidStory
  have hp : (asTracer (storyKernel pidStory) fun _ _ _ => True).Passes _ := passes_asTracer
  exact hp.loops heardSession ho sink (fun _ _ => ⟨fun _ _ => none, trivial⟩) hrun hsteps

/-- The call is read from the file that the command has written. -/
theorem json_tells_made_pidStory : ∃ limit c b recs, ∃ w : Buffered,
    Loops (asTracer (storyKernel pidStory) fun _ _ _ => True) heardSession
      (outputFile limit ⟨.StorageFull, []⟩).write (exitTracer, exitTraced .user false) .json 0
      Buffered.empty (.ok c) b w ∧
        JsonSink.readStream ((outputFile limit ⟨.StorageFull, []⟩).through w) = some recs ∧
          List.Forall₂ (TellsOf SYSCALLS) (Output.syscalls recs)
            [(100, 39, .replicate 6 0, 100)] := by
  obtain ⟨limit, c, b, w, hloops, hclean⟩ :=
    loops_pidStory (roomy_outputFile ⟨.StorageFull, []⟩) .json
  obtain ⟨recs, hread, htells, -⟩ :=
    json_tells_made ⟨rfl, rfl, rfl, rfl⟩ constructs_pidStory hloops hclean
  exact ⟨limit, c, b, recs, w, hloops, hread, htells⟩

end PtraceTracer

namespace EbpfTracer

/-- A command over the eBPF backend that runs a program and succeeds, and whose output has all come
through: what is read from it tells of calls that the child left and had entered after its tid was
inserted, also of the one it was killed in, in order, each as it was, and of no others; and of all
of them where the maps and the ring have room, but for those that the filter leaves out. -/
theorem json_tells_left {room : Bool} {s : Story} {table : List SyscallInfo}
    {before after : Watched} {t : EbpfTracer}
    {memory : EbpfTracer × Watched → SyscallEvent → MemoryReader → Prop} {b : EbpfTracer × Watched}
    (hu : before.Unborn s)
    (hnew : Ends (watchKernel room s) (new table (.spawn s.program s.args) ⟨false⟩) before (.ok t)
      after)
    (h : Loops (asTracer (watchKernel room s) memory) session outlet.write (t, after) .json 0
      outlet.start (.ok c) b w) (hw : outlet.Clean w) :
    ∃ recs told, JsonSink.readStream (outlet.through w) = some recs ∧
      List.Forall₂ (TellsOf session.table) (Output.syscalls recs) told ∧
        Among room told (((s.left.drop after.missed).map (Made.line s.pid)).filter session.lets) ∧
          after.missed ≤ s.opening.length + 1 := by
  obtain ⟨l, recs, hrun, hout, htells⟩ := h.heard passes_asTracer hw
  obtain ⟨hamong, hmissed⟩ :=
    Telling.lines_among ⟨table, before, t, after, l, b, hu, hnew, hrun⟩
  exact ⟨recs, _, hout ▸ JsonSink.readStream_output _ _, htells, hamong.filter _, hmissed⟩

theorem passStep_ok {σ : Type} {env : Kernel σ} {a b : EbpfTracer × σ} {o : Outcome}
    (h : passStep env a o b) (e : TraceError) : o ≠ .error e := by
  obtain ⟨fuel, hr⟩ := h
  have hpass := runs_nextEventPass.mp hr
  rintro rfl
  cases hpass

def pidWatched : Watched :=
  { unbornWatched.arms pidStory 100 with born := true, filled := true }

/-- The child reads the byte, executes the program, asks for its pid and exits. -/
theorem lives_pidStory : ∃ k, ReflTransGen (Watched.Lives true pidStory) pidWatched k ∧
    k.taken < k.maps.events.length ∧ k.dead = true := by
  let k₁ := pidWatched.enters (entering 0 pidStory.read.args)
  let k₂ := k₁.leaves (leaving 1)
  let k₃ := k₂.enters (entering 59 pidStory.exec.args)
  let k₄ := k₃.leaves (leaving 0)
  let k₅ := k₄.enters (entering 39 (.replicate 6 0))
  let k₆ := k₅.leaves (leaving 100)
  let k₇ := k₆.enters (entering 231 (.replicate 6 0))
  have hread : pidWatched.Lives true pidStory k₁ :=
    .enters (entering 0 pidStory.read.args) ⟨0, _⟩ rfl rfl rfl rfl rfl rfl fun _ => by decide
  have hgoes : k₁.Lives true pidStory k₂ :=
    .leaves (leaving 1) pidStory.read rfl rfl (fun _ => rfl) rfl rfl fun _ => rfl
  have hexec : k₂.Lives true pidStory k₃ :=
    .enters (entering 59 pidStory.exec.args) ⟨59, _⟩ rfl rfl rfl rfl rfl rfl fun _ => by decide
  have hstarts : k₃.Lives true pidStory k₄ :=
    .leaves (leaving 0) pidStory.exec rfl rfl (fun _ => rfl) rfl rfl fun _ => rfl
  have hasks : k₄.Lives true pidStory k₅ :=
    .enters (entering 39 (.replicate 6 0)) ⟨39, _⟩ rfl rfl rfl rfl rfl rfl fun _ => by decide
  have hanswers : k₅.Lives true pidStory k₆ :=
    .leaves (leaving 100) ⟨39, .replicate 6 0, 100⟩ rfl rfl (fun _ => rfl) rfl rfl fun _ => rfl
  have hexits : k₆.Lives true pidStory k₇ :=
    .enters (entering 231 (.replicate 6 0)) ⟨231, _⟩ rfl rfl rfl rfl rfl rfl fun _ => by decide
  have hdies : k₇.Lives true pidStory { k₇ with dead := true } := .dies rfl rfl
  have hlaunch := ((ReflTransGen.single hread).tail hgoes).tail hexec |>.tail hstarts
  exact ⟨_, (((hlaunch.tail hasks).tail hanswers).tail hexits).tail hdies, by decide, rfl⟩

theorem constructs_pidStory : Ends (watchKernel true pidStory)
    (new [] (.spawn pidStory.program pidStory.args) ⟨false⟩) unbornWatched (.ok spawned)
    pidWatched := Program.exec_of_play (watchKernel_settingUp true pidStory) rfl

/-- A command that traces the program with this backend succeeds. -/
theorem loops_pidStory {outlet : ℕ → Outlet IoError ω} (ho : Outlet.Roomy outlet) (sink : Sink) :
    ∃ limit c b w, Loops (asTracer (watchKernel true pidStory) fun _ _ _ => True) heardSession
      (outlet limit).write (spawned, pidWatched) sink 0 (outlet limit).start (.ok c) b w ∧
        (outlet limit).Clean w := by
  obtain ⟨k, hlives, hring, hdead⟩ := lives_pidStory
  obtain ⟨l, last, hrun⟩ := tells (t := spawned) hlives hring hdead rfl rfl
  have hsteps := hrun.faultless (I := fun _ => True) (F := fun _ => False)
    (Q := fun o _ => ∀ e, o ≠ .error e) trivial (fun _ _ _ _ _ => trivial) (fun _ _ _ _ hf => hf)
    (fun _ _ _ _ hs _ => passStep_ok hs) (fun hf => hf)
  have hp : (asTracer (watchKernel true pidStory) fun _ _ _ => True).Passes _ := passes_asTracer
  exact hp.loops heardSession ho sink (fun _ _ => ⟨fun _ _ => none, trivial⟩) hrun
    fun x hx => hsteps x (List.mem_append_left _ hx)

/-- The read of the pipe, the execution and the call are read from the output. -/
theorem json_tells_left_pidStory : ∃ limit c b bytes recs,
    Loops (asTracer (watchKernel true pidStory) fun _ _ _ => True) heardSession
      (outputStream limit ⟨.BrokenPipe, []⟩).write (spawned, pidWatched) .json 0 [] (.ok c) b
      bytes ∧ JsonSink.readStream bytes = some recs ∧
        List.Forall₂ (TellsOf SYSCALLS) (Output.syscalls recs) [(100, 0, #v[3, 0, 1, 0, 0, 0], 1),
          (100, 59, .replicate 6 0, 0), (100, 39, .replicate 6 0, 100)] := by
  obtain ⟨limit, c, b, bytes, hloops, hclean⟩ :=
    loops_pidStory (roomy_outputStream ⟨.BrokenPipe, []⟩) .json
  obtain ⟨recs, told, hread, htells, hamong, -⟩ := json_tells_left
    ⟨rfl, rfl, rfl, rfl, rfl, rfl, rfl, rfl, rfl⟩ constructs_pidStory hloops hclean
  have htold : told = [(100, 0, #v[3, 0, 1, 0, 0, 0], 1), (100, 59, .replicate 6 0, 0),
      (100, 39, .replicate 6 0, 100)] := hamong.all rfl
  exact ⟨limit, c, b, bytes, recs, hloops, hread, htold ▸ htells⟩

end EbpfTracer

end Syren
