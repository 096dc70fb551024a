import Syren.Trace.EbpfStory
import Syren.Trace.PtraceStory

/-! The two backends on one story: when they report the same syscalls. -/
namespace Syren
open Interaction Interaction.Attempt Relation Function

/-- Both report the same syscalls exactly when the child of the eBPF backend had entered its read
of the pipe before its tid was inserted, the child of the `ptrace` backend was stopped by a signal
before its first execution, and the program is not killed in a call. -/
theorem streams_agree_iff (s : Story) (e : EbpfTracer.Telling true s)
    (p : PtraceTracer.Telling s) :
    lines e.steps = lines p.steps ↔
      e.after.missed = s.opening.length + 1 ∧ p.after.first = 0 ∧ s.abandoned = [] := by
  obtain ⟨hebpf, hmissed⟩ := e.lines_eq
  obtain ⟨hptrace, hfirst⟩ := p.lines_eq
  have hlaunched := s.attempts_lt_launched
  rw [hebpf, hptrace]
  constructor
  · intro h
    have hlen := congrArg List.length h
    simp only [List.length_map, List.length_drop, Story.left, List.length_append,
      List.length_cons] at hlen
    refine ⟨by omega, by omega, List.eq_nil_of_length_eq_zero (by omega)⟩
  · rintro ⟨hread, hnone, hleft⟩
    rw [hread, hnone, Story.left, hleft, List.append_nil, List.drop_zero]
    exact congrArg _ (List.drop_length_add_append 1)

/-- A program that only exits. -/
def exitStory : Story where
  program := [47, 101]
  args := []
  pid := ⟨100⟩
  opening := []
  read := ⟨0, #v[3, 0, 1, 0, 0, 0], 1⟩
  attempts := []
  exec := ⟨59, .replicate 6 0, 0⟩
  calls := []
  death := .inside 231 (.replicate 6 0)

namespace EbpfTracer

/-- The answers of a machine on which setting up the tracer of a story succeeds before the child
does anything. -/
def settingUp (s : Story) (k : Watched) (c : Call) : Option (c.Answer × Watched) :=
  match c with
  | .fork _ => some (.ok s.pid, { k with born := true })
  | .targetsInsert tid =>
    if k.maps.targets.Full tid then none else some (.ok (), k.arms s tid)
  | .write _ _ => some ((), { k with filled := true })
  | .ringNext | .waitNohang _ | .kill _ _ => none
  | c => (granted c).map fun a => (a, k)

theorem watchKernel_settingUp (room : Bool) (s : Story) (k : Watched) (c : Call) (a : c.Answer)
    (k' : Watched) (h : settingUp s k c = some (a, k')) : watchKernel room s k c a k' := by
  refine ⟨k, .refl, ?_⟩
  cases c with
  | targetsInsert tid =>
    unfold settingUp at h
    dsimp only at h
    split_ifs at h with hroom
    cases h
    exact ⟨hroom, rfl⟩
  | fork | write =>
    cases h
    first | rfl | exact ⟨rfl, rfl⟩
  | _ => cases h <;> rfl

def unbornWatched : Watched where
  maps := ⟨.empty, .empty, Vector.replicate 512 0, []⟩
  born := false
  filled := false
  past := 0
  inside := false
  missed := 0
  taken := 0
  dead := false

def exitWatched : Watched :=
  { unbornWatched.arms exitStory 100 with born := true, filled := true }

theorem constructs_exitStory : Ends (watchKernel true exitStory)
    (new [] (.spawn exitStory.program exitStory.args) ⟨false⟩) unbornWatched (.ok spawned)
    exitWatched :=
  Program.exec_of_play (watchKernel_settingUp true exitStory) rfl

def entering (nr : Int64) (args : Vector UInt64 6) : Kernel.EnterCtx :=
  ⟨0x6400000064, .ok ⟨nr, args⟩, 0⟩

def leaving (ret : Int64) : Kernel.ExitCtx where
  pidTgid := 0x6400000064
  ret := .ok ret
  now := 0
  reserved := true
  stale := Vector.replicate CAP_BYTES 0
  readUserStr := fun _ cap => (.error 0, cap)

/-- The child reads the byte, executes the program and exits. -/
theorem lives_exitStory : ∃ k, ReflTransGen (Watched.Lives true exitStory) exitWatched k ∧
    k.taken < k.maps.events.length ∧ k.dead = true := by
  let k₁ := exitWatched.enters (entering 0 exitStory.read.args)
  let k₂ := k₁.leaves (leaving 1)
  let k₃ := k₂.enters (entering 59 exitStory.exec.args)
  let k₄ := k₃.leaves (leaving 0)
  let k₅ := k₄.enters (entering 231 (.replicate 6 0))
  have hread : exitWatched.Lives true exitStory k₁ :=
    .enters (entering 0 exitStory.read.args) ⟨0, _⟩ rfl rfl rfl rfl rfl rfl fun _ => by decide
  have hgoes : k₁.Lives true exitStory k₂ :=
    .leaves (leaving 1) exitStory.read rfl rfl (fun _ => rfl) rfl rfl fun _ => rfl
  have hexec : k₂.Lives true exitStory k₃ :=
    .enters (entering 59 exitStory.exec.args) ⟨59, _⟩ rfl rfl rfl rfl rfl rfl fun _ => by decide
  have hstarts : k₃.Lives true exitStory k₄ :=
    .leaves (leaving 0) exitStory.exec rfl rfl (fun _ => rfl) rfl rfl fun _ => rfl
  have hexits : k₄.Lives true exitStory k₅ :=
    .enters (entering 231 (.replicate 6 0)) ⟨231, _⟩ rfl rfl rfl rfl rfl rfl fun _ => by decide
  have hdies : k₅.Lives true exitStory { k₅ with dead := true } := .dies rfl rfl
  exact ⟨_, .tail (.tail (.tail (.tail (.tail (.single hread) hgoes) hexec) hstarts) hexits) hdies,
    by decide, rfl⟩

/-- The machine can bring the eBPF backend to the end of the story. -/
theorem telling_exitStory : Nonempty (Telling true exitStory) := by
  obtain ⟨k, hlives, hring, hdead⟩ := lives_exitStory
  obtain ⟨steps, last, hrun⟩ := tells (t := spawned) hlives hring hdead rfl rfl
  exact ⟨⟨[], unbornWatched, spawned, exitWatched, steps, last,
    ⟨rfl, rfl, rfl, rfl, rfl, rfl, rfl, rfl, rfl⟩, constructs_exitStory, hrun⟩⟩

end EbpfTracer

namespace PtraceTracer

/-- The answers of a kernel to setting up the tracer of a child that stops first after its
execution. -/
def adopting (k : Traced) (c : Call) : Option (c.Answer × Traced) :=
  match c with
  | .fork _ => some (.ok ⟨100⟩, k)
  | .now => some ((0 : ℕ), k)
  | .waitpid _ => some (.ok (.stopped ⟨100⟩ .SIGTRAP), { k with first := 1, past := 1 })
  | .setoptions _ _ | .syscall _ _ => some (.ok (), k)
  | _ => none

theorem storyKernel_adopting (k : Traced) (c : Call) (a : c.Answer) (k' : Traced)
    (h : adopting k c = some (a, k')) : storyKernel exitStory k c a k' := by
  cases c with
  | fork => cases h; exact ⟨rfl, rfl⟩
  | waitpid => cases h; exact ⟨rfl, 1, le_rfl, rfl⟩
  | now | setoptions | syscall => cases h; rfl
  | _ => cases h

def exitRegs : Regs := ⟨231, 0, 0, 0, 0, 0, 0, 0⟩

def exitTraced (place : Place) (reaped : Bool) : Traced := ⟨place, 1, 1, exitRegs, reaped⟩

def exitTracer : PtraceTracer where
  start := 0
  follow := false
  live := {⟨100⟩}
  inflight := fun _ => none
  tgid := update (fun _ => none) ⟨100⟩ (some 100)
  pendingResume := none
  leader := some 100

def exitTelling : Telling exitStory :=
  let t := exitTracer.withInflight ⟨100⟩ (some (enterOf exitRegs 0))
  { before := { exitTraced .user false with first := 0, past := 0 }
    tracer := exitTracer
    after := exitTraced .user false
    steps := [(.ok none, (t, exitTraced .entered false)),
      (.ok (some (some (.processExit 100 0))), (t.without ⟨100⟩, exitTraced .entered true))]
    last := (t.without ⟨100⟩, exitTraced .entered true)
    starts := ⟨rfl, rfl, rfl, rfl⟩
    constructs := Program.exec_of_play storyKernel_adopting rfl
    passes := by
      refine ⟨?_, ?_, passStep_iff.mpr (.empty (.idle rfl) rfl), trivial⟩
      · exact passStep_handled (e := none) (.ptraceSyscall ⟨100⟩) (.idle rfl)
          (Finset.singleton_ne_empty _) ⟨rfl, exitRegs, .inl ⟨rfl, rfl, rfl⟩⟩
          (.enter rfl ⟨rfl, rfl⟩ rfl rfl)
      · exact passStep_handled (e := some _) (.exited ⟨100⟩ 0) (.idle rfl)
          (Finset.singleton_ne_empty _) ⟨rfl, rfl, rfl⟩ (.exited (.cached rfl)) }

end PtraceTracer

/-- The eBPF backend reports the execution that makes the child the program. -/
theorem exec_reported :
    ¬ ∀ (s : Story) (e : EbpfTracer.Telling true s) (p : PtraceTracer.Telling s),
      lines e.steps = lines p.steps := by
  intro h
  obtain ⟨e⟩ := EbpfTracer.telling_exitStory
  obtain ⟨hebpf, hmissed⟩ := e.lines_eq
  have hsame := congrArg List.length (h exitStory e PtraceTracer.exitTelling)
  have hnone : lines PtraceTracer.exitTelling.steps = [] := rfl
  rw [hebpf, hnone, List.length_map, List.length_drop, List.length_nil] at hsame
  have hleft : exitStory.left.length = 2 := rfl
  have hopening : exitStory.opening.length = 0 := rfl
  omega

end Syren
