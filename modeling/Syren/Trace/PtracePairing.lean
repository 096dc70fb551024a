import Syren.Trace.PtraceSetup

/-! Pairing of syscall-enter-stops with syscall-exit-stops by the `ptrace` backend, against a
kernel that keeps the phase of every task and the calls that were completed. -/
namespace Syren.PtraceTracer
open Interaction Interaction.Method Function

inductive Phase where
  | user
  | inCall (enter : Regs) (event : Option Int32)
  deriving DecidableEq

/-- A call of a task that came to its syscall-exit-stop. -/
structure Completed where
  pid : Pid
  enter : Regs
  event : Option Int32
  exit : Regs
  deriving DecidableEq

structure CallState where
  phase : Pid → Phase
  /-- The registers of each task at its last syscall stop. -/
  regs : Pid → Regs
  completed : List Completed

namespace CallState

def enters (k : CallState) (pid : Pid) (regs : Regs) : CallState := { k with
  phase := update k.phase pid (.inCall regs none)
  regs := update k.regs pid regs }

def leaves (k : CallState) (pid : Pid) (enter : Regs) (event : Option Int32) (regs : Regs) :
    CallState where
  phase := update k.phase pid .user
  regs := update k.regs pid regs
  completed := k.completed ++ [⟨pid, enter, event, regs⟩]

def notes (k : CallState) (pid : Pid) (enter : Regs) (event : Int32) : CallState :=
  { k with phase := update k.phase pid (.inCall enter (some event)) }

def dies (k : CallState) (pid : Pid) : CallState := { k with phase := update k.phase pid .user }

/-- The states in which a status can be reported, and the states it leaves. -/
def Reports (k : CallState) : WaitStatus → CallState → Prop
  | .ptraceSyscall pid, k' => ∃ regs,
      (k.phase pid = .user ∧ k' = k.enters pid regs) ∨
      ∃ enter event, k.phase pid = .inCall enter event ∧ k' = k.leaves pid enter event regs
  | .ptraceEvent pid _ event, k' => (event = PTRACE_EVENT_EXEC ∨ isCreation event) ∧
      ∃ enter, k.phase pid = .inCall enter none ∧ k' = k.notes pid enter event
  | .stopped pid _, k' => k.phase pid = .user ∧ k' = k
  | .exited pid _, k' => k' = k.dies pid
  | .signaled pid _ _, k' => k' = k.dies pid
  | .continued _, k' => k' = k
  | .stillAlive, k' => k' = k

end CallState

/-- A kernel that grants every ptrace request and reports the statuses of each task in order. -/
def callKernel : Kernel CallState
  | k, .waitAny, .ok st, k' => k.Reports st k'
  | k, .getregs pid, a, k' => a = .ok (k.regs pid) ∧ k' = k
  | k, .getevent _, a, k' => (∃ new, a = .ok new) ∧ k' = k
  | k, .syscall _ _, a, k' => a = .ok () ∧ k' = k
  | k, _, _, k' => k' = k

/-- What a syscall event says of its call: the number, the arguments and the result. -/
def reported (ev : SyscallEvent) : UInt64 × Vector UInt64 6 × Int64 := (ev.nr, ev.args, ev.retval)

/-- What is true of a call: its number and arguments at the enter-stop, its result at the
exit-stop. -/
def Completed.actual (c : Completed) : UInt64 × Vector UInt64 6 × Int64 :=
  (c.enter.origRax,
    #v[c.enter.rdi, c.enter.rsi, c.enter.rdx, c.enter.r10, c.enter.r8, c.enter.r9],
    c.exit.rax.toInt64)

def syscallOf (tid : UInt32) : Event → Option SyscallEvent
  | .syscall ev => if ev.tid = tid then some ev else none
  | _ => none

/-- For every task the syscall events are its completed calls, in order. -/
def Faithful (evs : List Event) (completed : List Completed) : Prop :=
  ∀ pid : Pid, (evs.filterMap (syscallOf pid.toU32)).map reported =
    (completed.filter (·.pid = pid)).map Completed.actual

/-- What the tracer holds for a task in each phase of the task: after an exec event, nothing. -/
def Opened : Phase → Option Inflight → Prop
  | .user, i => i = none
  | .inCall enter event, i =>
      if event = some PTRACE_EVENT_EXEC then i = none else ∃ ns, i = some (enterOf enter ns)

def Paired (t : PtraceTracer) (k : CallState) : Prop := ∀ pid, Opened (k.phase pid) (t.inflight pid)

variable {t t' : PtraceTracer} {k k' : CallState}

theorem Paired.update (h : Paired t k) (pid : Pid) {ph : Phase} {i : Option Inflight}
    (ho : Opened ph i) (p : Pid) :
    Opened (update k.phase pid ph p) (update t.inflight pid i p) := by
  by_cases hp : p = pid
  · subst hp
    rw [update_self, update_self]
    exact ho
  · rw [update_of_ne hp, update_of_ne hp]
    exact h p

theorem OnEvent.paired {enter : Regs} {pid : Pid} {event : Int32}
    (h : OnEvent callKernel t (k.notes pid enter event) pid event t' k') (hp : Paired t k)
    (hk : k.phase pid = .inCall enter none) :
    k' = k.notes pid enter event ∧ Paired t' (k.notes pid enter event) := by
  have hi : ∃ ns, t.inflight pid = some (enterOf enter ns) := by
    have ho := hp pid
    rw [hk] at ho
    simpa [Opened] using ho
  have kept (hx : event ≠ PTRACE_EVENT_EXEC) : Paired t (k.notes pid enter event) := by
    intro p
    have ho := hp.update pid (show Opened (.inCall enter (some event)) (t.inflight pid) by
      simpa [Opened, hx] using hi) p
    rwa [update_eq_self] at ho
  cases h with
  | exec hx => exact ⟨rfl, hp.update pid (by simp [Opened, hx])⟩
  | told _ hc ha =>
    obtain ⟨-, rfl⟩ := ha
    exact ⟨rfl, kept (by rintro rfl; exact absurd hc (by decide))⟩
  | untold _ hc ha =>
    obtain ⟨-, rfl⟩ := ha
    exact ⟨rfl, kept (by rintro rfl; exact absurd hc (by decide))⟩
  | other hx => exact ⟨rfl, kept hx⟩

/-- What one status does: nothing to the calls, or a call completed and reported as it was, or a
call with an exec event completed and not reported. -/
inductive Answered (k k' : CallState) (t' : PtraceTracer) (e : Option Event) : Prop where
  | quiet (hc : k'.completed = k.completed) (he : ∀ tid, e.bind (syscallOf tid) = none)
      (hp : Paired t' k')
  | told (c : Completed) (ev : SyscallEvent) (hc : k'.completed = k.completed ++ [c])
      (he : e = some (.syscall ev)) (htid : ev.tid = c.pid.toU32) (hr : reported ev = c.actual)
      (hx : c.event ≠ some PTRACE_EVENT_EXEC) (hp : Paired t' k')
  | missed (c : Completed) (hc : k'.completed = k.completed ++ [c]) (he : e = none)
      (hx : c.event = some PTRACE_EVENT_EXEC)

theorem TgidOf.paired {pid : Pid} {v : UInt32} (h : TgidOf callKernel t k pid v t' k') :
    k' = k ∧ t'.inflight = t.inflight := by
  refine ⟨?_, h.frame.2.1⟩
  cases h with
  | cached => rfl
  | read _ ha => exact ha

theorem Paired.of_eq (h : Paired t k) (hi : t'.inflight = t.inflight) : Paired t' k := by
  intro pid
  rw [hi]
  exact h pid

theorem Paired.closes (h : Paired t k) (pid : Pid) :
    Paired (t.withInflight pid none) (k.dies pid) := h.update pid (show Opened .user none from rfl)

theorem Handled.answered {k₁ : CallState} {st : WaitStatus} {r : Except TraceError (Option Event)}
    (h : Handled callKernel t k₁ st r t' k') (hk : k.Reports st k₁) (hp : Paired t k) :
    ∃ e, r = .ok e ∧ Answered k k' t' e := by
  cases h with
  | @enter pid regs now _ _ _ hi hr hn hc =>
    obtain ⟨hregs, rfl⟩ := hr
    cases hn
    obtain ⟨-, rfl⟩ := hc
    obtain ⟨regs', ⟨hu, rfl⟩ | ⟨enter, event, hin, rfl⟩⟩ := hk
    · have hsame : regs = regs' := by simpa [CallState.enters] using Except.ok.inj hregs
      refine ⟨none, rfl, .quiet rfl (fun _ => rfl) (hp.update pid ?_)⟩
      simp [Opened, hsame]
    · have ho := hp pid
      rw [hin, hi] at ho
      refine ⟨none, rfl, .missed _ rfl rfl ?_⟩
      by_contra hx
      simp [Opened, hx] at ho
  | enterStuck _ _ _ hc => exact absurd hc.1 (by simp)
  | enterUnread _ hr | exitUnread _ hr => exact absurd hr.1 (by simp)
  | @exit pid i regs now v _ _ _ _ hi hr hn ht =>
    obtain ⟨hregs, rfl⟩ := hr
    cases hn
    obtain ⟨rfl, hinf⟩ := ht.paired
    have ho := hp pid
    obtain ⟨regs', ⟨hu, rfl⟩ | ⟨enter, event, hin, rfl⟩⟩ := hk
    · rw [hu, hi] at ho
      cases ho
    · have hsame : regs = regs' := by simpa [CallState.leaves] using Except.ok.inj hregs
      rw [hin, hi] at ho
      have hx : event ≠ some PTRACE_EVENT_EXEC := by
        intro hx
        simp [Opened, hx] at ho
      obtain ⟨ns, hns⟩ : ∃ ns, i = enterOf enter ns := by simpa [Opened, hx] using ho
      subst hns hsame
      exact ⟨_, rfl, .told _ _ rfl rfl rfl rfl hx ((hp.closes pid).of_eq hinf)⟩
  | exited ht | signaled ht =>
    obtain ⟨rfl, hinf⟩ := ht.paired
    cases hk
    exact ⟨_, rfl, .quiet rfl (fun _ => rfl) ((hp.of_eq hinf).closes _)⟩
  | event he hc =>
    obtain ⟨-, rfl⟩ := hc
    obtain ⟨-, enter, hin, rfl⟩ := hk
    obtain ⟨rfl, hp'⟩ := he.paired hp hin
    exact ⟨none, rfl, .quiet rfl (fun _ => rfl) hp'⟩
  | eventStuck he hc => exact absurd hc.1 (by simp)
  | delivered hg hc ht =>
    obtain ⟨-, rfl⟩ := hc
    obtain ⟨-, rfl⟩ := hk
    obtain ⟨rfl, hinf⟩ := ht.paired
    exact ⟨_, rfl, .quiet rfl (fun _ => rfl) (hp.of_eq hinf)⟩
  | swallowed hg hc =>
    obtain ⟨-, rfl⟩ := hc
    obtain ⟨-, rfl⟩ := hk
    exact ⟨none, rfl, .quiet rfl (fun _ => rfl) hp⟩
  | stoppedStuck hc => exact absurd hc.1 (by simp)
  | continued | stillAlive =>
    cases hk
    exact ⟨none, rfl, .quiet rfl (fun _ => rfl) hp⟩

theorem Pass.answered {o : Outcome} (h : Pass callKernel t k o t' k') (hp : Paired t k) :
    Answered k k' t' (eventOf o) := by
  have resumed {k₁ : CallState} (hr : Resumed callKernel t k k₁) : k₁ = k := by
    cases hr with
    | idle => rfl
    | pending _ hc => exact hc.2
  cases h with
  | resumeStuck _ hc => exact absurd hc.1 (by simp)
  | empty hr _ =>
    cases resumed hr
    exact .quiet rfl (fun _ => rfl) hp
  | noChild hr _ hw | waitStuck hr _ hw _ =>
    cases resumed hr
    cases hw
    exact .quiet rfl (fun _ => rfl) hp
  | handled hr _ hw hh =>
    cases resumed hr
    obtain ⟨e, rfl, ha⟩ := hh.answered hw hp
    cases e <;> exact ha

/-- The kernel's state and the tracer's before the first call of `next_event`. -/
def Idle (a : PtraceTracer × CallState) : Prop :=
  Built a.1 ∧ (∀ pid, a.2.phase pid = .user) ∧ a.2.completed = []

variable {a : PtraceTracer × CallState} {l : List (Outcome × (PtraceTracer × CallState))}

theorem CallState.Reports.keeps {st : WaitStatus} {c : Completed} (h : k.Reports st k')
    (hc : c ∈ k.completed) : c ∈ k'.completed := by
  cases st with
  | ptraceSyscall pid =>
    obtain ⟨regs, ⟨-, rfl⟩ | ⟨enter, event, -, rfl⟩⟩ := h
    · exact hc
    · exact List.mem_append_left _ hc
  | ptraceEvent pid sig event =>
    obtain ⟨-, enter, -, rfl⟩ := h
    exact hc
  | stopped pid sig => exact h.2 ▸ hc
  | exited | signaled | continued | stillAlive =>
    cases h
    exact hc

theorem callKernel_keeps {c : Call} {r : c.Answer} {x : Completed} (h : callKernel k c r k')
    (hx : x ∈ k.completed) : x ∈ k'.completed := by
  unfold callKernel at h
  split at h
  · exact CallState.Reports.keeps h hx
  · exact h.2 ▸ hx
  · exact h.2 ▸ hx
  · exact h.2 ▸ hx
  · exact h ▸ hx

/-- A completed call stays completed. -/
theorem completed_keeps (h : IsRun (passStep callKernel) a l) {c : Completed}
    (hc : c ∈ a.2.completed) : c ∈ (lastState a l).2.completed := by
  apply h.invariant (P := fun b => c ∈ b.2.completed) hc
  intro b o b' hb hp
  exact Program.Exec.keeps (P := fun k => c ∈ k.completed) (fun _ _ _ _ => callKernel_keeps) hp hb

theorem Faithful.quiet {evs : List Event} {completed : List Completed} {e : Option Event}
    (h : Faithful evs completed) (he : ∀ tid, e.bind (syscallOf tid) = none) :
    Faithful (evs ++ e.toList) completed := by
  intro pid
  rw [← h pid, List.filterMap_append]
  have hnil : e.toList.filterMap (syscallOf pid.toU32) = [] := by
    cases e with
    | none => rfl
    | some ev => simpa using he pid.toU32
  rw [hnil, List.append_nil]

theorem Faithful.told {evs : List Event} {completed : List Completed} {c : Completed}
    {ev : SyscallEvent} (h : Faithful evs completed) (htid : ev.tid = c.pid.toU32)
    (hr : reported ev = c.actual) :
    Faithful (evs ++ [.syscall ev]) (completed ++ [c]) := by
  intro pid
  rw [List.filterMap_append, List.map_append, List.filter_append, List.map_append, h pid]
  congr 1
  by_cases hp : c.pid = pid
  · simp [syscallOf, htid, hp, hr]
  · have hne : ¬ c.pid.toU32 = pid.toU32 := fun he => hp (Pid.toU32_inj.mp he)
    simp [syscallOf, htid, hp, hne]

/-- A completed call that is not reported shows at once. -/
theorem Faithful.missed {evs : List Event} {completed : List Completed} {c : Completed}
    (h : Faithful evs completed) : ¬ Faithful evs (completed ++ [c]) := by
  intro hf
  have hlen := congrArg List.length ((h c.pid).symm.trans (hf c.pid))
  simp at hlen

/-- Either every completed call so far was reported, and none had an exec event, or a call with
an exec event was completed and some moment of the run missed a completed call. -/
def Explained (a : PtraceTracer × CallState) (l : List (Outcome × (PtraceTracer × CallState))) :
    Prop :=
  ((∀ c ∈ (lastState a l).2.completed, c.event ≠ some PTRACE_EVENT_EXEC) ∧
    Paired (lastState a l).1 (lastState a l).2 ∧
    Faithful (events l) (lastState a l).2.completed) ∨
  (∃ c ∈ (lastState a l).2.completed, c.event = some PTRACE_EVENT_EXEC) ∧
    ∃ m, m <+: l ∧ ¬ Faithful (events m) (lastState a m).2.completed

theorem explained_run (ha : Idle a) (h : IsRun (passStep callKernel) a l) : Explained a l := by
  refine h.induction (motive := Explained a) ?_ fun l x _ ih hs => ?_
  · obtain ⟨hb, hu, hc⟩ := ha
    refine .inl ⟨by simp [hc], fun pid => ?_, fun pid => ?_⟩
    · rw [lastState_nil, hu, hb.fresh.inflight]
      rfl
    · rw [lastState_nil, hc]
      rfl
  · have happ : l <+: l ++ [x] := List.prefix_append l [x]
    unfold Explained
    rw [lastState_concat]
    rcases ih with ⟨hx, hp, hf⟩ | ⟨⟨c, hc, hx⟩, m, hm, hnf⟩
    · rcases (passStep_iff.mp hs).answered hp with
        ⟨hc, he, hp⟩ | ⟨c, ev, hc, he, htid, hr, hne, hp⟩ | ⟨c, hc, he, hx⟩
      · refine .inl ⟨hc ▸ hx, hp, ?_⟩
        rw [events_concat, hc]
        exact hf.quiet he
      · refine .inl ⟨?_, hp, ?_⟩
        · intro d hd
          rw [hc] at hd
          rcases List.mem_append.mp hd with hd | hd
          · exact hx d hd
          · exact List.mem_singleton.mp hd ▸ hne
        · rw [events_concat, hc, he]
          exact hf.told htid hr
      · refine .inr ⟨⟨c, by simp [hc], hx⟩, l ++ [x], List.prefix_rfl, ?_⟩
        rw [events_concat, lastState_concat, he, hc]
        simpa using hf.missed
    · refine .inr ⟨⟨c, ?_, hx⟩, m, hm.trans happ, hnf⟩
      have hrun : IsRun (passStep callKernel) (lastState a l) [x] := ⟨hs, trivial⟩
      exact completed_keeps hrun hc

/-- The events are faithful to the calls at every moment of a run exactly when no call that came
to its syscall-exit-stop had reported an exec event. -/
theorem syscalls_paired_iff (run : TracerRun Idle callKernel) :
    (∀ m, m <+: run.steps → Faithful (events m) (lastState run.start m).2.completed) ↔
      ∀ c ∈ (lastState run.start run.steps).2.completed, c.event ≠ some PTRACE_EVENT_EXEC := by
  constructor
  · intro hf
    rcases explained_run run.starts run.valid with ⟨hx, -⟩ | ⟨-, m, hm, hnf⟩
    · exact hx
    · exact absurd (hf m hm) hnf
  · intro hx m hm
    rcases explained_run run.starts (run.valid.initial hm) with ⟨-, -, hf⟩ | ⟨⟨c, hc, he⟩, -⟩
    · exact hf
    · obtain ⟨k, hk⟩ := hm
      have hrest := (isRun_append.mp (hk ▸ run.valid)).2
      refine absurd he (hx c ?_)
      rw [← hk, lastState_append]
      exact completed_keeps hrest hc

def execRegs : Regs := ⟨59, 0, 0, 0, 0, 0, 0, 0⟩

def idleCalls : CallState := ⟨fun _ => .user, fun _ => execRegs, []⟩

/-- An `execve` of the one traced process: its enter-stop, its exec event, its exit-stop. -/
def execRun : TracerRun Idle callKernel :=
  let pid : Pid := ⟨100⟩
  let t := attachedTo 100 true
  let t₁ := t.withInflight pid (some (enterOf execRegs 0))
  let t₂ := t₁.withInflight pid none
  let k₁ := idleCalls.enters pid execRegs
  let k₂ := k₁.notes pid execRegs PTRACE_EVENT_EXEC
  let k₃ := k₂.leaves pid execRegs (some PTRACE_EVENT_EXEC) execRegs
  { start := (t, idleCalls)
    steps := [(.ok none, (t₁, k₁)), (.ok none, (t₂, k₂)),
      (.ok none, (t₂.withInflight pid (some (enterOf execRegs 0)), k₃))]
    starts := ⟨built_attachedTo 100 true, fun _ => rfl, rfl⟩
    valid := by
      refine ⟨?_, ?_, ?_, trivial⟩
      · exact passStep_handled (e := none) (.ptraceSyscall pid) (.idle rfl)
          (Finset.singleton_ne_empty _) ⟨execRegs, .inl ⟨rfl, rfl⟩⟩
          (.enter rfl ⟨rfl, rfl⟩ rfl ⟨rfl, rfl⟩)
      · exact passStep_handled (e := none) (.ptraceEvent pid .SIGTRAP PTRACE_EVENT_EXEC) (.idle rfl)
          (Finset.singleton_ne_empty _) ⟨.inl rfl, execRegs, rfl, rfl⟩
          (.event (.exec rfl) ⟨rfl, rfl⟩)
      · exact passStep_handled (e := none) (.ptraceSyscall pid) (.idle rfl)
          (Finset.singleton_ne_empty _)
          ⟨execRegs, .inr ⟨execRegs, some PTRACE_EVENT_EXEC, rfl, rfl⟩⟩
          (.enter rfl ⟨rfl, rfl⟩ rfl ⟨rfl, rfl⟩) }

theorem exec_exit_missed :
    ¬ ∀ run : TracerRun Idle callKernel, ∀ m, m <+: run.steps →
      Faithful (events m) (lastState run.start m).2.completed := by
  intro h
  have hf := h execRun execRun.steps List.prefix_rfl ⟨100⟩
  revert hf
  decide

end Syren.PtraceTracer
