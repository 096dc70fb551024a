import Mathlib.Algebra.Group.Nat.Defs
import Syren.Trace.PtraceSetup
import Syren.Trace.Timing

/-! Timestamps of the `ptrace` backend: against a kernel whose clock never goes back, the calls of
one task lie one after the other, and each ends in the pass that reports it. -/
namespace Syren

namespace PtraceTracer
open Interaction Interaction.Method Function

variable {σ : Type}

/-- The time of the states of `env` never goes back, and a reading of the clock is the time at
some moment of the call. -/
structure Clocked (env : Kernel σ) (time : σ → ℕ) : Prop where
  onward : ∀ s c a s', env s c a s' → time s ≤ time s'
  reads : ∀ s (now : ℕ) s', env s .now now s' → time s ≤ now ∧ now ≤ time s'

/-- When the calls in flight began, by tid. -/
def openedAt (t : PtraceTracer) (tid : UInt32) : Option ℕ :=
  (t.inflight ⟨tid.toInt32⟩).map fun i => i.enterNs.toNat

/-- The time that has gone by in `s` for a tracer that counts from `start`. -/
def elapsed (time : σ → ℕ) (start : ℕ) (s : σ) : ℕ := time s - start

variable {env : Kernel σ} {time : σ → ℕ} {t t' : PtraceTracer} {s s' : σ}
  {closed : List (Interval UInt32 ℕ)}

theorem openedAt_toU32 (pid : Pid) :
    t.openedAt pid.toU32 = (t.inflight pid).map fun i => i.enterNs.toNat := by
  simp [openedAt, Pid.toU32]

/-- Another table of calls in flight opens a call now, forgets calls, or does neither. -/
theorem openedAt_update {pid : Pid} {i : Option Inflight} {tid : UInt32} {b : ℕ}
    (h : t'.inflight = update t.inflight pid i) (hb : t'.openedAt tid = some b) :
    t.openedAt tid = some b ∨ i.map (fun i => i.enterNs.toNat) = some b := by
  unfold openedAt at hb ⊢
  rw [h] at hb
  by_cases hp : (⟨tid.toInt32⟩ : Pid) = pid
  · rw [hp, update_self] at hb
    exact .inr hb
  · rw [update_of_ne hp] at hb
    exact .inl hb

theorem clock_toNat {now : ℕ} (h : now - t.start < 2 ^ 64) :
    (t.clock now).toNat = now - t.start := Nat.mod_eq_of_lt h

/-- What a pass does to the calls in flight: it forgets some of them, opens one now, or closes one
now and reports it. -/
inductive Clocking (time : σ → ℕ) (t : PtraceTracer) (s : σ) (t' : PtraceTracer) (s' : σ) :
    Option Event → Prop where
  | forgets {e : Option Event} (he : e.bind Event.asSyscall = none)
      (ho : ∀ tid b, t'.openedAt tid = some b → t.openedAt tid = some b) :
      Clocking time t s t' s' e
  | opens {pid : Pid} {regs : Regs} {now : ℕ} (hfrom : time s ≤ now) (hto : now ≤ time s')
      (ho : t'.inflight = update t.inflight pid (some (enterOf regs (t.clock now)))) :
      Clocking time t s t' s' none
  | closes {pid : Pid} {i : Inflight} {regs : Regs} {now : ℕ} {v : UInt32} (hfrom : time s ≤ now)
      (hto : now ≤ time s') (hi : t.inflight pid = some i)
      (ho : t'.inflight = update t.inflight pid none) :
      Clocking time t s t' s' (some (.syscall (completedCall v pid i regs (t.clock now))))

theorem TgidOf.start {pid : Pid} {v : UInt32} (h : TgidOf env t s pid v t' s') :
    t'.start = t.start := by
  cases h <;> rfl

theorem OnEvent.start {pid : Pid} {event : Int32} (h : OnEvent env t s pid event t' s') :
    t'.start = t.start := by
  cases h <;> rfl

theorem TgidOf.onward (hc : Clocked env time) {pid : Pid} {v : UInt32}
    (h : TgidOf env t s pid v t' s') : time s ≤ time s' := by
  cases h with
  | cached => rfl
  | read _ ha => exact hc.onward _ _ _ _ ha

theorem TgidOf.without_inflight {pid : Pid} {v : UInt32} (h : TgidOf env t s pid v t' s') :
    (t'.without pid).inflight = update t.inflight pid none := by
  show update t'.inflight pid none = _
  rw [h.frame.2.1]

theorem openedAt_forgotten (pid : Pid) (h : t'.inflight = update t.inflight pid none)
    {tid : UInt32} {b : ℕ} (hb : t'.openedAt tid = some b) : t.openedAt tid = some b := by
  rcases openedAt_update h hb with hold | hnew
  · exact hold
  · cases hnew

theorem OnEvent.forgets {pid : Pid} {event : Int32} (h : OnEvent env t s pid event t' s')
    {tid : UInt32} {b : ℕ} (hb : t'.openedAt tid = some b) : t.openedAt tid = some b := by
  cases h with
  | exec => exact openedAt_forgotten pid rfl hb
  | told | untold | other => exact hb

theorem Handled.start {st : WaitStatus} {r : Except TraceError (Option Event)}
    (h : Handled env t s st r t' s') : t'.start = t.start := by
  cases h with
  | exit _ _ _ ht | exited ht | signaled ht | delivered _ _ ht => exact ht.start
  | event he | eventStuck he => exact he.start
  | enter | enterStuck | enterUnread | exitUnread | swallowed | stoppedStuck | continued
  | stillAlive => rfl

theorem Handled.clocking (hc : Clocked env time) {st : WaitStatus}
    {r : Except TraceError (Option Event)} (h : Handled env t s st r t' s') :
    Clocking time t s t' s' (eventOf (r.map (Option.map some))) := by
  have forgotten {e : Option Event} {pid : Pid} (he : e.bind Event.asSyscall = none)
      (ho : t'.inflight = update t.inflight pid none) : Clocking time t s t' s' e :=
    .forgets he fun _ _ => openedAt_forgotten _ ho
  have kept {e : Option Event} (he : e.bind Event.asSyscall = none)
      (ho : t'.inflight = t.inflight) : Clocking time t s t' s' e := by
    refine .forgets he fun tid b hb => ?_
    rw [openedAt, ho] at hb
    exact hb
  cases h with
  | @enter _ _ now s₁ s₂ _ hi hr hn hs | @enterStuck _ _ now _ s₁ s₂ _ hi hr hn hs =>
    have hfrom : time s ≤ now := (hc.onward _ _ _ _ hr).trans (hc.reads _ _ _ hn).1
    have hto : now ≤ time s' := (hc.reads _ _ _ hn).2.trans (hc.onward _ _ _ _ hs)
    exact .opens hfrom hto rfl
  | @exit _ _ _ now _ _ s₁ s₂ _ hi hr hn ht =>
    have hfrom : time s ≤ now := (hc.onward _ _ _ _ hr).trans (hc.reads _ _ _ hn).1
    have hto : now ≤ time s' := (hc.reads _ _ _ hn).2.trans (ht.onward hc)
    exact .closes hfrom hto hi ht.frame.2.1
  | exitUnread => exact forgotten rfl rfl
  | exited ht | signaled ht => exact forgotten rfl ht.without_inflight
  | event he | eventStuck he => exact .forgets rfl fun _ _ => he.forgets
  | delivered _ _ ht => exact kept rfl ht.frame.2.1
  | enterUnread | swallowed | stoppedStuck | continued | stillAlive => exact kept rfl rfl

theorem Resumed.onward (hc : Clocked env time) (h : Resumed env t s s') : time s ≤ time s' := by
  cases h with
  | idle => rfl
  | pending _ ha => exact hc.onward _ _ _ _ ha

theorem Clocking.widen {r r' : σ} {e : Option Event} (h : Clocking time t r t' r' e)
    (hfrom : time s ≤ time r) (hto : time r' ≤ time s') : Clocking time t s t' s' e := by
  cases h with
  | forgets he ho => exact .forgets he ho
  | opens hf ht ho => exact .opens (hfrom.trans hf) (ht.trans hto) ho
  | closes hf ht hi ho => exact .closes (hfrom.trans hf) (ht.trans hto) hi ho

theorem Clocking.of_ready {e : Option Event} (h : Clocking time t.ready s t' s' e) :
    Clocking time t s t' s' e := by
  cases h with
  | forgets he ho => exact .forgets he ho
  | opens hf ht ho => exact .opens hf ht ho
  | closes hf ht hi ho => exact .closes hf ht hi ho

theorem Pass.start {o : Outcome} (h : Pass env t s o t' s') : t'.start = t.start := by
  cases h with
  | handled _ _ _ hh => exact hh.start
  | resumeStuck | empty | noChild | waitStuck => rfl

theorem Pass.clocking (hc : Clocked env time) {o : Outcome} (h : Pass env t s o t' s') :
    Clocking time t s t' s' (eventOf o) := by
  cases h with
  | resumeStuck | empty | noChild | waitStuck => exact .forgets rfl fun _ _ hb => hb
  | handled hr _ hw hh =>
    have hfrom := (hr.onward hc).trans (hc.onward _ _ _ _ hw)
    exact ((hh.clocking hc).widen hfrom le_rfl).of_ready

theorem passStep_onward (hc : Clocked env time) {a b : PtraceTracer × σ} {o : Outcome}
    (h : passStep env a o b) : time a.2 ≤ time b.2 :=
  Program.Exec.keeps (P := fun s => time a.2 ≤ time s)
    (fun s c r s' ha hle => hle.trans (hc.onward s c r s' ha)) h le_rfl

/-- A step within the range of the clock keeps the order of the intervals, and the call it reports
ends in it. -/
theorem Clocking.timed {e : Option Event} {closed : List (Interval UInt32 ℕ)}
    (h : Clocking time t s t' s' e) (hstart : t'.start = t.start) (honward : time s ≤ time s')
    (hend : elapsed time t.start s' < 2 ^ 64)
    (ht : Timed t.openedAt closed (elapsed time t.start s)) :
    Timed t'.openedAt (closed ++ (e.bind Event.asSyscall).toList.map SyscallEvent.interval)
        (elapsed time t'.start s') ∧
      ∀ ev, e = some (.syscall ev) → elapsed time t.start s ≤ ev.exitNs := by
  have hmono {m n : ℕ} (hle : m ≤ n) : m - t.start ≤ n - t.start := Nat.sub_le_sub_right hle _
  rw [hstart]
  cases h with
  | forgets he ho =>
    rw [he, Option.toList_none, List.map_nil, List.append_nil]
    refine ⟨ht.later (hmono honward) fun tid b hb => .inl (ho tid b hb), ?_⟩
    rintro ev rfl
    cases he
  | @opens pid regs now hfrom hto ho =>
    have hto' : now - t.start ≤ elapsed time t.start s' := hmono hto
    have hnow := clock_toNat (hto'.trans_lt hend)
    have hopen : Timed t'.openedAt closed (now - t.start) := by
      refine ht.later (hmono hfrom) fun tid b hb => ?_
      rcases openedAt_update ho hb with hold | hnew
      · exact .inl hold
      · cases hnew
        exact .inr hnow
    refine ⟨?_, fun ev hev => by cases hev⟩
    simpa using hopen.later hto' fun tid b hb => .inl hb
  | @closes pid i regs now v hfrom hto hi ho =>
    have hto' : now - t.start ≤ elapsed time t.start s' := hmono hto
    have hnow := clock_toNat (hto'.trans_lt hend)
    have hopen : t.openedAt pid.toU32 = some i.enterNs.toNat := by
      rw [openedAt_toU32, hi]
      rfl
    have hclosed : t'.openedAt pid.toU32 = none := by
      rw [openedAt_toU32, ho, update_self]
      rfl
    have hle : i.enterNs ≤ t.clock now := by
      rw [UInt64.le_iff_toNat_le, hnow]
      exact (ht.begun _ _ hopen).trans (hmono hfrom)
    have hexit : (completedCall v pid i regs (t.clock now)).exitNs = now - t.start := by
      show i.enterNs.toNat + (if _ then _ else 0 : UInt64).toNat = _
      rw [if_pos hle, UInt64.toNat_sub_of_le _ _ hle, hnow]
      have hle' := UInt64.le_iff_toNat_le.mp hle
      omega
    have hkept := ht.close (hmono hfrom) hopen hclosed fun tid b => openedAt_forgotten _ ho
    refine ⟨?_, ?_⟩
    · have hiv : SyscallEvent.interval (completedCall v pid i regs (t.clock now)) =
          ⟨pid.toU32, i.enterNs.toNat, now - t.start⟩ := by
        rw [SyscallEvent.interval, hexit]
        rfl
      simpa [Event.asSyscall, hiv] using hkept.later hto' fun tid b hb => .inl hb
    · rintro ev ⟨⟩
      rw [hexit]
      exact hmono hfrom

variable {a : PtraceTracer × σ} {l : List (Outcome × (PtraceTracer × σ))}

theorem start_kept (h : IsRun (passStep env) a l) : (lastState a l).1.start = a.1.start :=
  h.invariant (P := fun b => b.1.start = a.1.start) rfl
    fun _ _ _ hb hs => (passStep_iff.mp hs).start.trans hb

theorem elapsed_mono (hc : Clocked env time) (h : IsRun (passStep env) a l) (start : ℕ) :
    elapsed time start a.2 ≤ elapsed time start (lastState a l).2 :=
  h.invariant (P := fun b => elapsed time start a.2 ≤ elapsed time start b.2) le_rfl
    fun _ _ _ hb hs => hb.trans (Nat.sub_le_sub_right (passStep_onward hc hs) _)

theorem syscalls_concat (l : List (Outcome × (PtraceTracer × σ)))
    (x : Outcome × (PtraceTracer × σ)) :
    syscalls (events (l ++ [x])) =
      syscalls (events l) ++ ((eventOf x.1).bind Event.asSyscall).toList := by
  cases h : eventOf x.1 with
  | none => simp [syscalls, h]
  | some ev => cases ev <;> simp [syscalls, h, Event.asSyscall]

/-- Along a run within the range of the clock the intervals stay ordered. -/
theorem timed_run (hc : Clocked env time) (ha : Fresh a.1) (h : IsRun (passStep env) a l)
    (hend : elapsed time a.1.start (lastState a l).2 < 2 ^ 64) :
    Timed (lastState a l).1.openedAt ((syscalls (events l)).map SyscallEvent.interval)
      (elapsed time (lastState a l).1.start (lastState a l).2) := by
  revert hend
  refine h.induction (motive := fun l => elapsed time a.1.start (lastState a l).2 < 2 ^ 64 →
    Timed (lastState a l).1.openedAt ((syscalls (events l)).map SyscallEvent.interval)
      (elapsed time (lastState a l).1.start (lastState a l).2)) (fun _ => ?_)
    fun l x hl ih hs hend => ?_
  · refine Timed.start fun tid => ?_
    show Option.map _ _ = none
    rw [lastState_nil, ha.inflight]
    rfl
  · rw [lastState_concat] at hend ⊢
    have hpass := passStep_iff.mp hs
    have honward := passStep_onward hc hs
    have hbefore := ih ((Nat.sub_le_sub_right honward _).trans_lt hend)
    rw [← start_kept hl] at hend
    have hstep := ((hpass.clocking hc).timed hpass.start honward hend hbefore).1
    rwa [← List.map_append, ← syscalls_concat] at hstep

/-- Under every kernel whose clock never goes back the syscall events come in the order of their
returns, the calls of one task do not overlap, and each return lies in the pass that reports it,
as long as the elapsed nanoseconds fit into 64 bits. -/
theorem timestamps_in_order (hc : Clocked env time)
    (run : TracerRun (fun a => Built a.1) env)
    (hend : elapsed time run.start.1.start (lastState run.start run.steps).2 < 2 ^ 64) :
    InOrder (syscalls (events run.steps)) ∧
      ∀ m x, m ++ [x] <+: run.steps → ∀ ev, eventOf x.1 = some (.syscall ev) →
        elapsed time run.start.1.start (lastState run.start m).2 ≤ ev.exitNs ∧
          ev.exitNs ≤ elapsed time run.start.1.start x.2.2 := by
  have hfresh := run.starts.fresh
  refine ⟨inOrder_of_timed (timed_run hc hfresh run.valid hend), ?_⟩
  intro m x hm ev hev
  have hbegun := run.valid.initial hm
  obtain ⟨k, hk⟩ := hm
  have hrest := run.valid
  rw [← hk, isRun_append] at hrest
  -- the readings up to this pass fit, as the last one does
  have hlater := elapsed_mono hc hrest.2 run.start.1.start
  rw [← lastState_append, hk] at hlater
  have hfits := hlater.trans_lt hend
  have hafter := timed_run hc hfresh hbegun hfits
  have hstart := start_kept hbegun
  rw [lastState_concat] at hafter hstart hfits
  obtain ⟨hbefore, hs⟩ := isRun_concat.mp hbegun
  have hpass := passStep_iff.mp hs
  have honward := passStep_onward hc hs
  have htimed := timed_run hc hfresh hbefore ((Nat.sub_le_sub_right honward _).trans_lt hfits)
  rw [← start_kept hbefore] at hfits
  have hstep := ((hpass.clocking hc).timed hpass.start honward hfits htimed).2 ev hev
  rw [start_kept hbefore] at hstep
  refine ⟨hstep, ?_⟩
  have hmem : ev ∈ syscalls (events (m ++ [x])) := by
    rw [syscalls_concat, hev]
    simp [Event.asSyscall]
  rw [hstart] at hafter
  exact (hafter.forward _ (List.mem_map_of_mem hmem)).2

/-- A kernel that counts the calls made of it and grants them, for the clock its count. -/
def tickingKernel : Kernel ℕ
  | s, .now, a, s' => a = s ∧ s' = s + 1
  | s, _, _, s' => s' = s + 1

theorem tickingKernel_clocked : Clocked tickingKernel id where
  onward s c a s' h := by
    have hnext : s' = s + 1 := by
      cases c with
      | now => exact h.2
      | _ => exact h
    show s ≤ s'
    omega
  reads s now s' h := by
    obtain ⟨rfl, rfl⟩ := h
    exact ⟨le_rfl, Nat.le_succ _⟩

/-- One call of the one traced process: its enter-stop and its exit-stop. -/
def oneCallRun : TracerRun (fun a => Built a.1) tickingKernel :=
  let pid : Pid := ⟨100⟩
  let regs : Regs := ⟨0, 0, 0, 0, 0, 0, 0, 0⟩
  let t := attachedTo 100 true
  let i := enterOf regs 2
  let t₁ := t.withInflight pid (some i)
  let t₂ := { t₁.withInflight pid none with pendingResume := some (pid, none) }
  { start := (t, 0)
    steps := [(.ok none, (t₁, 4)),
      (.ok (some (some (.syscall (completedCall 100 pid i regs 6)))),
        (t₂.withTgid pid 100, 8))]
    starts := built_attachedTo 100 true
    valid := by
      refine ⟨?_, ?_, trivial⟩
      · exact passStep_handled (e := none) (.ptraceSyscall pid) (.idle rfl)
          (Finset.singleton_ne_empty _) rfl (.enter rfl rfl ⟨rfl, rfl⟩ rfl)
      · exact passStep_handled (.ptraceSyscall pid) (.idle rfl)
          (Finset.singleton_ne_empty _) rfl
          (.exit rfl rfl ⟨rfl, rfl⟩ (.read (a := none) rfl rfl)) }

theorem timestamps_in_order_oneCall :
    InOrder (syscalls (events oneCallRun.steps)) ∧
      ∀ m x, m ++ [x] <+: oneCallRun.steps → ∀ ev, eventOf x.1 = some (.syscall ev) →
        elapsed id 0 (lastState oneCallRun.start m).2 ≤ ev.exitNs ∧
          ev.exitNs ≤ elapsed id 0 x.2.2 :=
  timestamps_in_order tickingKernel_clocked oneCallRun (by decide)

end PtraceTracer

end Syren
