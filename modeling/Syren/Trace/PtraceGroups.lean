import Syren.Trace.PtraceSetup

/-! Exits of whole processes as the `ptrace` backend reports them, against a kernel that reports
the death of every thread and that of a thread-group leader last. -/
namespace Syren.PtraceTracer
open Interaction Interaction.Method Function

/-- The thread groups of a run: the leader of each task, and the exit status of each group under
its leader, as `ProcessExit` counts it. -/
structure Groups where
  group : Pid → Pid
  leads : ∀ pid, group (group pid) = group pid
  code : Pid → Int32

/-- A status of a task: it has not been reported dead, nor has the leader of its group. -/
def Groups.Present (w : Groups) (reaped : Finset Pid) (pid : Pid) : Prop :=
  pid ∉ reaped ∧ w.group pid ∉ reaped

/-- When a status can be reported, and the tasks reported dead after it. -/
def Groups.Reports (w : Groups) (reaped : Finset Pid) : WaitStatus → Finset Pid → Prop
  | .exited pid code, r => w.Present reaped pid ∧ (w.group pid = pid → code = w.code pid) ∧
      r = insert pid reaped
  | .signaled pid sig _, r => w.Present reaped pid ∧
      (w.group pid = pid → 128 + sig.toI32 = w.code pid) ∧ r = insert pid reaped
  | .stopped pid _, r => w.Present reaped pid ∧ r = reaped
  | .ptraceEvent pid _ _, r => w.Present reaped pid ∧ r = reaped
  | .ptraceSyscall pid, r => w.Present reaped pid ∧ r = reaped
  | .continued _, r => r = reaped
  | .stillAlive, r => r = reaped

/-- The state is the set of tasks reported dead: their `/proc/<tid>/status` is gone. -/
def groupKernel (w : Groups) : Kernel (Finset Pid)
  | reaped, .waitAny, .ok st, r => w.Reports reaped st r
  | reaped, .readStatus pid, a, r => r = reaped ∧
      if pid ∈ reaped then a = none else readTgid a = some (w.group pid).toU32
  | reaped, _, _, r => r = reaped

/-- A `ProcessExit` names a thread group and carries the exit status of the group. -/
def Names (w : Groups) : Event → Prop
  | .processExit pid code => ∃ leader, w.group leader = leader ∧ pid = leader.toU32 ∧
      code = w.code leader
  | _ => True

/-- What may come after an event: after a `ProcessExit`, nothing of the same process. -/
def MayPrecede : Event → Event → Prop
  | .processExit pid _, later => later.pid ≠ pid
  | _, _ => True

/-- One `ProcessExit` per thread group, with its exit status, and it is final. -/
def OneExit (w : Groups) (evs : List Event) : Prop :=
  (∀ ev ∈ evs, Names w ev) ∧ evs.Pairwise MayPrecede

/-- The cached process ids are right. -/
def Cached (w : Groups) (t : PtraceTracer) : Prop :=
  ∀ pid v, t.tgid pid = some v → v = (w.group pid).toU32

variable {w : Groups} {t t' : PtraceTracer} {reaped reaped' : Finset Pid}

theorem Cached.of_eq (h : Cached w t) (ht : t'.tgid = t.tgid) : Cached w t' := by
  intro pid v hv
  exact h pid v (ht ▸ hv)

theorem Cached.without (h : Cached w t) {pid : Pid} {v : Option UInt32}
    (ht : t'.tgid = update t.tgid pid v) : Cached w (t'.without pid) := by
  intro p u hu
  change update t'.tgid pid none p = some u at hu
  by_cases hp : p = pid
  · rw [hp, update_self] at hu
    cases hu
  · rw [update_of_ne hp, ht, update_of_ne hp] at hu
    exact h p u hu

/-- The process id found for a task is that of its group; for a task reported dead it may be the
task's own, which is then not kept. -/
theorem TgidOf.named {pid : Pid} {v : UInt32}
    (h : TgidOf (groupKernel w) t reaped pid v t' reaped') (hc : Cached w t) :
    reaped' = reaped ∧ (pid ∉ reaped → v = (w.group pid).toU32 ∧ Cached w t') ∧
      (v = (w.group pid).toU32 ∨ v = pid.toU32) ∧ Cached w (t'.without pid) := by
  cases h with
  | cached hv =>
    have hgroup := hc pid v hv
    exact ⟨rfl, fun _ => ⟨hgroup, hc⟩, .inl hgroup, hc.without (update_eq_self pid t.tgid).symm⟩
  | read hn ha =>
    obtain ⟨rfl, hread⟩ := ha
    split_ifs at hread with hpid
    · subst hread
      exact ⟨rfl, fun h => absurd hpid h, .inr rfl, hc.without rfl⟩
    · rw [hread]
      refine ⟨rfl, fun _ => ⟨rfl, fun p u hu => ?_⟩, .inl rfl, hc.without rfl⟩
      by_cases hp : p = pid
      · subst hp
        exact (Option.some.inj ((update_self p _ _).symm.trans hu)).symm
      · exact hc p u ((update_of_ne hp _ _).symm.trans hu)

/-- What a pass tells of the task it waited for. -/
inductive Observed (w : Groups) (reaped reaped' : Finset Pid) (e : Option Event) : Prop where
  | silent (hr : reaped' = reaped) (he : e = none)
  | alive (pid : Pid) (ev : Event) (hp : w.Present reaped pid) (hr : reaped' = reaped)
      (he : e = some ev) (hpid : ev.pid = (w.group pid).toU32)
      (hx : ∀ v code, ev ≠ .processExit v code)
  | death (pid : Pid) (v : UInt32) (code : Int32) (hp : w.Present reaped pid)
      (hr : reaped' = insert pid reaped) (he : e = some (.processExit v code))
      (hv : v = (w.group pid).toU32 ∨ v = pid.toU32)
      (hcode : w.group pid = pid → code = w.code pid)

theorem Handled.observed {r₁ : Finset Pid} {st : WaitStatus}
    {r : Except TraceError (Option Event)} (h : Handled (groupKernel w) t r₁ st r t' reaped')
    (hw : w.Reports reaped st r₁) (hc : Cached w t) :
    Cached w t' ∧ Observed w reaped reaped' (eventOf (r.map (Option.map some))) := by
  cases h with
  | enter _ hr hn hs | enterStuck _ hr hn hs =>
    cases hr
    cases hn
    cases hs
    exact ⟨hc.of_eq rfl, .silent hw.2 rfl⟩
  | enterUnread _ hr | exitUnread _ hr =>
    cases hr
    exact ⟨hc.of_eq rfl, .silent hw.2 rfl⟩
  | @exit pid _ _ _ _ _ _ _ _ _ hr hn ht =>
    cases hr
    cases hn
    obtain ⟨hp, rfl⟩ := hw
    obtain ⟨rfl, hread, -, -⟩ := ht.named (hc.of_eq rfl)
    obtain ⟨hv, hc'⟩ := hread hp.1
    exact ⟨hc', .alive pid _ hp rfl rfl hv (by simp)⟩
  | @exited pid _ _ _ _ ht =>
    obtain ⟨hp, hcode, rfl⟩ := hw
    obtain ⟨rfl, -, hv, hc'⟩ := ht.named hc
    exact ⟨hc', .death pid _ _ hp rfl rfl hv hcode⟩
  | @signaled pid _ _ _ _ _ ht =>
    obtain ⟨hp, hcode, rfl⟩ := hw
    obtain ⟨rfl, -, hv, hc'⟩ := ht.named hc
    exact ⟨hc', .death pid _ _ hp rfl rfl hv hcode⟩
  | event he hs | eventStuck he hs =>
    cases hs
    have hr : reaped' = r₁ := by
      cases he with
      | exec | other => rfl
      | told _ _ ha | untold _ _ ha => exact ha
    exact ⟨hc.of_eq he.frame.2.1, .silent (hr.trans hw.2) rfl⟩
  | @delivered pid _ _ _ _ _ _ hg hs ht =>
    cases hs
    obtain ⟨hp, rfl⟩ := hw
    obtain ⟨rfl, hread, -, -⟩ := ht.named hc
    obtain ⟨hv, hc'⟩ := hread hp.1
    exact ⟨hc', .alive pid _ hp rfl rfl hv (by simp)⟩
  | swallowed _ hs | stoppedStuck hs =>
    cases hs
    exact ⟨hc, .silent hw.2 rfl⟩
  | continued | stillAlive => exact ⟨hc, .silent hw rfl⟩

theorem Pass.observed {o : Outcome} (h : Pass (groupKernel w) t reaped o t' reaped')
    (hc : Cached w t) : Cached w t' ∧ Observed w reaped reaped' (eventOf o) := by
  have resumed {r : Finset Pid} (hr : Resumed (groupKernel w) t reaped r) : r = reaped := by
    cases hr with
    | idle => rfl
    | pending _ hs => exact hs
  cases h with
  | resumeStuck _ hs => exact ⟨hc.of_eq rfl, .silent hs rfl⟩
  | empty hr _ => exact ⟨hc.of_eq rfl, .silent (resumed hr) rfl⟩
  | noChild hr _ hw | waitStuck hr _ hw _ =>
    cases resumed hr
    exact ⟨hc.of_eq rfl, .silent hw rfl⟩
  | handled hr _ hw hh =>
    cases resumed hr
    exact hh.observed hw (hc.of_eq rfl)

/-- Before the first call of `next_event`: the one task whose process id is known beforehand, the
spawned child, leads its group, and no death has been reported. -/
def Launched (w : Groups) (a : PtraceTracer × Finset Pid) : Prop :=
  Built a.1 ∧ (∀ pid v, a.1.tgid pid = some v → w.group pid = pid) ∧ a.2 = ∅

variable {a : PtraceTracer × Finset Pid} {l : List (Outcome × (PtraceTracer × Finset Pid))}
  {evs : List Event}

theorem Launched.cached (ha : Launched w a) : Cached w a.1 := by
  intro pid v hv
  rw [ha.2.1 pid v hv]
  exact ha.1.fresh.tgid pid v hv

/-- Induction over what the passes of a run tell. -/
theorem observed_induction {motive : List Event → Finset Pid → Prop} (ha : Launched w a)
    (h : IsRun (passStep (groupKernel w)) a l) (start : motive [] ∅)
    (keep : ∀ evs r r' e, motive evs r → Observed w r r' e → motive (evs ++ e.toList) r') :
    motive (events l) (lastState a l).2 := by
  have hboth : Cached w (lastState a l).1 ∧ motive (events l) (lastState a l).2 := by
    refine h.induction (motive := fun l => Cached w (lastState a l).1 ∧
      motive (events l) (lastState a l).2) ?_ fun l x _ ih hs => ?_
    · refine ⟨ha.cached, ?_⟩
      rw [lastState_nil, ha.2.2]
      exact start
    · obtain ⟨hc, ho⟩ := (passStep_iff.mp hs).observed ih.1
      rw [lastState_concat, events_concat]
      exact ⟨hc, keep _ _ _ _ ih.2 ho⟩
  exact hboth.2

theorem OneExit.concat {ev : Event} (h : OneExit w evs) (hn : Names w ev)
    (hp : ∀ e ∈ evs, MayPrecede e ev) : OneExit w (evs ++ [ev]) := by
  constructor
  · intro e he
    rcases List.mem_append.mp he with he | he
    · exact h.1 e he
    · exact List.mem_singleton.mp he ▸ hn
  · refine List.pairwise_append.mpr ⟨h.2, List.pairwise_singleton _ _, ?_⟩
    intro e he e' he'
    exact List.mem_singleton.mp he' ▸ hp e he

/-- Every `ProcessExit` so far is that of a leader reported dead. -/
def OfLeaders (w : Groups) (evs : List Event) (reaped : Finset Pid) : Prop :=
  ∀ pid code, .processExit pid code ∈ evs →
    ∃ leader ∈ reaped, w.group leader = leader ∧ pid = leader.toU32

theorem OfLeaders.mayPrecede {ev : Event} {pid : Pid} (h : OfLeaders w evs reaped)
    (hp : w.group pid ∉ reaped) (hev : ev.pid = (w.group pid).toU32) :
    ∀ e ∈ evs, MayPrecede e ev := by
  intro e he
  cases e with
  | processExit v code =>
    obtain ⟨leader, hl, -, rfl⟩ := h v code he
    intro heq
    rw [hev, Pid.toU32_inj] at heq
    exact hp (heq ▸ hl)
  | syscall | signal => trivial

theorem oneExit_of_leaders (ha : Launched w a) (h : IsRun (passStep (groupKernel w)) a l)
    (hl : ∀ pid ∈ (lastState a l).2, w.group pid = pid) : OneExit w (events l) := by
  have hboth : (∀ pid ∈ (lastState a l).2, w.group pid = pid) →
      OneExit w (events l) ∧ OfLeaders w (events l) (lastState a l).2 := by
    refine observed_induction (motive := fun evs reaped => (∀ pid ∈ reaped, w.group pid = pid) →
      OneExit w evs ∧ OfLeaders w evs reaped) ha h ?_ ?_
    · exact fun _ => ⟨⟨by simp, .nil⟩, fun _ _ h => by simp at h⟩
    · intro evs r r' e ih ho hl
      rcases ho with ⟨rfl, rfl⟩ | ⟨pid, ev, hp, rfl, rfl, hpid, hx⟩ |
        ⟨pid, v, code, hp, rfl, rfl, hv, hcode⟩
      · simpa using ih hl
      · obtain ⟨hone, hof⟩ := ih hl
        have hnames : Names w ev := by
          cases ev with
          | processExit v code => exact absurd rfl (hx v code)
          | syscall | signal => trivial
        refine ⟨hone.concat hnames (hof.mayPrecede hp.2 hpid), fun v code he => ?_⟩
        rcases List.mem_append.mp he with he | he
        · exact hof v code he
        · exact absurd (List.mem_singleton.mp he).symm (hx v code)
      · have hlead : w.group pid = pid := hl pid (Finset.mem_insert_self _ _)
        have hv : v = pid.toU32 := by simpa [hlead] using hv
        obtain ⟨hone, hof⟩ := ih fun q hq => hl q (Finset.mem_insert_of_mem hq)
        refine ⟨hone.concat ⟨pid, hlead, hv, hcode hlead⟩ (hof.mayPrecede hp.2 ?_), ?_⟩
        · rw [hlead]
          exact hv
        · intro u c he
          rcases List.mem_append.mp he with he | he
          · obtain ⟨leader, hmem, hrest⟩ := hof u c he
            exact ⟨leader, Finset.mem_insert_of_mem hmem, hrest⟩
          · cases List.mem_singleton.mp he
            exact ⟨pid, Finset.mem_insert_self _ _, hlead, hv⟩
  exact (hboth hl).1

/-- The trace of a dead thread: a `ProcessExit` under its own id, or one of its group which the
leader's follows. -/
def Spoilt (w : Groups) (evs : List Event) (reaped : Finset Pid) (pid : Pid) : Prop :=
  (∃ code, .processExit pid.toU32 code ∈ evs) ∨
  ((∃ code, .processExit (w.group pid).toU32 code ∈ evs) ∧ (w.group pid ∈ reaped →
    ∃ code e, [.processExit (w.group pid).toU32 code, e].Sublist evs ∧
      e.pid = (w.group pid).toU32))

/-- A later event spoils nothing less, unless it is the first report of the leader's death; that
one follows. -/
theorem Spoilt.concat {pid : Pid} {e : Event} (h : Spoilt w evs reaped pid)
    (hl : w.group pid ∈ reaped' → w.group pid ∈ reaped ∨ e.pid = (w.group pid).toU32) :
    Spoilt w (evs ++ [e]) reaped' pid := by
  rcases h with ⟨code, hmem⟩ | ⟨⟨code, hmem⟩, hlater⟩
  · exact .inl ⟨code, List.mem_append_left _ hmem⟩
  · refine .inr ⟨⟨code, List.mem_append_left _ hmem⟩, fun hin => ?_⟩
    rcases hl hin with hold | hnew
    · obtain ⟨c, e', hsub, he'⟩ := hlater hold
      exact ⟨c, e', hsub.trans (List.sublist_append_left _ _), he'⟩
    · exact ⟨code, e, (List.singleton_sublist.mpr hmem).append (List.Sublist.refl [e]), hnew⟩

theorem spoilt_run (ha : Launched w a) (h : IsRun (passStep (groupKernel w)) a l) :
    ∀ pid ∈ (lastState a l).2, w.group pid ≠ pid →
      Spoilt w (events l) (lastState a l).2 pid := by
  refine observed_induction (motive := fun evs reaped => ∀ pid ∈ reaped, w.group pid ≠ pid →
    Spoilt w evs reaped pid) ha h (by simp) ?_
  intro evs r r' e ih ho pid hpid hne
  rcases ho with ⟨rfl, rfl⟩ | ⟨q, ev, hp, rfl, rfl, -, -⟩ | ⟨q, v, code, hp, rfl, rfl, hv, -⟩
  · simpa using ih pid hpid hne
  · exact (ih pid hpid hne).concat .inl
  · rcases Finset.mem_insert.mp hpid with rfl | hold
    · rcases hv with rfl | rfl
      · refine .inr ⟨⟨code, by simp⟩, fun hin => ?_⟩
        rcases Finset.mem_insert.mp hin with heq | hin
        · exact absurd heq hne
        · exact absurd hin hp.2
      · exact .inl ⟨code, by simp⟩
    · apply (ih pid hold hne).concat
      intro hin
      rcases Finset.mem_insert.mp hin with heq | hin
      · have hlead : w.group q = q := by rw [← heq, w.leads]
        have hown : v = q.toU32 := by simpa [hlead] using hv
        right
        rw [heq]
        exact hown
      · exact .inl hin

/-- When no death of a thread other than a leader is reported, the exits are as they should be;
and in a run that comes to the end of every group, only then. -/
theorem one_exit_iff_leaders (w : Groups) (run : TracerRun (Launched w) (groupKernel w)) :
    let reaped := (lastState run.start run.steps).2
    ((∀ pid ∈ reaped, w.group pid = pid) → OneExit w (events run.steps)) ∧
    ((∀ pid ∈ reaped, w.group pid ∈ reaped) →
      (OneExit w (events run.steps) ↔ ∀ pid ∈ reaped, w.group pid = pid)) := by
  intro reaped
  have hone := oneExit_of_leaders run.starts run.valid
  refine ⟨hone, fun hall => ⟨fun ⟨hnames, hfinal⟩ pid hpid => ?_, hone⟩⟩
  by_contra hne
  rcases spoilt_run run.starts run.valid pid hpid hne with ⟨code, hmem⟩ | ⟨-, hlater⟩
  · obtain ⟨leader, hlead, hpl, -⟩ := hnames _ hmem
    rw [Pid.toU32_inj] at hpl
    exact hne (hpl ▸ hlead)
  · obtain ⟨code, e, hsub, he⟩ := hlater (hall pid hpid)
    exact List.pairwise_iff_forall_sublist.mp hfinal hsub he

/-- Task 101 is a thread of the process 100, which exits with status 7. -/
def twoThreads : Groups where
  group pid := if pid = ⟨101⟩ then ⟨100⟩ else pid
  leads pid := by split <;> rfl
  code _ := 7

/-- The process creates the thread, and the thread ends with status 0. -/
def threadRun : TracerRun (Launched twoThreads) (groupKernel twoThreads) :=
  let t := attachedTo 100 true
  let t₁ := t.withLive ⟨101⟩
  { start := (t, ∅)
    steps := [(.ok none, (t₁, ∅)),
      (.ok (some (some (.processExit 101 0))), ((t₁.withTgid ⟨101⟩ 101).without ⟨101⟩, {⟨101⟩}))]
    starts := ⟨built_attachedTo 100 true, fun _ _ h => (by cases h), rfl⟩
    valid := by
      refine ⟨?_, ?_, trivial⟩
      · have hnew : groupKernel twoThreads ∅ (.getevent ⟨100⟩) (.ok 101) ∅ := rfl
        exact passStep_handled (e := none) (.ptraceEvent ⟨100⟩ .SIGTRAP PTRACE_EVENT_CLONE)
          (.idle rfl) (Finset.singleton_ne_empty _) ⟨⟨by decide, by decide⟩, rfl⟩
          (.event (.told rfl (.inr (.inr rfl)) hnew) rfl)
      · exact passStep_handled (e := some (.processExit 101 0)) (.exited ⟨101⟩ 0) (.idle rfl)
          (Finset.insert_ne_empty _ _) ⟨⟨by decide, by decide⟩, by decide, rfl⟩
          (.exited (.read (a := none) rfl ⟨rfl, rfl⟩)) }

theorem thread_exit_told :
    ¬ ∀ (w : Groups) (run : TracerRun (Launched w) (groupKernel w)),
      OneExit w (events run.steps) := by
  intro h
  obtain ⟨leader, hlead, hpid, -⟩ := (h twoThreads threadRun).1 (.processExit 101 0) (by decide)
  have hl : leader = ⟨101⟩ := Pid.toU32_inj.mp hpid.symm
  subst hl
  exact absurd hlead (by decide)

end Syren.PtraceTracer
