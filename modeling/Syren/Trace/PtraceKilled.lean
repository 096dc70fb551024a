import Mathlib.Logic.Relation
import Mathlib.Data.Finset.Option
import Syren.Trace.PtraceSetup

/-! Tasks killed at any moment, also in a stop that `waitpid` has reported, and what becomes of the
requests that the `ptrace` backend makes of them. -/
namespace Syren.PtraceTracer
open Interaction Interaction.Method Function Relation

structure Mortal where
  /-- The tasks in a stop that was reported and from which they were not resumed. -/
  stopped : Finset Pid
  died : Finset Pid
  /-- The tasks killed in such a stop. -/
  slain : Finset Pid
  collected : List WaitStatus

namespace Mortal

def kills (k : Mortal) (pid : Pid) : Mortal := { k with
  died := insert pid k.died
  slain := if pid ∈ k.stopped then insert pid k.slain else k.slain }

inductive Kill : Mortal → Mortal → Prop where
  | kill {k : Mortal} {pid : Pid} (hp : pid ∉ k.died) : Kill k (k.kills pid)

/-- The task takes ptrace requests: it is in a reported stop and was not killed. -/
def Askable (k : Mortal) (pid : Pid) : Prop := pid ∈ k.stopped ∧ pid ∉ k.died

def collects (k : Mortal) (st : WaitStatus) : Mortal := { k with
  stopped := (k.stopped ∪ st.stop.toFinset) \ st.death.toFinset
  died := k.died \ st.death.toFinset
  collected := k.collected ++ [st] }

def Answers (k : Mortal) : (c : Call) → c.Answer → Mortal → Prop
  | .waitAny, .ok st, k' => (∀ pid ∈ st.stop, pid ∉ k.died) ∧ (∀ pid ∈ st.death, pid ∈ k.died) ∧
      k' = k.collects st
  | .waitAny, .error e, k' => e ≠ .ESRCH ∧ k' = k
  | .getregs pid, .ok _, k' => k.Askable pid ∧ k' = k
  | .getregs pid, .error e, k' => ¬ k.Askable pid ∧ e = .ESRCH ∧ k' = k
  | .getevent pid, .ok _, k' => k.Askable pid ∧ k' = k
  | .getevent pid, .error e, k' => ¬ k.Askable pid ∧ e = .ESRCH ∧ k' = k
  | .syscall pid _, .ok _, k' => k.Askable pid ∧ k' = { k with stopped := k.stopped.erase pid }
  | .syscall pid _, .error e, k' => ¬ k.Askable pid ∧ e = .ESRCH ∧ k' = k
  | _, _, k' => k' = k

end Mortal

/-- Tasks may be killed before any call is answered. -/
def mortalKernel : Kernel Mortal := moving Mortal.Kill Mortal.Answers

/-- What a pass that collected a status should return. -/
def Due (t : PtraceTracer) : WaitStatus → Outcome → Prop
  | .exited _ code, o => ∃ v, o = .ok (some (some (.processExit v code)))
  | .signaled _ sig _, o => ∃ v, o = .ok (some (some (.processExit v (128 + sig.toI32))))
  | .stopped _ sig, o => match deliver sig with
    | some g => ∃ v, o = .ok (some (some (.signal v g.toI32)))
    | none => o = .ok none
  | .ptraceSyscall pid, o => match t.inflight pid with
    | some i => ∃ ev, o = .ok (some (some (.syscall ev))) ∧ ev.tid = pid.toU32 ∧ ev.nr = i.nr ∧
        ev.args = i.args
    | none => o = .ok none
  | _, o => o = .ok none

/-- A pass does not fail with `ESRCH`, and the event of the status it collects is delivered. -/
def Delivers (a : PtraceTracer × Mortal) (o : Outcome) (b : PtraceTracer × Mortal) : Prop :=
  o ≠ .error (.os .ESRCH) ∧ ∀ st, b.2.collected = a.2.collected ++ [st] → Due a.1 st o

/-- The reported stops are those of `stops`, and the tasks killed in one are the dead of them. -/
structure Calm (stops : Finset Pid) (log : List WaitStatus) (k : Mortal) : Prop where
  stopped : k.stopped = stops
  slain : k.slain = stops ∩ k.died
  collected : k.collected = log

variable {stops : Finset Pid} {log : List WaitStatus} {k k' : Mortal}

theorem Calm.killed (h : Calm stops log k) (hk : k.Kill k') : Calm stops log k' := by
  obtain ⟨hstopped, hslain, hlog⟩ := h
  cases hk with
  | @kill pid hp =>
    refine ⟨hstopped, ?_, hlog⟩
    change (if pid ∈ k.stopped then insert pid k.slain else k.slain) = stops ∩ insert pid k.died
    rw [hstopped, hslain]
    split_ifs with hin
    · rw [Finset.inter_insert_of_mem hin]
    · rw [Finset.inter_insert_of_notMem hin]

theorem Calm.moved (h : Calm stops log k) (hm : ReflTransGen Mortal.Kill k k') :
    Calm stops log k' := moved_keeps hm (fun _ _ hstep hc => hc.killed hstep) h

/-- A call whose answer changes nothing. -/
theorem Calm.call (h : Calm stops log k) (hc : ∃ k₁, ReflTransGen Mortal.Kill k k₁ ∧ k' = k₁) :
    Calm stops log k' := by
  obtain ⟨k₁, hm, rfl⟩ := hc
  exact h.moved hm

/-- A task in a reported stop refuses a request only when it was killed in that stop. -/
theorem Calm.refused {pid : Pid} (h : Calm {pid} log k) (hn : ¬ k.Askable pid) : k.slain ≠ ∅ := by
  have hd : pid ∈ k.died := by
    by_contra hd
    exact hn ⟨by simp [h.stopped], hd⟩
  rw [h.slain]
  exact Finset.nonempty_iff_ne_empty.mp ⟨pid, by simp [hd]⟩

theorem Calm.getregs {pid : Pid} {a : Except Errno Regs} (h : Calm {pid} log k)
    (hc : mortalKernel k (.getregs pid) a k') :
    Calm {pid} log k' ∧ ∀ e, a = .error e → e = .ESRCH ∧ k'.slain ≠ ∅ := by
  obtain ⟨k₁, hm, ha⟩ := hc
  have h₁ := h.moved hm
  cases a with
  | ok regs =>
    obtain ⟨-, rfl⟩ := ha
    exact ⟨h₁, fun e he => by cases he⟩
  | error e =>
    obtain ⟨hn, rfl, rfl⟩ := ha
    refine ⟨h₁, fun e he => ?_⟩
    cases he
    exact ⟨rfl, h₁.refused hn⟩

theorem Calm.getevent {pid : Pid} {a : Except Errno Int64} (h : Calm stops log k)
    (hc : mortalKernel k (.getevent pid) a k') : Calm stops log k' := by
  obtain ⟨k₁, hm, ha⟩ := hc
  cases a with
  | ok new => exact ha.2 ▸ h.moved hm
  | error e => exact ha.2.2 ▸ h.moved hm

theorem Calm.resumes {pid : Pid} {sig : Option Signal} (h : Calm {pid} log k)
    (hc : mortalKernel k (.syscall pid sig) (.ok ()) k') : Calm ∅ log k' := by
  obtain ⟨k₁, hm, ⟨hs, hd⟩, rfl⟩ := hc
  obtain ⟨hstopped, hslain, hlog⟩ := h.moved hm
  refine ⟨?_, ?_, hlog⟩
  · change k₁.stopped.erase pid = ∅
    rw [hstopped]
    exact Finset.erase_singleton pid
  · change k₁.slain = ∅ ∩ k₁.died
    rw [hslain]
    simp [hd]

theorem Calm.stuck {pid : Pid} {sig : Option Signal} {e : Errno} (h : Calm {pid} log k)
    (hc : mortalKernel k (.syscall pid sig) (.error e) k') : e = .ESRCH ∧ k'.slain ≠ ∅ := by
  obtain ⟨k₁, hm, hn, rfl, rfl⟩ := hc
  exact ⟨rfl, (h.moved hm).refused hn⟩

theorem Calm.waits {st : WaitStatus} (h : Calm ∅ log k)
    (hc : mortalKernel k .waitAny (.ok st) k') :
    Calm st.stop.toFinset (log ++ [st]) k' := by
  obtain ⟨k₁, hm, hs, -, rfl⟩ := hc
  obtain ⟨hstopped, hslain, hlog⟩ := h.moved hm
  have hdisj : st.stop.toFinset \ st.death.toFinset = st.stop.toFinset := by
    cases st <;> simp [WaitStatus.stop, WaitStatus.death]
  refine ⟨?_, ?_, congrArg (· ++ [st]) hlog⟩
  · change (k₁.stopped ∪ st.stop.toFinset) \ st.death.toFinset = st.stop.toFinset
    rw [hstopped, Finset.empty_union, hdisj]
  · change k₁.slain = st.stop.toFinset ∩ (k₁.died \ st.death.toFinset)
    rw [hslain, Finset.empty_inter]
    symm
    apply Finset.eq_empty_of_forall_notMem
    intro pid hp
    obtain ⟨hpst, hpd⟩ := Finset.mem_inter.mp hp
    exact hs pid (Option.mem_toFinset.mp hpst) (Finset.mem_sdiff.mp hpd).1

variable {t t' : PtraceTracer}

theorem TgidOf.calm {pid : Pid} {v : UInt32} (h : TgidOf mortalKernel t k pid v t' k')
    (hc : Calm stops log k) : Calm stops log k' := by
  cases h with
  | cached => exact hc
  | read _ ha => exact hc.call ha

theorem OnEvent.calm {pid : Pid} {event : Int32} (h : OnEvent mortalKernel t k pid event t' k')
    (hc : Calm stops log k) : Calm stops log k' := by
  cases h with
  | exec | other => exact hc
  | told _ _ ha | untold _ _ ha => exact hc.getevent ha

/-- The task left stopped for the next call. -/
def deferred (t : PtraceTracer) : Finset Pid := (t.pendingResume.map Prod.fst).toFinset

theorem deferred_none (h : t.pendingResume = none) : deferred t = ∅ := by simp [deferred, h]

theorem deferred_some {pid : Pid} {sig : Option Signal} (h : t.pendingResume = some (pid, sig)) :
    deferred t = {pid} := by
  unfold deferred
  rw [h]
  rfl

theorem Due.ne_error {st : WaitStatus} {o : Outcome} {e : TraceError} (h : Due t st o) :
    o ≠ .error e := by
  rintro rfl
  cases st with
  | exited | signaled =>
    obtain ⟨v, hv⟩ := h
    cases hv
  | stopped pid sig => cases hg : deliver sig <;> simp [Due, hg] at h
  | ptraceSyscall pid => cases hi : t.inflight pid <;> simp [Due, hi] at h
  | ptraceEvent | continued | stillAlive => cases h

/-- Handling a status fails with `ESRCH` when its task was killed meanwhile, and delivers the event
of the status otherwise. -/
theorem Handled.calm {st : WaitStatus} {r : Except TraceError (Option Event)}
    (h : Handled mortalKernel t k st r t' k') (hc : Calm st.stop.toFinset log k)
    (hp : t.pendingResume = none) :
    (r = .error (.os .ESRCH) ∧ k'.slain ≠ ∅) ∨
    (Calm (deferred t') log k' ∧ Due t st (r.map (Option.map some))) := by
  have idle {t₁ : PtraceTracer} (hp₁ : t₁.pendingResume = t.pendingResume)
      (h₁ : Calm ∅ log k') : Calm (deferred t₁) log k' := by
    rwa [deferred_none (hp₁.trans hp)]
  cases h with
  | enter hi hr hn hs =>
    have h₁ := (hc.getregs hr).1.call hn
    exact .inr ⟨idle rfl (h₁.resumes hs), by simp [Due, hi, Except.map]⟩
  | enterStuck hi hr hn hs =>
    have h₁ := (hc.getregs hr).1.call hn
    obtain ⟨rfl, hslain⟩ := h₁.stuck hs
    exact .inl ⟨rfl, hslain⟩
  | enterUnread _ hr | exitUnread _ hr =>
    obtain ⟨rfl, hslain⟩ := (hc.getregs hr).2 _ rfl
    exact .inl ⟨rfl, hslain⟩
  | exit hi hr hn ht =>
    have h₁ := ht.calm ((hc.getregs hr).1.call hn)
    right
    constructor
    · rw [deferred_some ht.frame.1]
      exact h₁
    · simp only [Due, hi]
      exact ⟨_, rfl, rfl, rfl, rfl⟩
  | exited ht => exact .inr ⟨idle ht.frame.1 (ht.calm hc), _, rfl⟩
  | signaled ht => exact .inr ⟨idle ht.frame.1 (ht.calm hc), _, rfl⟩
  | event he hs => exact .inr ⟨idle he.frame.1 ((he.calm hc).resumes hs), rfl⟩
  | eventStuck he hs =>
    obtain ⟨rfl, hslain⟩ := (he.calm hc).stuck hs
    exact .inl ⟨rfl, hslain⟩
  | delivered hg hs ht =>
    refine .inr ⟨idle ht.frame.1 (ht.calm (hc.resumes hs)), ?_⟩
    simp only [Due, hg]
    exact ⟨_, rfl⟩
  | swallowed hg hs =>
    refine .inr ⟨idle rfl (hc.resumes hs), ?_⟩
    simp only [Due, hg]
    rfl
  | stoppedStuck hs =>
    obtain ⟨rfl, hslain⟩ := hc.stuck hs
    exact .inl ⟨rfl, hslain⟩
  | continued | stillAlive => exact .inr ⟨idle rfl hc, rfl⟩

theorem Calm.logged (h : Calm stops log k) : Calm stops k.collected k :=
  ⟨h.stopped, h.slain, rfl⟩

theorem Pass.calm {o : Outcome} (h : Pass mortalKernel t k o t' k')
    (hc : Calm (deferred t) k.collected k) :
    (o = .error (.os .ESRCH) ∧ k'.slain ≠ ∅) ∨
    (Calm (deferred t') k'.collected k' ∧ Delivers (t, k) o (t', k')) := by
  have resumed {k₁ : Mortal} (hr : Resumed mortalKernel t k k₁) : Calm ∅ k.collected k₁ := by
    cases hr with
    | idle hp => rwa [deferred_none hp] at hc
    | pending hp hs =>
      rw [deferred_some hp] at hc
      exact hc.resumes hs
  have nothing {o : Outcome} (ho : o ≠ .error (.os .ESRCH)) (h₁ : Calm ∅ k.collected k') :
      Calm (deferred t.ready) k'.collected k' ∧ Delivers (t, k) o (t.ready, k') := by
    refine ⟨h₁.logged, ho, fun st hst => ?_⟩
    have hlog : k'.collected = k.collected := h₁.collected
    rw [hlog] at hst
    simp at hst
  cases h with
  | resumeStuck hp hs =>
    rw [deferred_some hp] at hc
    obtain ⟨rfl, hslain⟩ := hc.stuck hs
    exact .inl ⟨rfl, hslain⟩
  | empty hr _ => exact .inr (nothing (by simp) (resumed hr))
  | noChild hr _ hw =>
    obtain ⟨k₁, hm, -, rfl⟩ := hw
    exact .inr (nothing (by simp) ((resumed hr).moved hm))
  | waitStuck hr _ hw _ =>
    obtain ⟨k₁, hm, he, rfl⟩ := hw
    exact .inr (nothing (by simpa using he) ((resumed hr).moved hm))
  | @handled st r _ _ _ _ hr _ hw hh =>
    rcases hh.calm ((resumed hr).waits hw) rfl with ⟨rfl, hslain⟩ | ⟨h₁, hdue⟩
    · exact .inl ⟨rfl, hslain⟩
    · refine .inr ⟨h₁.logged, hdue.ne_error, fun st' hst => ?_⟩
      have hlog : k'.collected = k.collected ++ [st] := h₁.collected
      rw [hlog] at hst
      obtain rfl := List.singleton_inj.mp (List.append_cancel_left hst)
      cases st <;> exact hdue

theorem mortalKernel_slain {c : Call} {r : c.Answer} {pid : Pid} (h : mortalKernel k c r k')
    (hp : pid ∈ k.slain) : pid ∈ k'.slain := by
  refine moving_keeps (P := fun k₁ : Mortal => pid ∈ k₁.slain) h (fun k₁ k₂ hstep hp => ?_)
    (fun k₁ ha hp => ?_) hp
  · cases hstep
    unfold Mortal.kills
    split_ifs
    · exact Finset.mem_insert_of_mem hp
    · exact hp
  · unfold Mortal.Answers at ha
    split at ha
    · exact ha.2.2 ▸ hp
    · exact ha.2 ▸ hp
    · exact ha.2 ▸ hp
    · exact ha.2.2 ▸ hp
    · exact ha.2 ▸ hp
    · exact ha.2.2 ▸ hp
    · exact ha.2 ▸ hp
    · exact ha.2.2 ▸ hp
    · exact ha ▸ hp

/-- Before the first call of `next_event` no task is in a reported stop. -/
def Peaceful (a : PtraceTracer × Mortal) : Prop :=
  Built a.1 ∧ a.2.stopped = ∅ ∧ a.2.slain = ∅

variable {a : PtraceTracer × Mortal} {l : List (Outcome × (PtraceTracer × Mortal))}

/-- Either some pass failed to deliver, and a task was killed in a reported stop, or every pass
delivered, and only the task left stopped for the next call can have been killed in its stop. -/
def Shaken (a : PtraceTracer × Mortal) (l : List (Outcome × (PtraceTracer × Mortal))) : Prop :=
  (¬ IsRun Delivers a l ∧ (lastState a l).2.slain ≠ ∅) ∨
  (IsRun Delivers a l ∧
    Calm (deferred (lastState a l).1) (lastState a l).2.collected (lastState a l).2)

theorem shaken_run (ha : Peaceful a) (h : IsRun (passStep mortalKernel) a l) : Shaken a l := by
  refine h.induction (motive := Shaken a) ?_ fun l x _ ih hs => ?_
  · obtain ⟨hb, hstopped, hslain⟩ := ha
    have hnone : deferred a.1 = ∅ := deferred_none hb.fresh.pending
    exact .inr ⟨trivial, by rw [lastState_nil, hnone, hstopped],
      by rw [lastState_nil, hnone, hslain, Finset.empty_inter], rfl⟩
  · unfold Shaken
    rw [isRun_concat, lastState_concat]
    rcases ih with ⟨hn, hslain⟩ | ⟨hd, hc⟩
    · refine .inl ⟨fun hrun => hn hrun.1, ?_⟩
      obtain ⟨pid, hp⟩ := Finset.nonempty_iff_ne_empty.mpr hslain
      refine Finset.nonempty_iff_ne_empty.mp ⟨pid, ?_⟩
      exact Program.Exec.keeps (P := fun k : Mortal => pid ∈ k.slain)
        (fun _ _ _ _ => mortalKernel_slain) hs hp
    · rcases (passStep_iff.mp hs).calm hc with ⟨he, hslain⟩ | ⟨hc', hdel⟩
      · exact .inl ⟨fun hrun => hrun.2.1 he, hslain⟩
      · exact .inr ⟨⟨hd, hdel⟩, hc'⟩

/-- While no task is killed in a reported stop every pass delivers; and in a run that ends with no
resumption deferred, only then. -/
theorem delivers_iff_none_slain (run : TracerRun Peaceful mortalKernel) :
    let b := lastState run.start run.steps
    (b.2.slain = ∅ → IsRun Delivers run.start run.steps) ∧
    (b.1.pendingResume = none → (IsRun Delivers run.start run.steps ↔ b.2.slain = ∅)) := by
  intro b
  have hslain : b.2.slain = ∅ → IsRun Delivers run.start run.steps := by
    intro hs
    rcases shaken_run run.starts run.valid with ⟨-, hne⟩ | ⟨hd, -⟩
    · exact absurd hs hne
    · exact hd
  refine ⟨hslain, fun hp => ⟨fun hd => ?_, hslain⟩⟩
  rcases shaken_run run.starts run.valid with ⟨hn, -⟩ | ⟨-, hc⟩
  · exact absurd hd hn
  · rw [hc.slain, deferred_none hp, Finset.empty_inter]

/-- The one process is killed in its syscall-enter-stop, before its registers are read. -/
def killedInStop : TracerRun Peaceful mortalKernel :=
  let t := attachedTo 100 true
  let k : Mortal := ⟨∅, ∅, ∅, []⟩
  let k₁ := k.collects (.ptraceSyscall ⟨100⟩)
  { start := (t, k)
    steps := [(.error (.os .ESRCH), (t, k₁.kills ⟨100⟩))]
    starts := ⟨built_attachedTo 100 true, rfl, rfl⟩
    valid := by
      have hwait : mortalKernel k .waitAny (.ok (.ptraceSyscall ⟨100⟩)) k₁ :=
        ⟨k, .refl, by simp [k], by simp [WaitStatus.death], rfl⟩
      have hregs : mortalKernel k₁ (.getregs ⟨100⟩) (.error .ESRCH) (k₁.kills ⟨100⟩) :=
        ⟨_, .single (.kill (by decide)), by simp [Mortal.Askable, Mortal.kills], rfl, rfl⟩
      exact ⟨passStep_iff.mpr (.handled (.idle rfl) (Finset.singleton_ne_empty _) hwait
        (.enterUnread rfl hregs)), trivial⟩ }

theorem killed_in_stop_aborts :
    ¬ ∀ run : TracerRun Peaceful mortalKernel, IsRun Delivers run.start run.steps := by
  intro h
  exact (h killedInStop).1.1 rfl

end Syren.PtraceTracer
