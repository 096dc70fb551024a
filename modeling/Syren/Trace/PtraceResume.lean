import Syren.Trace.PtraceSetup

/-! The resume discipline of the `ptrace` backend: a ledger of the stops that `waitpid` has
reported and of the resumptions the tracer has asked for, over whole runs. -/
namespace Syren.PtraceTracer
open Interaction Interaction.Method Function

inductive Entry where
  | reported (pid : Pid)
  | resumed (pid : Pid)
  deriving DecidableEq

/-- A kernel that grants every ptrace request, reports any statuses whatever, and keeps the
ledger. -/
def ledgerKernel : Kernel (List Entry)
  | log, .waitAny, .ok st, log' => log' = log ++ st.stop.toList.map .reported
  | log, .waitAny, .error _, log' => log' = log
  | log, .syscall pid _, a, log' => a = .ok () ∧ log' = log ++ [.resumed pid]
  | log, .getregs _, a, log' => (∃ regs, a = .ok regs) ∧ log' = log
  | log, .getevent _, a, log' => (∃ new, a = .ok new) ∧ log' = log
  | log, _, _, log' => log' = log

/-- The reported stops not yet resumed, or `none` once a task has been resumed for no stop. -/
def settle (open_ : Option (List Pid)) : Entry → Option (List Pid)
  | .reported pid => open_.map (pid :: ·)
  | .resumed pid => open_.bind fun pids => if pid ∈ pids then some (pids.erase pid) else none

def unresumed (log : List Entry) : Option (List Pid) := log.foldl settle (some [])

@[simp] theorem unresumed_concat (log : List Entry) (e : Entry) :
    unresumed (log ++ [e]) = settle (unresumed log) e := by simp [unresumed]

/-- The task left stopped for the next call, as a list of open stops. -/
def owed (t : PtraceTracer) : List Pid := t.pendingResume.toList.map Prod.fst

/-- Between two passes the open stop is the deferred one, and there is no other. -/
def Settled (a : PtraceTracer × List Entry) : Prop := unresumed a.2 = some (owed a.1)

variable {t t' : PtraceTracer} {log log' : List Entry}

theorem Resumed.settled (h : Resumed ledgerKernel t log log')
    (hs : unresumed log = some (owed t)) : unresumed log' = some [] := by
  cases h with
  | idle hp => simpa [owed, hp] using hs
  | @pending pid sig _ hp hc =>
    obtain ⟨-, rfl⟩ := hc
    rw [unresumed_concat, hs]
    simp [settle, owed, hp]

theorem unresumed_reported (st : WaitStatus) (h : unresumed log = some []) :
    unresumed (log ++ st.stop.toList.map .reported) = some st.stop.toList := by
  cases hst : st.stop <;> simp [h, settle]

theorem unresumed_resumed {pid : Pid} (h : unresumed log = some [pid]) :
    unresumed (log ++ [.resumed pid]) = some [] := by
  rw [unresumed_concat, h]
  simp [settle]

theorem TgidOf.ledger {pid : Pid} {v : UInt32} (h : TgidOf ledgerKernel t log pid v t' log') :
    log' = log := by
  cases h with
  | cached => rfl
  | read _ ha => exact ha

theorem OnEvent.ledger {pid : Pid} {event : Int32}
    (h : OnEvent ledgerKernel t log pid event t' log') : log' = log := by
  cases h with
  | exec | other => rfl
  | told _ _ ha => exact ha.2
  | untold _ _ ha => exact ha.2

/-- Handling a status resumes the task it reports as stopped, unless it hands out the syscall of
that task: then the resumption is deferred. -/
theorem Handled.settled {st : WaitStatus} {r : Except TraceError (Option Event)}
    (h : Handled ledgerKernel t log st r t' log') (hp : t.pendingResume = none)
    (hs : unresumed log = some st.stop.toList) :
    unresumed log' = some (owed t') ∧
      ((∃ ev pid, r = .ok (some (.syscall ev)) ∧ ev.tid = pid.toU32 ∧
        t'.pendingResume = some (pid, none)) ∨
      ((∀ ev, r ≠ .ok (some (.syscall ev))) ∧ t'.pendingResume = none)) := by
  have owed_nil {t' : PtraceTracer} (h : t'.pendingResume = none) : owed t' = [] := by
    simp [owed, h]
  cases h with
  | @enter pid _ _ s₁ s₂ _ _ hr hn hc =>
    obtain ⟨-, rfl⟩ := hr
    cases hn
    obtain ⟨-, rfl⟩ := hc
    refine ⟨?_, .inr ⟨fun _ h => by simp at h, hp⟩⟩
    rw [owed_nil (show (t.withInflight pid _).pendingResume = none from hp)]
    exact unresumed_resumed hs
  | enterStuck _ _ _ hc | eventStuck _ hc | stoppedStuck hc => exact absurd hc.1 (by simp)
  | enterUnread _ hr | exitUnread _ hr => exact absurd hr.1 (by simp)
  | @exit pid _ _ _ v _ _ _ _ _ hr hn ht =>
    obtain ⟨-, rfl⟩ := hr
    cases hn
    have hl := ht.ledger
    have hf := ht.frame.1
    refine ⟨?_, .inl ⟨_, pid, rfl, rfl, hf⟩⟩
    rw [hl, hs]
    simp [owed, hf, WaitStatus.stop]
  | exited ht | signaled ht =>
    have hf := ht.frame.1.trans hp
    refine ⟨?_, .inr ⟨fun _ h => by simp at h, hf⟩⟩
    rw [ht.ledger, hs]
    exact congrArg some (owed_nil hf).symm
  | event he hc =>
    obtain ⟨-, rfl⟩ := hc
    have hl := he.ledger
    have hf := he.frame.1.trans hp
    refine ⟨?_, .inr ⟨fun _ h => by simp at h, hf⟩⟩
    rw [hl, owed_nil hf]
    exact unresumed_resumed hs
  | delivered _ hc ht =>
    obtain ⟨-, rfl⟩ := hc
    have hl := ht.ledger
    have hf := ht.frame.1.trans hp
    refine ⟨?_, .inr ⟨fun _ h => by simp at h, hf⟩⟩
    rw [hl, owed_nil hf]
    exact unresumed_resumed hs
  | swallowed _ hc =>
    obtain ⟨-, rfl⟩ := hc
    refine ⟨?_, .inr ⟨fun _ h => by simp at h, hp⟩⟩
    rw [owed_nil hp]
    exact unresumed_resumed hs
  | continued | stillAlive =>
    exact ⟨by rw [owed_nil hp, hs]; rfl, .inr ⟨fun _ h => by simp at h, hp⟩⟩

theorem Pass.settled {o : Outcome} (h : Pass ledgerKernel t log o t' log')
    (hs : unresumed log = some (owed t)) : unresumed log' = some (owed t') := by
  cases h with
  | resumeStuck _ hc => exact absurd hc.1 (by simp)
  | empty hr _ => exact hr.settled hs
  | noChild hr _ hw | waitStuck hr _ hw _ =>
    cases hw
    exact hr.settled hs
  | handled hr _ hw hh =>
    cases hw
    exact (hh.settled rfl (unresumed_reported _ (hr.settled hs))).1

theorem settled_run (run : TracerRun (fun a => Built a.1 ∧ a.2 = []) ledgerKernel) :
    Settled (lastState run.start run.steps) := by
  refine run.valid.invariant ?_ fun a o b hs hp => (passStep_iff.mp hp).settled hs
  obtain ⟨hb, hl⟩ := run.starts
  unfold Settled owed
  rw [hb.fresh.pending, hl]
  rfl

/-- What a pass that returns leaves unresumed. -/
theorem Pass.left {o : Outcome} (h : Pass ledgerKernel t log o t' log')
    (hs : unresumed log = some (owed t)) {r : Option Event} (hr : returned o = some (.ok r)) :
    (∃ ev pid, r = some (.syscall ev) ∧ ev.tid = pid.toU32 ∧ t'.pendingResume = some (pid, none) ∧
      unresumed log' = some [pid]) ∨
    (∀ ev, r ≠ some (.syscall ev)) ∧ unresumed log' = some [] := by
  have hs' := h.settled hs
  cases h with
  | resumeStuck => cases hr
  | waitStuck => cases hr
  | empty | noChild =>
    cases hr
    exact .inr ⟨by simp, hs'⟩
  | @handled st q _ _ _ _ hres _ hw hh =>
    cases hw
    obtain e | q := q
    · cases hr
    obtain _ | ev := q
    · cases hr
    cases hr
    rcases (hh.settled rfl (unresumed_reported _ (hres.settled hs))).2 with
      ⟨ev, pid, he, htid, hp⟩ | ⟨hne, hp⟩
    · cases he
      exact .inl ⟨ev, pid, rfl, htid, hp, by simpa [owed, hp] using hs'⟩
    · refine .inr ⟨fun ev h => hne ev (by rw [h]), ?_⟩
      simpa [owed, hp] using hs'

section Wait

variable {σ α : Type} {env : Kernel σ} {s s' : σ}

theorem comes_resume_bind {pid : Pid} {sig : Option Signal} {f : Unit → Tracing α}
    (h : Comes env (resume pid sig >>= f) t s .waitAny s') :
    ∃ s₁, env s (.syscall pid sig) (.ok ()) s₁ ∧ Comes env (f ()) t s₁ .waitAny s' := by
  unfold resume at h
  rw [comes_bind_bind, comes_ask_bind] at h
  rcases h with ⟨hc, -⟩ | ⟨_ | u, s₁, ha, hf⟩
  · cases hc
  · exact absurd hf comes_throw_bind
  · exact ⟨s₁, ha, hf⟩

theorem not_comes_tgidOf_bind {pid : Pid} {f : UInt32 → Tracing α}
    (hf : ∀ v t s, ¬ Comes env (f v) t s .waitAny s') :
    ¬ Comes env (tgidOf pid >>= f) t s .waitAny s' := by
  unfold tgidOf
  rw [comes_bind_bind, comes_get_bind]
  cases t.tgid pid with
  | some v => exact hf v t s
  | none =>
    rintro (⟨hc, -⟩ | ⟨a, s₁, -, h⟩)
    · cases hc
    · exact hf _ _ _ h

theorem not_comes_onEvent_bind {pid : Pid} {event : Int32} {f : Unit → Tracing α}
    (hf : ∀ t s, ¬ Comes env (f ()) t s .waitAny s') :
    ¬ Comes env (onEvent pid event >>= f) t s .waitAny s' := by
  unfold onEvent
  split_ifs
  · exact hf _ _
  · rw [comes_bind_bind, comes_get_bind]
    split_ifs
    · rw [comes_bind_bind, comes_ask_bind]
      rintro (⟨hc, -⟩ | ⟨_ | new, s₁, -, h⟩)
      · cases hc
      · exact hf _ _ h
      · exact hf _ _ h
    · exact hf _ _

theorem not_comes_getregs_bind {pid : Pid} {f : Regs → Tracing α}
    (hf : ∀ regs s, ¬ Comes env (f regs) t s .waitAny s') :
    ¬ Comes env (do f (← orOs (← Method.ask (Call.getregs pid)))) t s .waitAny s' := by
  rw [comes_ask_bind]
  rintro (⟨hc, -⟩ | ⟨_ | regs, s₁, -, h⟩)
  · cases hc
  · exact comes_throw_bind h
  · exact hf _ _ h

theorem not_comes_nowNs_bind {f : UInt64 → Tracing α}
    (hf : ∀ n s, ¬ Comes env (f n) t s .waitAny s') :
    ¬ Comes env (nowNs >>= f) t s .waitAny s' := by
  rintro (⟨hc, -⟩ | ⟨n, s₁, -, h⟩)
  · cases hc
  · exact hf _ _ h

theorem not_comes_handle {st : WaitStatus} : ¬ Comes env (handle st) t s .waitAny s' := by
  cases st with
  | exited | signaled =>
    exact not_comes_tgidOf_bind fun _ _ _ => comes_pure
  | stopped pid sig =>
    intro h
    obtain ⟨s₁, -, h⟩ := comes_resume_bind h
    cases hd : deliver sig with
    | none =>
      rw [hd] at h
      exact comes_pure h
    | some g =>
      rw [hd] at h
      exact not_comes_tgidOf_bind (fun _ _ _ => comes_pure) h
  | ptraceEvent pid sig event =>
    refine not_comes_onEvent_bind fun t s h => ?_
    obtain ⟨s₁, -, h⟩ := comes_resume_bind h
    exact comes_pure h
  | ptraceSyscall pid =>
    change ¬ Comes env (onSyscallStop pid) t s .waitAny s'
    unfold onSyscallStop
    rw [comes_get_bind]
    cases t.inflight pid with
    | some i =>
      rw [comes_modify_bind]
      refine not_comes_getregs_bind fun _ _ => not_comes_nowNs_bind fun _ _ => ?_
      rw [comes_modify_bind]
      exact not_comes_tgidOf_bind fun _ _ _ => comes_pure
    | none =>
      refine not_comes_getregs_bind fun _ _ => not_comes_nowNs_bind fun _ _ => ?_
      rw [comes_modify_bind]
      intro h
      obtain ⟨s₁, -, h⟩ := comes_resume_bind h
      exact comes_pure h
  | continued | stillAlive => exact comes_pure

theorem not_comes_resumePending : ¬ Comes env resumePending t s .waitAny s' := by
  intro h
  have h := comes_get_bind.mp h
  cases hp : t.pendingResume with
  | none =>
    rw [hp] at h
    exact comes_pure h
  | some p =>
    rw [hp] at h
    have h := comes_modify_bind.mp h
    obtain ⟨s₁, -, h⟩ := comes_resume_bind (f := pure) (comes_bind.mpr (.inl h))
    exact comes_pure h

theorem resumed_of_runs {t' : PtraceTracer} (h : Runs env resumePending t s (.ok ()) t' s') :
    Resumed env t s s' := by
  have hdone : Runs env (resumePending >>= pure) t s (.ok ()) t' s' :=
    runs_bind.mpr (.inl ⟨(), t', s', h, runs_pure.mpr ⟨rfl, rfl, rfl⟩⟩)
  rcases runs_resumePending_bind.mp hdone with ⟨s₁, hres, hr⟩ | ⟨pid, sig, e, -, he, -⟩
  · obtain ⟨-, -, rfl⟩ := runs_pure.mp hr
    exact hres
  · cases he

/-- `next_event` calls `waitpid` only where the deferred resumption, if any, has been made. -/
theorem comes_wait (h : Comes env nextEventPass t s .waitAny s') : Resumed env t s s' := by
  rcases comes_bind.mp h with h | ⟨_, t₁, s₁, hr, h⟩
  · exact absurd h not_comes_resumePending
  · have hs : s' = s₁ := by
      rw [comes_get_bind] at h
      split_ifs at h
      · exact absurd h comes_pure
      · rw [comes_ask_bind] at h
        rcases h with ⟨-, hs⟩ | ⟨e | st, s₂, -, h⟩
        · exact hs
        · cases e with
          | ECHILD => exact absurd h comes_pure
          | ESRCH | EPERM | other => exact absurd h comes_throw
        · rcases comes_bind.mp h with h | ⟨_, _, _, -, h⟩
          · exact absurd h not_comes_handle
          · exact absurd h comes_pure
    rw [hs]
    exact resumed_of_runs hr

end Wait

/-- After any run, `waitpid` is called with every reported stop resumed exactly once; a pass that
returns a syscall leaves open the stop of that task alone, and it is the deferred one; a pass that
returns anything else leaves none. -/
theorem resume_discipline (run : TracerRun (fun a => Built a.1 ∧ a.2 = []) ledgerKernel) :
    let a := lastState run.start run.steps
    (∀ log, Comes ledgerKernel nextEventPass a.1 a.2 .waitAny log → unresumed log = some []) ∧
    ∀ o b r, passStep ledgerKernel a o b → returned o = some (.ok r) →
      (∃ ev pid, r = some (.syscall ev) ∧ ev.tid = pid.toU32 ∧
        b.1.pendingResume = some (pid, none) ∧ unresumed b.2 = some [pid]) ∨
      (∀ ev, r ≠ some (.syscall ev)) ∧ unresumed b.2 = some [] := by
  intro a
  have hs : unresumed a.2 = some (owed a.1) := settled_run run
  refine ⟨fun log hc => (comes_wait hc).settled hs, fun o b r hp hr => ?_⟩
  exact (passStep_iff.mp hp).left hs hr

end Syren.PtraceTracer
