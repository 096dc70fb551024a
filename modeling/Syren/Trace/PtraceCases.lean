import Syren.Trace.Ptrace

/-! What one pass of `next_event` can do, said once: every execution of the code is one of the
cases below and every case is an execution. The kernel is arbitrary here. -/
namespace Syren.PtraceTracer
open Interaction Interaction.Method Function

variable {σ : Type} {env : Kernel σ} {t t' : PtraceTracer} {s s' : σ}

/-- The tracer after `pending_resume.take()`. -/
def ready (t : PtraceTracer) : PtraceTracer := { t with pendingResume := none }

/-- The tracer after `forget`. -/
def without (t : PtraceTracer) (pid : Pid) : PtraceTracer := { t with
  live := t.live.erase pid
  inflight := update t.inflight pid none
  tgid := update t.tgid pid none }

def withTgid (t : PtraceTracer) (pid : Pid) (tgid : UInt32) : PtraceTracer :=
  { t with tgid := update t.tgid pid (some tgid) }

def withInflight (t : PtraceTracer) (pid : Pid) (i : Option Inflight) : PtraceTracer :=
  { t with inflight := update t.inflight pid i }

def withLive (t : PtraceTracer) (pid : Pid) : PtraceTracer := { t with live := insert pid t.live }

def clock (t : PtraceTracer) (now : ℕ) : UInt64 := UInt64.ofNat (now - t.start)

def enterOf (regs : Regs) (enterNs : UInt64) : Inflight where
  nr := regs.origRax
  args := argsOf regs
  enterNs := enterNs

def completedCall (tgid : UInt32) (pid : Pid) (i : Inflight) (regs : Regs) (exitNs : UInt64) :
    SyscallEvent where
  pid := tgid
  tid := pid.toU32
  nr := i.nr
  args := i.args
  retval := regs.rax.toInt64
  tsEnterNs := i.enterNs
  durationNs := if i.enterNs ≤ exitNs then exitNs - i.enterNs else 0

def isCreation (event : Int32) : Prop :=
  event = PTRACE_EVENT_FORK ∨ event = PTRACE_EVENT_VFORK ∨ event = PTRACE_EVENT_CLONE

instance (event : Int32) : Decidable (isCreation event) := by
  unfold isCreation
  infer_instance

inductive TgidOf (env : Kernel σ) (t : PtraceTracer) (s : σ) (pid : Pid) :
    UInt32 → PtraceTracer → σ → Prop where
  | cached {v : UInt32} (h : t.tgid pid = some v) : TgidOf env t s pid v t s
  | read {a : Option (List Char)} {s' : σ} (h : t.tgid pid = none)
      (ha : env s (.readStatus pid) a s') :
      TgidOf env t s pid ((readTgid a).getD pid.toU32)
        (t.withTgid pid ((readTgid a).getD pid.toU32)) s'

inductive OnEvent (env : Kernel σ) (t : PtraceTracer) (s : σ) (pid : Pid) (event : Int32) :
    PtraceTracer → σ → Prop where
  | exec (h : event = PTRACE_EVENT_EXEC) : OnEvent env t s pid event (t.withInflight pid none) s
  | told {new : Int64} {s' : σ} (hf : t.follow = true) (hc : isCreation event)
      (ha : env s (.getevent pid) (.ok new) s') :
      OnEvent env t s pid event (t.withLive (.fromRaw new.toInt32)) s'
  | untold {e : Errno} {s' : σ} (hf : t.follow = true) (hc : isCreation event)
      (ha : env s (.getevent pid) (.error e) s') : OnEvent env t s pid event t s'
  | other (hx : event ≠ PTRACE_EVENT_EXEC) (hc : ¬ (t.follow = true ∧ isCreation event)) :
      OnEvent env t s pid event t s

inductive Handled (env : Kernel σ) (t : PtraceTracer) (s : σ) :
    WaitStatus → Except TraceError (Option Event) → PtraceTracer → σ → Prop where
  | enter {pid : Pid} {regs : Regs} {now : ℕ} {s₁ s₂ s' : σ} (hi : t.inflight pid = none)
      (hr : env s (.getregs pid) (.ok regs) s₁) (hn : env s₁ .now now s₂)
      (hc : env s₂ (.syscall pid none) (.ok ()) s') :
      Handled env t s (.ptraceSyscall pid) (.ok none)
        (t.withInflight pid (some (enterOf regs (t.clock now)))) s'
  | enterStuck {pid : Pid} {regs : Regs} {now : ℕ} {e : Errno} {s₁ s₂ s' : σ}
      (hi : t.inflight pid = none) (hr : env s (.getregs pid) (.ok regs) s₁)
      (hn : env s₁ .now now s₂) (hc : env s₂ (.syscall pid none) (.error e) s') :
      Handled env t s (.ptraceSyscall pid) (.error (.os e))
        (t.withInflight pid (some (enterOf regs (t.clock now)))) s'
  | enterUnread {pid : Pid} {e : Errno} {s' : σ} (hi : t.inflight pid = none)
      (hr : env s (.getregs pid) (.error e) s') :
      Handled env t s (.ptraceSyscall pid) (.error (.os e)) t s'
  | exit {pid : Pid} {i : Inflight} {regs : Regs} {now : ℕ} {v : UInt32} {t' : PtraceTracer}
      {s₁ s₂ s' : σ} (hi : t.inflight pid = some i) (hr : env s (.getregs pid) (.ok regs) s₁)
      (hn : env s₁ .now now s₂)
      (ht : TgidOf env { t.withInflight pid none with pendingResume := some (pid, none) } s₂ pid
        v t' s') :
      Handled env t s (.ptraceSyscall pid)
        (.ok (some (.syscall (completedCall v pid i regs (t.clock now))))) t' s'
  | exitUnread {pid : Pid} {i : Inflight} {e : Errno} {s' : σ} (hi : t.inflight pid = some i)
      (hr : env s (.getregs pid) (.error e) s') :
      Handled env t s (.ptraceSyscall pid) (.error (.os e)) (t.withInflight pid none) s'
  | exited {pid : Pid} {code : Int32} {v : UInt32} {t' : PtraceTracer} {s' : σ}
      (ht : TgidOf env t s pid v t' s') :
      Handled env t s (.exited pid code) (.ok (some (.processExit v code))) (t'.without pid) s'
  | signaled {pid : Pid} {sig : Signal} {core : Bool} {v : UInt32} {t' : PtraceTracer} {s' : σ}
      (ht : TgidOf env t s pid v t' s') :
      Handled env t s (.signaled pid sig core) (.ok (some (.processExit v (128 + sig.toI32))))
        (t'.without pid) s'
  | event {pid : Pid} {sig : Signal} {event : Int32} {t' : PtraceTracer} {s₁ s' : σ}
      (he : OnEvent env t s pid event t' s₁) (hc : env s₁ (.syscall pid none) (.ok ()) s') :
      Handled env t s (.ptraceEvent pid sig event) (.ok none) t' s'
  | eventStuck {pid : Pid} {sig : Signal} {event : Int32} {e : Errno} {t' : PtraceTracer}
      {s₁ s' : σ} (he : OnEvent env t s pid event t' s₁)
      (hc : env s₁ (.syscall pid none) (.error e) s') :
      Handled env t s (.ptraceEvent pid sig event) (.error (.os e)) t' s'
  | delivered {pid : Pid} {sig g : Signal} {v : UInt32} {t' : PtraceTracer} {s₁ s' : σ}
      (hg : deliver sig = some g) (hc : env s (.syscall pid (some g)) (.ok ()) s₁)
      (ht : TgidOf env t s₁ pid v t' s') :
      Handled env t s (.stopped pid sig) (.ok (some (.signal v g.toI32))) t' s'
  | swallowed {pid : Pid} {sig : Signal} {s' : σ} (hg : deliver sig = none)
      (hc : env s (.syscall pid none) (.ok ()) s') :
      Handled env t s (.stopped pid sig) (.ok none) t s'
  | stoppedStuck {pid : Pid} {sig : Signal} {e : Errno} {s' : σ}
      (hc : env s (.syscall pid (deliver sig)) (.error e) s') :
      Handled env t s (.stopped pid sig) (.error (.os e)) t s'
  | continued {pid : Pid} : Handled env t s (.continued pid) (.ok none) t s
  | stillAlive : Handled env t s .stillAlive (.ok none) t s

/-- The resumption at the start of a pass, when it goes well. -/
inductive Resumed (env : Kernel σ) (t : PtraceTracer) (s : σ) : σ → Prop where
  | idle (h : t.pendingResume = none) : Resumed env t s s
  | pending {pid : Pid} {sig : Option Signal} {s' : σ} (h : t.pendingResume = some (pid, sig))
      (hc : env s (.syscall pid sig) (.ok ()) s') : Resumed env t s s'

abbrev Outcome := Except TraceError (Option (Option Event))

inductive Pass (env : Kernel σ) (t : PtraceTracer) (s : σ) :
    Outcome → PtraceTracer → σ → Prop where
  | resumeStuck {pid : Pid} {sig : Option Signal} {e : Errno} {s' : σ}
      (h : t.pendingResume = some (pid, sig)) (hc : env s (.syscall pid sig) (.error e) s') :
      Pass env t s (.error (.os e)) t.ready s'
  | empty {s' : σ} (hr : Resumed env t s s') (hl : t.live = ∅) :
      Pass env t s (.ok (some none)) t.ready s'
  | noChild {s₁ s' : σ} (hr : Resumed env t s s₁) (hl : t.live ≠ ∅)
      (hw : env s₁ .waitAny (.error .ECHILD) s') : Pass env t s (.ok (some none)) t.ready s'
  | waitStuck {e : Errno} {s₁ s' : σ} (hr : Resumed env t s s₁) (hl : t.live ≠ ∅)
      (hw : env s₁ .waitAny (.error e) s') (he : e ≠ .ECHILD) :
      Pass env t s (.error (.os e)) t.ready s'
  | handled {st : WaitStatus} {r : Except TraceError (Option Event)} {t' : PtraceTracer}
      {s₁ s₂ s' : σ} (hr : Resumed env t s s₁) (hl : t.live ≠ ∅)
      (hw : env s₁ .waitAny (.ok st) s₂) (hh : Handled env t.ready s₂ st r t' s') :
      Pass env t s (r.map (Option.map some)) t' s'

theorem TgidOf.frame {pid : Pid} {v : UInt32}
    (h : TgidOf env t s pid v t' s') : t'.pendingResume = t.pendingResume ∧
      t'.inflight = t.inflight ∧ t'.live = t.live ∧ t'.follow = t.follow := by
  cases h <;> exact ⟨rfl, rfl, rfl, rfl⟩

theorem OnEvent.frame {pid : Pid} {event : Int32}
    (h : OnEvent env t s pid event t' s') :
    t'.pendingResume = t.pendingResume ∧ t'.tgid = t.tgid ∧ t'.follow = t.follow := by
  cases h <;> exact ⟨rfl, rfl, rfl⟩

theorem runs_tgidOf_bind {α : Type} {pid : Pid} {f : UInt32 → Tracing α}
    {r : Except TraceError α} :
    Runs env (tgidOf pid >>= f) t s r t' s' ↔
      ∃ v t₁ s₁, TgidOf env t s pid v t₁ s₁ ∧ Runs env (f v) t₁ s₁ r t' s' := by
  unfold tgidOf
  rw [runs_bind_bind, runs_get_bind]
  cases h : t.tgid pid with
  | some v =>
    constructor
    · intro hr
      exact ⟨v, t, s, .cached h, hr⟩
    · rintro ⟨_, _, _, hv | ⟨hn, _⟩, hr⟩
      · cases h.symm.trans hv
        exact hr
      · cases h.symm.trans hn
  | none =>
    constructor
    · rintro ⟨a, s₁, ha, hr⟩
      exact ⟨_, _, s₁, .read h ha, hr⟩
    · rintro ⟨_, _, s₁, hv | ⟨_, ha⟩, hr⟩
      · cases h.symm.trans hv
      · exact ⟨_, s₁, ha, hr⟩

/-- The `?` operator on the answer of a call: it goes on with the value or ends with the error. -/
theorem runs_answered {α β : Type} {ans : Except Errno α → σ → Prop} {f : α → Tracing β}
    {r : Except TraceError β} :
    (∃ a s₁, ans a s₁ ∧ Runs env (orOs a >>= f) t s₁ r t' s') ↔
      (∃ b s₁, ans (.ok b) s₁ ∧ Runs env (f b) t s₁ r t' s') ∨
      ∃ e, r = .error (.os e) ∧ t' = t ∧ ans (.error e) s' := by
  constructor
  · rintro ⟨_ | b, s₁, ha, hr⟩
    · obtain ⟨rfl, rfl, rfl⟩ := runs_throw_bind.mp hr
      exact .inr ⟨_, rfl, rfl, ha⟩
    · exact .inl ⟨b, s₁, ha, hr⟩
  · rintro (⟨b, s₁, ha, hr⟩ | ⟨e, rfl, rfl, ha⟩)
    · exact ⟨.ok b, s₁, ha, hr⟩
    · exact ⟨.error e, s', ha, runs_throw_bind.mpr ⟨rfl, rfl, rfl⟩⟩

theorem runs_answered_unit {β : Type} {ans : Except Errno Unit → σ → Prop} {f : Unit → Tracing β}
    {r : Except TraceError β} :
    (∃ a s₁, ans a s₁ ∧ Runs env (orOs a >>= f) t s₁ r t' s') ↔
      (∃ s₁, ans (.ok ()) s₁ ∧ Runs env (f ()) t s₁ r t' s') ∨
      ∃ e, r = .error (.os e) ∧ t' = t ∧ ans (.error e) s' :=
  runs_answered.trans (or_congr ⟨fun ⟨_, h⟩ => h, fun h => ⟨(), h⟩⟩ Iff.rfl)

theorem runs_resume_bind {α : Type} {pid : Pid} {sig : Option Signal} {f : Unit → Tracing α}
    {r : Except TraceError α} :
    Runs env (resume pid sig >>= f) t s r t' s' ↔
      (∃ s₁, env s (.syscall pid sig) (.ok ()) s₁ ∧ Runs env (f ()) t s₁ r t' s') ∨
      ∃ e, r = .error (.os e) ∧ t' = t ∧ env s (.syscall pid sig) (.error e) s' :=
  runs_bind_bind.trans runs_answered_unit

theorem runs_getregs_bind {α : Type} {pid : Pid} {f : Regs → Tracing α}
    {r : Except TraceError α} :
    Runs env (do f (← orOs (← Method.ask (Call.getregs pid)))) t s r t' s' ↔
      (∃ regs s₁, env s (.getregs pid) (.ok regs) s₁ ∧ Runs env (f regs) t s₁ r t' s') ∨
      ∃ e, r = .error (.os e) ∧ t' = t ∧ env s (.getregs pid) (.error e) s' :=
  runs_answered

theorem runs_onEvent_bind {α : Type} {pid : Pid} {event : Int32} {f : Unit → Tracing α}
    {r : Except TraceError α} :
    Runs env (onEvent pid event >>= f) t s r t' s' ↔
      ∃ t₁ s₁, OnEvent env t s pid event t₁ s₁ ∧ Runs env (f ()) t₁ s₁ r t' s' := by
  unfold onEvent
  by_cases hx : event = PTRACE_EVENT_EXEC
  · rw [if_pos hx]
    constructor
    · intro hr
      exact ⟨_, s, .exec hx, hr⟩
    · rintro ⟨_, _, hc, hr⟩
      cases hc with
      | exec => exact hr
      | told _ hc | untold _ hc => subst hx; exact absurd hc (by decide)
      | other hn => exact absurd hx hn
  · rw [if_neg hx, runs_bind_bind, runs_get_bind]
    by_cases hc : t.follow = true ∧ isCreation event
    · rw [if_pos (show _ ∧ (_ ∨ _) from hc), runs_bind_bind, runs_ask_bind]
      constructor
      · rintro ⟨_ | new, s₁, ha, hr⟩
        · exact ⟨t, s₁, .untold hc.1 hc.2 ha, hr⟩
        · exact ⟨_, s₁, .told hc.1 hc.2 ha, hr⟩
      · rintro ⟨_, s₁, hcase, hr⟩
        cases hcase with
        | exec h => exact absurd h hx
        | told _ _ ha => exact ⟨_, s₁, ha, hr⟩
        | untold _ _ ha => exact ⟨_, s₁, ha, hr⟩
        | other _ hn => exact absurd hc hn
    · rw [if_neg (show ¬ (_ ∧ (_ ∨ _)) from hc)]
      constructor
      · intro hr
        exact ⟨t, s, .other hx hc, hr⟩
      · rintro ⟨_, _, hcase, hr⟩
        cases hcase with
        | exec h => exact absurd h hx
        | told hf h | untold hf h => exact absurd ⟨hf, h⟩ hc
        | other => exact hr

theorem runs_nowNs_bind {α : Type} {f : UInt64 → Tracing α} {r : Except TraceError α} :
    Runs env (nowNs >>= f) t s r t' s' ↔
      ∃ (now : ℕ) (s₁ : σ), env s .now now s₁ ∧ Runs env (f (t.clock now)) t s₁ r t' s' := Iff.rfl

theorem runs_onSyscallStop {pid : Pid} {r : Except TraceError (Option Event)} :
    Runs env (onSyscallStop pid) t s r t' s' ↔ Handled env t s (.ptraceSyscall pid) r t' s' := by
  unfold onSyscallStop
  rw [runs_get_bind]
  cases hi : t.inflight pid with
  | some i =>
    simp only [runs_modify_bind, runs_getregs_bind, runs_nowNs_bind, runs_tgidOf_bind, runs_pure]
    constructor
    · rintro (⟨regs, s₁, hr, now, s₂, hn, v, t₁, s₃, ht, rfl, rfl, rfl⟩ | ⟨e, rfl, rfl, hr⟩)
      · exact .exit hi hr hn ht
      · exact .exitUnread hi hr
    · intro h
      cases h with
      | exit hj hr hn ht =>
        cases hi.symm.trans hj
        exact .inl ⟨_, _, hr, _, _, hn, _, _, _, ht, rfl, rfl, rfl⟩
      | exitUnread _ hr => exact .inr ⟨_, rfl, rfl, hr⟩
      | enter hn | enterStuck hn | enterUnread hn => cases hi.symm.trans hn
  | none =>
    simp only [runs_modify_bind, runs_getregs_bind, runs_nowNs_bind, runs_resume_bind, runs_pure]
    constructor
    · rintro (⟨regs, s₁, hr, now, s₂, hn, ⟨s₃, hc, rfl, rfl, rfl⟩ | ⟨e, rfl, rfl, hc⟩⟩ |
        ⟨e, rfl, rfl, hr⟩)
      · exact .enter hi hr hn hc
      · exact .enterStuck hi hr hn hc
      · exact .enterUnread hi hr
    · intro h
      cases h with
      | enter _ hr hn hc => exact .inl ⟨_, _, hr, _, _, hn, .inl ⟨_, hc, rfl, rfl, rfl⟩⟩
      | enterStuck _ hr hn hc => exact .inl ⟨_, _, hr, _, _, hn, .inr ⟨_, rfl, rfl, hc⟩⟩
      | enterUnread _ hr => exact .inr ⟨_, rfl, rfl, hr⟩
      | exit hj | exitUnread hj => cases hi.symm.trans hj

theorem runs_handle {st : WaitStatus} {r : Except TraceError (Option Event)} :
    Runs env (handle st) t s r t' s' ↔ Handled env t s st r t' s' := by
  cases st with
  | ptraceSyscall pid => exact runs_onSyscallStop
  | exited pid code =>
    simp only [handle, forget, runs_tgidOf_bind, runs_modify_bind, runs_pure]
    constructor
    · rintro ⟨v, t₁, s₁, ht, rfl, rfl, rfl⟩
      exact .exited ht
    · rintro ⟨⟩
      exact ⟨_, _, _, ‹_›, rfl, rfl, rfl⟩
  | signaled pid sig core =>
    simp only [handle, forget, runs_tgidOf_bind, runs_modify_bind, runs_pure]
    constructor
    · rintro ⟨v, t₁, s₁, ht, rfl, rfl, rfl⟩
      exact .signaled ht
    · rintro ⟨⟩
      exact ⟨_, _, _, ‹_›, rfl, rfl, rfl⟩
  | ptraceEvent pid sig event =>
    simp only [handle, runs_onEvent_bind, runs_resume_bind, runs_pure]
    constructor
    · rintro ⟨t₁, s₁, he, ⟨s₂, hc, rfl, rfl, rfl⟩ | ⟨e, rfl, rfl, hc⟩⟩
      · exact .event he hc
      · exact .eventStuck he hc
    · intro h
      cases h with
      | event he hc => exact ⟨_, _, he, .inl ⟨_, hc, rfl, rfl, rfl⟩⟩
      | eventStuck he hc => exact ⟨_, _, he, .inr ⟨_, rfl, rfl, hc⟩⟩
  | stopped pid sig =>
    simp only [handle, runs_resume_bind]
    constructor
    · rintro (⟨s₁, hc, hr⟩ | ⟨e, rfl, rfl, hc⟩)
      · cases hg : deliver sig with
        | none =>
          rw [hg] at hc hr
          obtain ⟨rfl, rfl, rfl⟩ := runs_pure.mp hr
          exact .swallowed hg hc
        | some g =>
          rw [hg] at hc hr
          obtain ⟨v, t₁, s₂, ht, hr⟩ := runs_tgidOf_bind.mp hr
          obtain ⟨rfl, rfl, rfl⟩ := runs_pure.mp hr
          exact .delivered hg hc ht
      · exact .stoppedStuck hc
    · intro h
      cases h with
      | delivered hg hc ht =>
        rw [hg]
        exact .inl ⟨_, hc, runs_tgidOf_bind.mpr ⟨_, _, _, ht, runs_pure.mpr ⟨rfl, rfl, rfl⟩⟩⟩
      | swallowed hg hc =>
        rw [hg]
        exact .inl ⟨_, hc, runs_pure.mpr ⟨rfl, rfl, rfl⟩⟩
      | stoppedStuck hc => exact .inr ⟨_, rfl, rfl, hc⟩
  | continued pid =>
    constructor
    · intro h
      obtain ⟨rfl, rfl, rfl⟩ := runs_pure.mp h
      exact .continued
    · rintro ⟨⟩
      exact runs_pure.mpr ⟨rfl, rfl, rfl⟩
  | stillAlive =>
    constructor
    · intro h
      obtain ⟨rfl, rfl, rfl⟩ := runs_pure.mp h
      exact .stillAlive
    · rintro ⟨⟩
      exact runs_pure.mpr ⟨rfl, rfl, rfl⟩

theorem runs_resumePending_bind {α : Type} {f : Unit → Tracing α} {r : Except TraceError α} :
    Runs env (resumePending >>= f) t s r t' s' ↔
      (∃ s₁, Resumed env t s s₁ ∧ Runs env (f ()) t.ready s₁ r t' s') ∨
      ∃ pid sig e, t.pendingResume = some (pid, sig) ∧ r = .error (.os e) ∧ t' = t.ready ∧
        env s (.syscall pid sig) (.error e) s' := by
  unfold resumePending
  rw [runs_bind_bind, runs_get_bind]
  cases hp : t.pendingResume with
  | none =>
    have hready : t.ready = t := by
      cases t
      cases hp
      rfl
    rw [hready]
    constructor
    · intro hr
      exact .inl ⟨s, .idle hp, hr⟩
    · rintro (⟨s₁, hres, hr⟩ | ⟨_, _, _, hn, _⟩)
      · cases hres with
        | idle => exact hr
        | pending hn => cases hp.symm.trans hn
      · cases hn
  | some ps =>
    obtain ⟨pid, sig⟩ := ps
    dsimp only
    rw [runs_bind_bind, runs_modify_bind, runs_resume_bind]
    constructor
    · rintro (⟨s₁, hc, hr⟩ | ⟨e, rfl, rfl, hc⟩)
      · exact .inl ⟨s₁, .pending hp hc, hr⟩
      · exact .inr ⟨pid, sig, e, rfl, rfl, rfl, hc⟩
    · rintro (⟨s₁, hres, hr⟩ | ⟨_, _, e, he, rfl, rfl, hc⟩)
      · cases hres with
        | idle hn => cases hp.symm.trans hn
        | pending hq hc =>
          cases hp.symm.trans hq
          exact .inl ⟨s₁, hc, hr⟩
      · cases he
        exact .inr ⟨e, rfl, rfl, hc⟩

private theorem runs_handle_map {st : WaitStatus} {r : Outcome} :
    Runs env (do return (← handle st).map some) t s r t' s' ↔
      ∃ q, Handled env t s st q t' s' ∧ r = q.map (Option.map some) := by
  rw [runs_bind]
  simp only [runs_handle, runs_pure]
  constructor
  · rintro (⟨a, t₁, s₁, h, rfl, rfl, rfl⟩ | ⟨e, rfl, h⟩)
    · exact ⟨.ok a, h, rfl⟩
    · exact ⟨.error e, h, rfl⟩
  · rintro ⟨_ | a, h, rfl⟩
    · exact .inr ⟨_, rfl, h⟩
    · exact .inl ⟨a, _, _, h, rfl, rfl, rfl⟩

/-- The executions of one pass of `next_event` are exactly the cases of `Pass`. -/
theorem runs_nextEventPass {r : Outcome} :
    Runs env nextEventPass t s r t' s' ↔ Pass env t s r t' s' := by
  unfold nextEventPass
  rw [runs_resumePending_bind]
  simp only [runs_get_bind]
  constructor
  · rintro (⟨s₁, hres, hr⟩ | ⟨pid, sig, e, hp, rfl, rfl, hc⟩)
    · split at hr
      next hl =>
        obtain ⟨rfl, rfl, rfl⟩ := runs_pure.mp hr
        exact .empty hres hl
      next hl =>
        obtain ⟨a, s₂, hw, hr⟩ := runs_ask_bind.mp hr
        obtain (_ | _ | _ | code) | st := a
        · obtain ⟨rfl, rfl, rfl⟩ := runs_pure.mp hr
          exact .noChild hres hl hw
        all_goals try
          obtain ⟨rfl, rfl, rfl⟩ := runs_throw.mp hr
          exact .waitStuck hres hl hw (by simp)
        obtain ⟨q, hh, rfl⟩ := runs_handle_map.mp hr
        exact .handled hres hl hw hh
    · exact .resumeStuck hp hc
  · intro h
    cases h with
    | resumeStuck hp hc => exact .inr ⟨_, _, _, hp, rfl, rfl, hc⟩
    | empty hres hl =>
      refine .inl ⟨_, hres, ?_⟩
      rw [if_pos (show t.ready.live = ∅ from hl)]
      exact runs_pure.mpr ⟨rfl, rfl, rfl⟩
    | noChild hres hl hw =>
      refine .inl ⟨_, hres, ?_⟩
      rw [if_neg (show ¬ t.ready.live = ∅ from hl)]
      exact runs_ask_bind.mpr ⟨_, _, hw, runs_pure.mpr ⟨rfl, rfl, rfl⟩⟩
    | @waitStuck e _ _ hres hl hw he =>
      refine .inl ⟨_, hres, ?_⟩
      rw [if_neg (show ¬ t.ready.live = ∅ from hl)]
      refine runs_ask_bind.mpr ⟨_, _, hw, ?_⟩
      cases e with
      | ECHILD => exact absurd rfl he
      | ESRCH | EPERM | other => exact runs_throw.mpr ⟨rfl, rfl, rfl⟩
    | handled hres hl hw hh =>
      refine .inl ⟨_, hres, ?_⟩
      rw [if_neg (show ¬ t.ready.live = ∅ from hl)]
      exact runs_ask_bind.mpr ⟨_, _, hw, runs_handle_map.mpr ⟨_, hh, rfl⟩⟩

end Syren.PtraceTracer
