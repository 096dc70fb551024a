import Syren.Cli.BuildTracer
import Syren.Trace.EbpfSetup

/-! How often the fallback of the command line lets the program be executed. A child of the first
attempt waits at a pipe, and the parent writes to that pipe whether the child was armed or not. -/
namespace Syren
open Interaction Interaction.Attempt Function

/-- The program of a child of the eBPF backend, which waits before it does anything. -/
def Waits (ops : List ChildOp) : Prop := ∃ fd rest, ops = .readPipe fd :: rest

/-- The program has been executed at most once, and after a fallback not by a child of the eBPF
attempt. -/
def OneExec (program : OsBytes) (k : Children) : Prop :=
  k.executed.countP (·.2.bytes = program) ≤ 1 ∧
    (k.notices ≠ [] → ∀ q ∈ k.forks, Waits q.2 → ∀ c, (q.1, c) ∉ k.executed)

variable {runnable : OsBytes → Bool} {k k' : Children} {program : OsBytes}

theorem cstring_bytes {bytes : OsBytes} {c : CString} (h : cstring bytes = .ok c) :
    c.bytes = bytes := by
  unfold cstring at h
  split_ifs at h
  cases h
  rfl

theorem quiet_frame {α ε : Type} {x : Attempt Call Call.Answer ε α} {r : Except ε α}
    (hq : Only Call.Quiet x) (h : Ends (childKernel runnable) x k r k') :
    Frame k k' ∧ (ArmRefused k' ↔ ArmRefused k) := by
  refine Ends.keeps_only (P := fun k₁ => Frame k k₁ ∧ (ArmRefused k₁ ↔ ArmRefused k))
    (fun k₁ c a k₂ hc ha hk => ?_) hq h ⟨.refl k, Iff.rfl⟩
  obtain ⟨hf, hr⟩ := childKernel_frame ha hc.1
  exact ⟨hk.1.trans hf, (hr hc.2).trans hk.2⟩

theorem childKernel_fork {ops : List ChildOp} {p : Pid}
    (h : childKernel runnable k (.fork ops) (.ok p) k') :
    k'.forks = (p, ops) :: k.forks ∧ k'.left p = ops ∧ k'.pipes = k.pipes ∧
      k'.filled = k.filled ∧ k'.notices = k.notices ∧ (ArmRefused k' ↔ ArmRefused k) := by
  obtain ⟨k₁, hl, -, rfl⟩ := h
  obtain ⟨hf, hr⟩ := later_frame hl
  refine ⟨congrArg _ hf.forks, update_self .., hf.pipes, hf.filled, hf.notices, ?_⟩
  rw [ArmRefused, ArmRefused, ← hr]
  rfl

theorem childKernel_write {fd : Int32} {b : UInt8}
    (h : childKernel runnable k (.write fd [b]) () k') :
    k'.forks = k.forks ∧ k'.notices = k.notices ∧ (ArmRefused k' ↔ ArmRefused k) ∧
      ∀ readFd, (readFd, fd) ∈ k.pipes → readFd ∈ k'.filled := by
  obtain ⟨k₁, hl, ha⟩ := h
  obtain ⟨hf, hr⟩ := later_frame hl
  obtain rfl : k' = k₁.fills fd := ha
  refine ⟨hf.forks, hf.notices, ?_, fun readFd hm => ?_⟩
  · rw [ArmRefused, ArmRefused, ← hr]
    rfl
  · refine List.mem_append_left _ (List.mem_map.mpr ⟨(readFd, fd), ?_, rfl⟩)
    rw [hf.pipes]
    simpa using hm

/-- How the parent's part of the spawn ends. -/
inductive ReleaseEnds (k' : Children) : Except TraceError EbpfTracer → Prop
  | armed (tracer : EbpfTracer) (ha : ¬ ArmRefused k') : ReleaseEnds k' (.ok tracer)
  | refused (reason : String) (ha : ArmRefused k') :
      ReleaseEnds k' (.error (.ebpfUnsupported reason))

/-- Armed or not, the child is let go. -/
theorem release_ends {t : EbpfTracer} {p : Pid} {readFd writeFd : Int32}
    {r : Except TraceError EbpfTracer}
    (h : Ends (childKernel runnable) (EbpfTracer.release t p readFd writeFd) k r k')
    (hp : (readFd, writeFd) ∈ k.pipes) (hn : ¬ ArmRefused k) :
    k'.forks = k.forks ∧ k'.notices = k.notices ∧ readFd ∈ k'.filled ∧ ReleaseEnds k' r := by
  obtain ⟨_, k₁, h₁, h⟩ := ends_ask_bind.mp h
  obtain ⟨hf₁, hr₁⟩ := childKernel_frame h₁ trivial
  rcases ends_bind.mp h with ⟨armed, k₂, h₂, h⟩ | ⟨e, -, h₂⟩
  · obtain ⟨q, h₂, hq⟩ := ends_caught.mp h₂
    cases hq
    obtain ⟨hf₂, harm⟩ := EbpfTracer.arm_ends h₂
    obtain ⟨_, k₃, h₃, h⟩ := ends_ask_bind.mp h
    obtain ⟨hforks₃, hnotices₃, hr₃, hfill₃⟩ := childKernel_write h₃
    obtain ⟨_, k₄, h₄, h⟩ := ends_ask_bind.mp h
    obtain ⟨hf₄, hr₄⟩ := childKernel_frame h₄ trivial
    have hfilled : readFd ∈ k₄.filled := by
      rw [hf₄.filled]
      apply hfill₃ readFd
      rw [hf₂.pipes, hf₁.pipes]
      exact hp
    have hforks : k₄.forks = k.forks := by
      rw [hf₄.forks, hforks₃, hf₂.forks, hf₁.forks]
    have hnotices : k₄.notices = k.notices := by
      rw [hf₄.notices, hnotices₃, hf₂.notices, hf₁.notices]
    have hrefused : ArmRefused k₄ ↔ ArmRefused k₂ := (hr₄ id).trans hr₃
    cases harm with
    | armed same =>
      obtain ⟨rfl, rfl⟩ := ends_pure.mp h
      refine ⟨hforks, hnotices, hfilled, .armed _ fun ha => hn ?_⟩
      exact (hr₁ id).mp (same.mp (hrefused.mp ha))
    | refused reason ha =>
      obtain ⟨rfl, rfl⟩ := ends_throw.mp h
      exact ⟨hforks, hnotices, hfilled, .refused reason (hrefused.mpr ha)⟩
  · obtain ⟨q, -, hq⟩ := ends_caught.mp h₂
    cases hq

/-- How the eBPF attempt ends: without a child, or with one child that has been let go. -/
inductive AttemptEnds (runnable : OsBytes → Bool) (program : OsBytes) (k' : Children) :
    Except TraceError EbpfTracer → Prop
  | early (e : TraceError) (hf : k'.forks = []) (ha : ¬ ArmRefused k') :
      AttemptEnds runnable program k' (.error e)
  | forked (p : Pid) (fd : Int32) (c : CString) (argv : List CString)
      (r : Except TraceError EbpfTracer) (hc : c.bytes = program)
      (hf : k'.forks = [(p, EbpfTracer.childOps fd c argv)]) (hfd : fd ∈ k'.filled)
      (hb : runnable c.bytes → Bound fd c p k') (hr : ReleaseEnds k' r) :
      AttemptEnds runnable program k' r

theorem start_ends {t : EbpfTracer} {c : CString} {argv : List CString}
    {r : Except TraceError EbpfTracer} (hc : c.bytes = program)
    (h : Ends (childKernel runnable) (EbpfTracer.start t c argv) k r k')
    (hk : k.forks = []) (hn : ¬ ArmRefused k) :
    k'.notices = k.notices ∧ AttemptEnds runnable program k' r := by
  obtain ⟨pair, k₂, ⟨k₁, hl, ha⟩, hpipe⟩ := ends_ask_bind.mp h
  obtain ⟨hf₁, hr₁⟩ := later_frame hl
  have hk₁ : k₁.forks = [] := hf₁.forks.trans hk
  have hn₁ : ¬ ArmRefused k₁ := by rwa [ArmRefused, hr₁]
  obtain e | ⟨readFd, writeFd⟩ := pair
  · obtain rfl : k₂ = k₁ := ha
    obtain ⟨rfl, rfl⟩ := ends_throw.mp hpipe
    exact ⟨hf₁.notices, .early _ hk₁ hn₁⟩
  · obtain rfl : k₂ = k₁.opens (readFd, writeFd) := ha
    obtain ⟨forked, k₄, hfork, hchild⟩ := ends_ask_bind.mp hpipe
    obtain e | p := forked
    · obtain ⟨k₃, hl₃, rfl⟩ := hfork
      obtain ⟨rfl, rfl⟩ := ends_throw_bind.mp hchild
      obtain ⟨hf₃, hr₃⟩ := later_frame hl₃
      refine ⟨hf₃.notices.trans hf₁.notices, .early _ (hf₃.forks.trans hk₁) ?_⟩
      rw [ArmRefused, hr₃]
      exact hn₁
    · have hrelease : Ends (childKernel runnable) (EbpfTracer.release t p readFd writeFd) k₄ r k' :=
        hchild
      obtain ⟨hforks₄, hleft₄, hpipes₄, -, hnotices₄, hr₄⟩ := childKernel_fork hfork
      have hforks : k₄.forks = [(p, EbpfTracer.childOps readFd c argv)] := by
        rw [hforks₄]
        exact congrArg _ hk₁
      have hopen : (readFd, writeFd) ∈ k₄.pipes := by
        rw [hpipes₄]
        exact List.mem_cons_self ..
      have hn₄ : ¬ ArmRefused k₄ := fun ha => hn₁ (hr₄.mp ha)
      obtain ⟨hforks', hnotices', hfilled, hends⟩ := release_ends hrelease hopen hn₄
      refine ⟨hnotices'.trans (hnotices₄.trans hf₁.notices),
        .forked p readFd c argv r hc (hforks'.trans hforks) hfilled (fun hrun => ?_) hends⟩
      have hstart : Bound readFd c p k₄ :=
        ⟨⟨_, hforks ▸ List.mem_cons_self ..⟩, .inl ⟨argv, [.exit 127], hleft₄⟩⟩
      exact Program.Exec.keeps (fun _ _ _ _ ha hb => hb.childKernel hrun ha) hrelease hstart

theorem spawn_ends {t : EbpfTracer} {args : List OsBytes} {r : Except TraceError EbpfTracer}
    (h : Ends (childKernel runnable) (EbpfTracer.spawn t program args) k r k')
    (hk : k.forks = []) (hn : ¬ ArmRefused k) :
    k'.notices = k.notices ∧ AttemptEnds runnable program k' r := by
  have resolved {k₁ : Children} {q : Except TraceError Unit}
      (h₁ : Ends (childKernel runnable) (EbpfTracer.resolveProgram program) k q k₁) :
      k₁.notices = k.notices ∧ k₁.forks = [] ∧ ¬ ArmRefused k₁ := by
    obtain ⟨hf, hr⟩ := quiet_frame (EbpfTracer.quiet_resolveProgram program) h₁
    exact ⟨hf.notices, hf.forks.trans hk, fun ha => hn (hr.mp ha)⟩
  rcases ends_bind.mp h with ⟨_, k₁, h₁, hnamed⟩ | ⟨e, rfl, h₁⟩
  · obtain ⟨hnotices, hk₁, hn₁⟩ := resolved h₁
    rcases ends_bind.mp hnamed with ⟨c, _, ⟨hc, rfl⟩, hargs⟩ | ⟨e, rfl, -, rfl⟩
    · rcases ends_bind.mp hargs with ⟨argv, _, ⟨-, rfl⟩, hstart⟩ | ⟨e, rfl, -, rfl⟩
      · obtain ⟨hn', hends⟩ := start_ends (cstring_bytes hc.symm) hstart hk₁ hn₁
        exact ⟨hn'.trans hnotices, hends⟩
      · exact ⟨hnotices, .early e hk₁ hn₁⟩
    · exact ⟨hnotices, .early e hk₁ hn₁⟩
  · obtain ⟨hnotices, hk₁, hn₁⟩ := resolved h₁
    exact ⟨hnotices, .early e hk₁ hn₁⟩

theorem new_ends {table : List SyscallInfo} {args : List OsBytes} {o : TraceOptions}
    {r : Except TraceError EbpfTracer}
    (h : Ends (childKernel runnable) (EbpfTracer.new table (.spawn program args) o) k r k')
    (hk : k.forks = []) (hn : ¬ ArmRefused k) :
    k'.notices = k.notices ∧ AttemptEnds runnable program k' r := by
  rcases ends_bind.mp h with ⟨t, k₁, h₁, hspawn⟩ | ⟨e, rfl, h₁⟩
  · obtain ⟨hf₁, hr₁⟩ := quiet_frame (EbpfTracer.quiet_load table o) h₁
    obtain ⟨hnotices, hends⟩ := spawn_ends hspawn (hf₁.forks.trans hk) fun ha => hn (hr₁.mp ha)
    exact ⟨hnotices.trans hf₁.notices, hends⟩
  · obtain ⟨hf₁, hr₁⟩ := quiet_frame (EbpfTracer.quiet_load table o) h₁
    exact ⟨hf₁.notices, .early e (hf₁.forks.trans hk) fun ha => hn (hr₁.mp ha)⟩

/-- What the second attempt leaves alone, and the one child it may add. -/
structure SecondEnds (program : OsBytes) (k k' : Children) : Prop where
  notices : k.notices ≠ [] → k'.notices ≠ []
  filled : k'.filled = k.filled
  refused : ArmRefused k' ↔ ArmRefused k
  forks : k'.forks = k.forks ∨ ∃ p c argv, c.bytes = program ∧
    k'.forks = (p, [.traceme, .execvp c argv, .exit 127]) :: k.forks

theorem SecondEnds.of_quiet {k₁ : Children} {α : Type} {x : Setup α} {r : Except TraceError α}
    (h : SecondEnds program k k₁) (hq : Only Call.Quiet x)
    (hx : Ends (childKernel runnable) x k₁ r k') : SecondEnds program k k' := by
  obtain ⟨hf, hr⟩ := quiet_frame hq hx
  refine ⟨fun hn => ?_, hf.filled.trans h.filled, hr.trans h.refused, ?_⟩
  · rw [hf.notices]
    exact h.notices hn
  · rw [hf.forks]
    exact h.forks

theorem SecondEnds.refl (k : Children) : SecondEnds program k k := ⟨id, rfl, Iff.rfl, .inl rfl⟩

theorem quiet_adopt (child : Pid) : Method.Only Call.Quiet (PtraceTracer.adopt child) := by
  have orOs {α : Type} (a : Except Errno α) : Method.Only Call.Quiet (PtraceTracer.orOs a) := by
    cases a <;> exact fun _ => trivial
  have configure : Method.Only Call.Quiet (PtraceTracer.configure child) := by
    refine Method.Only.bind Method.only_get fun t => ?_
    exact Method.Only.bind (Method.only_ask ⟨trivial, id⟩) fun a => orOs a
  refine Method.Only.bind configure fun _ => Method.Only.bind Method.only_modify fun _ => ?_
  exact Method.Only.bind (Method.only_ask ⟨trivial, id⟩) fun a => orOs a

/-- The part of `PtraceTracer.spawn` after the fork. -/
theorem quiet_adopted (child : Pid) (o : TraceOptions) : Only Call.Quiet (do
    let tracer ← PtraceTracer.empty o
    match ← Setup.orOs (← Attempt.ask (Call.waitpid child)) with
    | .exited _ _ | .signaled _ _ _ => throw (.spawn program ENOENT)
    | _ => Attempt.construct tracer (PtraceTracer.adopt child)) := by
  have orOs {α : Type} (a : Except Errno α) : Only Call.Quiet (Setup.orOs a) := by
    cases a <;> trivial
  refine Only.bind (Only.bind (only_ask ⟨trivial, id⟩) fun _ => only_pure) fun tracer => ?_
  refine Only.bind (only_ask ⟨trivial, id⟩) fun waited => Only.bind (orOs _) fun status => ?_
  split
  · exact only_throw
  · exact only_throw
  · exact Only.construct (quiet_adopt child)

theorem ptrace_spawn_ends {args : List OsBytes} {o : TraceOptions}
    {r : Except TraceError PtraceTracer}
    (h : Ends (childKernel runnable) (PtraceTracer.spawn program args o) k r k') :
    SecondEnds program k k' := by
  rcases ends_bind.mp h with ⟨c, _, ⟨hc, rfl⟩, hargs⟩ | ⟨e, rfl, -, rfl⟩
  · rcases ends_bind.mp hargs with ⟨argv, _, ⟨-, rfl⟩, hspawn⟩ | ⟨e, rfl, -, rfl⟩
    · obtain ⟨forked, k₁, hfork, hchild⟩ := ends_ask_bind.mp hspawn
      obtain e | p := forked
      · obtain ⟨rfl, rfl⟩ := ends_throw_bind.mp hchild
        obtain ⟨k₂, hl, rfl⟩ := hfork
        obtain ⟨hf, hr⟩ := later_frame hl
        refine ⟨fun hn => hf.notices.symm ▸ hn, hf.filled, ?_, .inl hf.forks⟩
        rw [ArmRefused, ArmRefused, hr]
      · obtain ⟨hforks, -, -, hfilled, hnotices, hr⟩ := childKernel_fork hfork
        have hforked : SecondEnds program _ k₁ :=
          ⟨fun hn => hnotices.symm ▸ hn, hfilled, hr, .inr ⟨p, c, _, cstring_bytes hc.symm, hforks⟩⟩
        exact hforked.of_quiet (quiet_adopted p o) hchild
    · exact .refl k'
  · exact .refl k'

/-- Whether the feature is there or not, the first attempt ends like the eBPF attempt. -/
theorem tracer_ends {feature : Bool} {table : List SyscallInfo} {args : List OsBytes}
    {o : TraceOptions} {r : Except TraceError Tracer}
    (h : Ends (childKernel runnable) (tracer feature table .ebpf (.spawn program args) o) .none r
      k') : k'.notices = [] ∧ ∃ q, r = q.map .ebpf ∧ AttemptEnds runnable program k' q := by
  have hnone : ¬ ArmRefused .none := by simp [ArmRefused, Children.none]
  cases feature with
  | false =>
    obtain ⟨rfl, rfl⟩ := ends_throw.mp h
    exact ⟨rfl, .error _, rfl, .early _ rfl hnone⟩
  | true =>
    rcases ends_bind.mp h with ⟨t, k₁, hnew, hdone⟩ | ⟨e, rfl, hnew⟩
    · obtain ⟨rfl, rfl⟩ := ends_pure.mp hdone
      obtain ⟨hnotices, hends⟩ := new_ends hnew rfl hnone
      exact ⟨hnotices, .ok t, rfl, hends⟩
    · obtain ⟨hnotices, hends⟩ := new_ends hnew rfl hnone
      exact ⟨hnotices, .error e, rfl, hends⟩

/-- Every child is forked to execute the program and no other. -/
def Targets (program : OsBytes) (k : Children) : Prop :=
  ∀ q ∈ k.forks, ∀ c argv, ChildOp.execvp c argv ∈ q.2 → c.bytes = program

/-- What a build of a tracer leaves: one child at most, which is not of the eBPF attempt if the
second attempt was made, or a child of the eBPF attempt that was let go before the second. -/
inductive BuildEnds (runnable : OsBytes → Bool) (program : OsBytes) (k' : Children) : Prop
  | single (hle : k'.forks.length ≤ 1) (hn : ¬ ArmRefused k')
      (hw : k'.notices ≠ [] → ∀ q ∈ k'.forks, ¬ Waits q.2)
  | released (p : Pid) (fd : Int32) (c : CString) (argv : List CString) (ha : ArmRefused k')
      (hn : k'.notices ≠ []) (hm : (p, EbpfTracer.childOps fd c argv) ∈ k'.forks)
      (hfd : fd ∈ k'.filled) (hc : c.bytes = program) (hb : runnable c.bytes → Bound fd c p k')

theorem SecondEnds.targets (h : SecondEnds program k k') (ht : Targets program k) :
    Targets program k' := by
  rcases h.forks with hf | ⟨p, c, argv, hc, hf⟩
  · rw [Targets, hf]
    exact ht
  · rw [Targets, hf]
    intro q hq d argv' hd
    rcases List.mem_cons.mp hq with rfl | hq
    · obtain ⟨rfl, -⟩ : d = c ∧ argv' = argv := by simpa using hd
      exact hc
    · exact ht q hq d argv' hd

theorem AttemptEnds.targets {r : Except TraceError EbpfTracer}
    (h : AttemptEnds runnable program k r) : Targets program k := by
  cases h with
  | early e hf ha => simp [Targets, hf]
  | forked p fd c argv r hc hf hfd hb hr =>
    intro q hq d argv' hd
    rw [hf, List.mem_singleton] at hq
    subst hq
    obtain ⟨rfl, -⟩ : d = c ∧ argv' = argv := by simpa [EbpfTracer.childOps] using hd
    exact hc

/-- A second attempt after a first one that made no child. -/
theorem SecondEnds.single (h : SecondEnds program k k') (hk : k.forks = []) (hn : ¬ ArmRefused k) :
    BuildEnds runnable program k' := by
  refine .single ?_ (fun ha => hn (h.refused.mp ha)) fun _ q hq => ?_
  · rcases h.forks with hf | ⟨p, c, argv, -, hf⟩ <;> simp [hf, hk]
  · rcases h.forks with hf | ⟨p, c, argv, -, hf⟩
    · simp [hf, hk] at hq
    · rw [hf, hk, List.mem_singleton] at hq
      subst hq
      rintro ⟨fd, rest, he⟩
      cases he

theorem second_ends {feature : Bool} {table : List SyscallInfo} {args : List OsBytes}
    {o : TraceOptions} {message context : String} {r : Except CliError Tracer}
    (h : Ends (childKernel runnable) (do
      ask (Call.eprintln message)
      let second ← caught (tracer feature table .ptrace (.spawn program args) o)
      withContext context second) k r k') : SecondEnds program k k' ∧ k'.notices ≠ [] := by
  obtain ⟨_, k₂, ⟨k₁, hl, ha⟩, hsecond⟩ := ends_ask_bind.mp h
  obtain ⟨hf₁, hr₁⟩ := later_frame hl
  obtain rfl : k₂ = k₁.prints message := ha
  have hprinted : (k₁.prints message).notices ≠ [] := List.cons_ne_nil _ _
  have hrefused : ArmRefused (k₁.prints message) ↔ ArmRefused k := by
    rw [ArmRefused, ArmRefused, ← hr₁]
    rfl
  rcases ends_bind.mp hsecond with ⟨second, k₃, hcaught, hdone⟩ | ⟨e, -, hcaught⟩
  · obtain ⟨q, htracer, hq⟩ := ends_caught.mp hcaught
    cases hq
    have hnew : SecondEnds program (k₁.prints message) k₃ := by
      rcases ends_bind.mp htracer with ⟨t, k₄, hspawn, hpure⟩ | ⟨e, -, hspawn⟩
      · obtain ⟨-, rfl⟩ := ends_pure.mp hpure
        exact ptrace_spawn_ends hspawn
      · exact ptrace_spawn_ends hspawn
    obtain rfl : k' = k₃ := by
      cases second with
      | error e => exact (ends_throw.mp hdone).2
      | ok t => exact (ends_pure.mp hdone).2
    have hforks : (k₁.prints message).forks = k.forks := hf₁.forks
    have hforks' := hnew.forks
    rw [hforks] at hforks'
    exact ⟨⟨fun _ => hnew.notices hprinted, hnew.filled.trans hf₁.filled,
      hnew.refused.trans hrefused, hforks'⟩, hnew.notices hprinted⟩
  · obtain ⟨q, -, hq⟩ := ends_caught.mp hcaught
    cases hq

/-- After an attempt that does not make the command line fall back. -/
theorem AttemptEnds.kept {r : Except TraceError EbpfTracer} (h : AttemptEnds runnable program k r)
    (hn : k.notices = []) (hr : ∀ e, r = .error e → e.fallback = none) :
    BuildEnds runnable program k := by
  cases h with
  | early e hf ha => exact .single (by simp [hf]) ha fun hne => absurd hn hne
  | forked p fd c argv r hc hf hfd hb hends =>
    cases hends with
    | armed t ha => exact .single (by simp [hf]) ha fun hne => absurd hn hne
    | refused reason ha => cases hr _ rfl

/-- After an attempt that makes the command line fall back. -/
theorem AttemptEnds.followed {e : TraceError} {α : Type} {x : Attempt Call Call.Answer CliError α}
    {r : Except CliError α} (h : AttemptEnds runnable program k (.error e))
    (hx : Ends (childKernel runnable) x k r k') (hs : SecondEnds program k k')
    (hn : k'.notices ≠ []) : BuildEnds runnable program k' := by
  generalize hr : (Except.error e : Except TraceError EbpfTracer) = r' at h
  cases h with
  | early e hf ha => exact hs.single hf ha
  | forked p fd c argv r' hc hf hfd hb hends =>
    cases hends with
    | armed t ha => cases hr
    | refused reason ha =>
      refine .released p fd c argv (hs.refused.mpr ha) hn ?_ (hs.filled ▸ hfd) hc fun hrun => ?_
      · rcases hs.forks with hf' | ⟨p', c', argv', -, hf'⟩ <;> simp [hf', hf]
      · exact Program.Exec.keeps (fun _ _ _ _ ha hb => hb.childKernel hrun ha) hx (hb hrun)

theorem buildTracer_ends {feature : Bool} {table : List SyscallInfo} {args : List OsBytes}
    {o : TraceOptions} {r : Except CliError Tracer}
    (h : Ends (childKernel runnable) (buildTracer feature table .ebpf (.spawn program args) o) .none
      r k') : Targets program k' ∧ BuildEnds runnable program k' := by
  rcases ends_bind.mp h with ⟨first, k₁, h₁, hmatch⟩ | ⟨e, -, h₁⟩
  · obtain ⟨q, htracer, hq⟩ := ends_caught.mp h₁
    cases hq
    obtain ⟨hnotices, q, rfl, hends⟩ := tracer_ends htracer
    obtain e | t := q
    · simp only [Except.map, if_true] at hmatch
      cases hfall : e.fallback with
      | none =>
        rw [hfall] at hmatch
        obtain ⟨-, rfl⟩ := ends_throw.mp hmatch
        refine ⟨hends.targets, hends.kept hnotices fun e' he => ?_⟩
        cases he
        exact hfall
      | some text =>
        rw [hfall] at hmatch
        obtain ⟨hs, hn⟩ := second_ends hmatch
        exact ⟨hs.targets hends.targets, hends.followed hmatch hs hn⟩
    · obtain ⟨-, rfl⟩ := ends_pure.mp hmatch
      exact ⟨hends.targets, hends.kept hnotices fun e he => by cases he⟩
  · obtain ⟨q, -, hq⟩ := ends_caught.mp h₁
    cases hq

/-- Where the program cannot be executed, nothing is. -/
theorem oneExec_of_missing (hs : k.Sane runnable) (ht : Targets program k)
    (hr : runnable program = false) : OneExec program k := by
  have hnone : k.executed = [] := by
    apply List.eq_nil_iff_forall_not_mem.mpr
    intro q hq
    obtain ⟨hrun, ops, argv, hm, he⟩ := hs.able q.1 q.2 hq
    rw [ht _ hm _ _ he, hr] at hrun
    cases hrun
  simp [OneExec, hnone]

theorem oneExec_of_single (hs : k.Sane runnable) (hle : k.forks.length ≤ 1)
    (hw : k.notices ≠ [] → ∀ q ∈ k.forks, ¬ Waits q.2) : OneExec program k :=
  ⟨List.countP_le_length.trans (hs.executed_le.trans hle), fun hn q hq h => absurd h (hw hn q hq)⟩

/-- The children as they are when each has done what it can. -/
def settled (k : Children) : Children :=
  (k.forks.flatMap fun q => [q.1, q.1, q.1]).foldl
    (fun k p => (advance (fun _ => true) k p).getD k) k

theorem later_foldl {α : Type} {f : Children → α → Children}
    (hf : ∀ k a, Later runnable k (f k a)) (l : List α) (k : Children) :
    Later runnable k (l.foldl f k) := by
  induction l generalizing k with
  | nil => exact .refl
  | cons a l ih => exact (hf k a).trans (ih (f k a))

theorem later_settled (k : Children) : Later (fun _ => true) k (settled k) := by
  refine later_foldl (fun k p => ?_) _ k
  cases h : advance (fun _ => true) k p with
  | none => exact .refl
  | some k₁ => exact .single ⟨p, h⟩

/-- A machine on which everything succeeds but the insertion of the child into the target map. -/
def reluctant (k : Children) : (c : Call) → Option (c.Answer × Children)
  | .pipe2 => some (.ok (3, 4), k.opens (3, 4))
  | .fork ops =>
    let p := Pid.fromRaw (Int32.ofNat (100 + k.forks.length))
    if ∀ q ∈ k.forks, q.1 ≠ p then some (.ok p, k.forked p ops) else none
  | .targetsInsert tid => some (.error "Cannot allocate memory", k.refuses (.targetsInsert tid))
  | .write fd bytes => some ((), if bytes = [] then k else k.fills fd)
  | .eprintln message => some ((), k.prints message)
  | .waitpid p =>
    let k' := settled k
    if k'.executed.any (·.1 = p) then some (.ok (.stopped p .SIGTRAP), k') else none
  | c => (EbpfTracer.granted c).map fun a => (a, k)

theorem childKernel_reluctant (k : Children) (c : Call) (r : c.Answer) (k' : Children)
    (h : reluctant k c = some (r, k')) : childKernel (fun _ => true) k c r k' := by
  cases c with
  | fork ops =>
    simp only [reluctant] at h
    split_ifs at h with hp
    cases h
    exact ⟨k, .refl, hp, rfl⟩
  | waitpid p =>
    simp only [reluctant] at h
    split_ifs at h with hp
    cases h
    obtain ⟨⟨q, d⟩, hm, hq⟩ := List.any_eq_true.mp hp
    obtain rfl : q = p := by simpa using hq
    exact ⟨_, later_settled k, .inl ⟨rfl, d, hm⟩, rfl⟩
  | _ => cases h <;> exact ⟨k, .refl, rfl⟩

/-- The path of a program that can be executed. -/
def cat : OsBytes := [47, 98, 105, 110, 47, 99, 97, 116]

def reluctantRun : Option (Except CliError Tracer × Children) :=
  (buildTracer true [] .ebpf (.spawn cat []) ⟨false⟩).run.play reluctant .none

/-- Once the build has ended the program is executed at most once, and not by a child of the eBPF
attempt after a fallback, exactly when no step of arming was refused or the program cannot be
executed. -/
theorem fallback_runs_once_iff {feature : Bool} {table : List SyscallInfo} {args : List OsBytes}
    {o : TraceOptions} {r : Except CliError Tracer}
    (h : Ends (childKernel runnable) (buildTracer feature table .ebpf (.spawn program args) o) .none
      r k') :
    (∀ k'', Later runnable k' k'' → OneExec program k'') ↔
      (ArmRefused k' → runnable program = false) := by
  have hsane : k'.Sane runnable :=
    Program.Exec.keeps (fun _ _ _ _ ha hs => hs.childKernel ha) h Children.sane_none
  obtain ⟨htargets, hends⟩ := buildTracer_ends h
  constructor
  · intro hall ha
    cases hends with
    | single hle hn => exact absurd ha hn
    | released p fd c argv _ hn hm hfd hc hb =>
      rw [← hc]
      by_contra hrun
      have hrun' : runnable c.bytes = true := by simpa using hrun
      obtain ⟨k'', hl, he⟩ := (hb hrun').executes hrun' hfd
      obtain ⟨hf, -⟩ := later_frame hl
      exact (hall k'' hl).2 (hf.notices ▸ hn) _ (hf.forks ▸ hm) ⟨fd, _, rfl⟩ c he
  · intro hmissing k'' hl
    obtain ⟨hf, hr⟩ := later_frame hl
    by_cases ha : ArmRefused k'
    · refine oneExec_of_missing (hsane.later hl) ?_ (hmissing ha)
      rw [Targets, hf.forks]
      exact htargets
    · cases hends with
      | single hle hn hw =>
        apply oneExec_of_single (hsane.later hl) (hf.forks ▸ hle)
        intro hne
        rw [hf.forks]
        exact hw (hf.notices ▸ hne)
      | released _ _ _ _ ha' => exact absurd ha' ha

theorem fallback_runs_once_reluctant : ∃ k', k'.forks.length = 2 ∧
    ((∀ k'', Later (fun _ => true) k' k'' → OneExec cat k'') ↔ (ArmRefused k' → true = false)) := by
  have hplay : ∃ r k', reluctantRun = some (r, k') ∧ k'.forks.length = 2 := ⟨_, _, rfl, rfl⟩
  obtain ⟨r, k', hp, hforks⟩ := hplay
  exact ⟨k', hforks, fallback_runs_once_iff (Program.exec_of_play childKernel_reluctant hp)⟩

/-- The child cannot be entered into the target map: it is let go all the same, and the fallback
has the program executed once more. -/
theorem program_executed_twice :
    ¬ ∀ (feature : Bool) (table : List SyscallInfo) (program : OsBytes) (args : List OsBytes)
      (o : TraceOptions) (r : Except CliError Tracer) (k' : Children),
      Ends (childKernel fun _ => true) (buildTracer feature table .ebpf (.spawn program args) o)
        .none r k' → OneExec program k' := by
  intro h
  have hplay : ∃ r k', reluctantRun = some (r, k') ∧
      k'.executed.countP (·.2.bytes = cat) = 2 := ⟨_, _, rfl, by decide⟩
  obtain ⟨r, k', hp, htwo⟩ := hplay
  have hone := h true [] cat [] ⟨false⟩ r k' (Program.exec_of_play childKernel_reluctant hp)
  have hle := hone.1
  omega

end Syren
