import Syren.Trace.PtraceRun

/-! Setting up the `ptrace` backend: the cases of the attach loop, and what is known of every
tracer that the constructor hands out. -/
namespace Syren.PtraceTracer
open Interaction Interaction.Method Interaction.Attempt Function

variable {σ : Type} {env : Kernel σ} {t t' : PtraceTracer} {s s' : σ}

theorem runs_resume {pid : Pid} {sig : Option Signal} {r : Except TraceError Unit} :
    Runs env (resume pid sig) t s r t' s' ↔
      ∃ a : Except Errno Unit, env s (.syscall pid sig) a s' ∧ r = a.mapError .os ∧ t' = t := by
  unfold resume
  rw [runs_ask_bind]
  constructor
  · rintro ⟨_ | _, s₁, ha, hr⟩
    · obtain ⟨rfl, rfl, rfl⟩ := runs_throw.mp hr
      exact ⟨_, ha, rfl, rfl⟩
    · obtain ⟨rfl, rfl, rfl⟩ := runs_pure.mp hr
      exact ⟨_, ha, rfl, rfl⟩
  · rintro ⟨_ | _, ha, rfl, rfl⟩
    · exact ⟨.error _, s', ha, runs_throw.mpr ⟨rfl, rfl, rfl⟩⟩
    · exact ⟨.ok (), s', ha, runs_pure.mpr ⟨rfl, rfl, rfl⟩⟩

theorem runs_configure_bind {α : Type} {pid : Pid} {f : Unit → Tracing α}
    {r : Except TraceError α} :
    Runs env (configure pid >>= f) t s r t' s' ↔
      (∃ s₁, env s (.setoptions pid (options t.follow)) (.ok ()) s₁ ∧
        Runs env (f ()) t s₁ r t' s') ∨
      ∃ e, r = .error (.os e) ∧ t' = t ∧
        env s (.setoptions pid (options t.follow)) (.error e) s' :=
  runs_bind_bind.trans (runs_get_bind.trans (runs_bind_bind.trans runs_answered_unit))

/-- The attach loop: each process is attached, waited for, configured and resumed in turn, and
the first call that fails ends the loop. -/
inductive Attached (env : Kernel σ) :
    List Int32 → PtraceTracer → σ → Except TraceError Unit → PtraceTracer → σ → Prop where
  | done {t : PtraceTracer} {s : σ} : Attached env [] t s (.ok ()) t s
  | refused {raw : Int32} {pids : List Int32} {t : PtraceTracer} {s s' : σ} {e : Errno}
      (ha : env s (.attach (.fromRaw raw)) (.error e) s') :
      Attached env (raw :: pids) t s (.error (.os e)) t s'
  | unwaited {raw : Int32} {pids : List Int32} {t : PtraceTracer} {s s₁ s' : σ} {e : Errno}
      (ha : env s (.attach (.fromRaw raw)) (.ok ()) s₁)
      (hw : env s₁ (.waitpid (.fromRaw raw)) (.error e) s') :
      Attached env (raw :: pids) t s (.error (.os e)) t s'
  | unset {raw : Int32} {pids : List Int32} {t : PtraceTracer} {s s₁ s₂ s' : σ} {e : Errno}
      {st : WaitStatus} (ha : env s (.attach (.fromRaw raw)) (.ok ()) s₁)
      (hw : env s₁ (.waitpid (.fromRaw raw)) (.ok st) s₂)
      (ho : env s₂ (.setoptions (.fromRaw raw) (options t.follow)) (.error e) s') :
      Attached env (raw :: pids) t s (.error (.os e)) t s'
  | stuck {raw : Int32} {pids : List Int32} {t : PtraceTracer} {s s₁ s₂ s₃ s' : σ} {e : Errno}
      {st : WaitStatus} (ha : env s (.attach (.fromRaw raw)) (.ok ()) s₁)
      (hw : env s₁ (.waitpid (.fromRaw raw)) (.ok st) s₂)
      (ho : env s₂ (.setoptions (.fromRaw raw) (options t.follow)) (.ok ()) s₃)
      (hc : env s₃ (.syscall (.fromRaw raw) none) (.error e) s') :
      Attached env (raw :: pids) t s (.error (.os e)) (t.withLive (.fromRaw raw)) s'
  | next {raw : Int32} {pids : List Int32} {t t' : PtraceTracer} {s s₁ s₂ s₃ s₄ s' : σ}
      {st : WaitStatus} {r : Except TraceError Unit}
      (ha : env s (.attach (.fromRaw raw)) (.ok ()) s₁)
      (hw : env s₁ (.waitpid (.fromRaw raw)) (.ok st) s₂)
      (ho : env s₂ (.setoptions (.fromRaw raw) (options t.follow)) (.ok ()) s₃)
      (hc : env s₃ (.syscall (.fromRaw raw) none) (.ok ()) s₄)
      (hr : Attached env pids (t.withLive (.fromRaw raw)) s₄ r t' s') :
      Attached env (raw :: pids) t s r t' s'

theorem runs_attachEach {pids : List Int32} {r : Except TraceError Unit} :
    Runs env (attachEach pids) t s r t' s' ↔ Attached env pids t s r t' s' := by
  induction pids generalizing t s with
  | nil =>
    constructor
    · intro h
      obtain ⟨rfl, rfl, rfl⟩ := runs_pure.mp h
      exact .done
    · rintro ⟨⟩
      exact runs_pure.mpr ⟨rfl, rfl, rfl⟩
  | cons raw pids ih =>
    have unfolded : Runs env (attachEach (raw :: pids)) t s r t' s' ↔
        (∃ s₁, env s (.attach (.fromRaw raw)) (.ok ()) s₁ ∧
          ((∃ st s₂, env s₁ (.waitpid (.fromRaw raw)) (.ok st) s₂ ∧
            ((∃ s₃, env s₂ (.setoptions (.fromRaw raw) (options t.follow)) (.ok ()) s₃ ∧
              ((∃ s₄, env s₃ (.syscall (.fromRaw raw) none) (.ok ()) s₄ ∧
                Runs env (attachEach pids) (t.withLive (.fromRaw raw)) s₄ r t' s') ∨
              ∃ e, r = .error (.os e) ∧ t' = t.withLive (.fromRaw raw) ∧
                env s₃ (.syscall (.fromRaw raw) none) (.error e) s')) ∨
            ∃ e, r = .error (.os e) ∧ t' = t ∧
              env s₂ (.setoptions (.fromRaw raw) (options t.follow)) (.error e) s')) ∨
          ∃ e, r = .error (.os e) ∧ t' = t ∧
            env s₁ (.waitpid (.fromRaw raw)) (.error e) s')) ∨
        ∃ e, r = .error (.os e) ∧ t' = t ∧ env s (.attach (.fromRaw raw)) (.error e) s' := by
      rw [attachEach]
      refine runs_answered_unit.trans (or_congr (exists_congr fun s₁ => and_congr_right fun _ =>
        runs_answered.trans (or_congr (exists_congr fun st => exists_congr fun s₂ =>
          and_congr_right fun _ => runs_configure_bind.trans (or_congr (exists_congr fun s₃ =>
            and_congr_right fun _ => ?_) Iff.rfl)) Iff.rfl)) Iff.rfl)
      exact runs_modify_bind.trans runs_resume_bind
    rw [unfolded]
    constructor
    · rintro (⟨s₁, ha, ⟨st, s₂, hw, ⟨s₃, ho, ⟨s₄, hc, hr⟩ | ⟨e, rfl, rfl, hc⟩⟩ |
        ⟨e, rfl, rfl, ho⟩⟩ | ⟨e, rfl, rfl, hw⟩⟩ | ⟨e, rfl, rfl, ha⟩)
      · exact .next ha hw ho hc (ih.mp hr)
      · exact .stuck ha hw ho hc
      · exact .unset ha hw ho
      · exact .unwaited ha hw
      · exact .refused ha
    · intro h
      cases h with
      | refused ha => exact .inr ⟨_, rfl, rfl, ha⟩
      | unwaited ha hw => exact .inl ⟨_, ha, .inr ⟨_, rfl, rfl, hw⟩⟩
      | unset ha hw ho => exact .inl ⟨_, ha, .inl ⟨_, _, hw, .inr ⟨_, rfl, rfl, ho⟩⟩⟩
      | stuck ha hw ho hc =>
        exact .inl ⟨_, ha, .inl ⟨_, _, hw, .inl ⟨_, ho, .inr ⟨_, rfl, rfl, hc⟩⟩⟩⟩
      | next ha hw ho hc hr =>
        exact .inl ⟨_, ha, .inl ⟨_, _, hw, .inl ⟨_, ho, .inl ⟨_, hc, ih.mpr hr⟩⟩⟩⟩

/-- A tracer without tracees. -/
def untracing (start : ℕ) (follow : Bool) (leader : Option UInt32) : PtraceTracer where
  start := start
  follow := follow
  live := ∅
  inflight := fun _ => none
  tgid := fun _ => none
  pendingResume := none
  leader := leader

theorem ends_empty {o : TraceOptions} {r : Except TraceError PtraceTracer} :
    Ends env (empty o) s r s' ↔
      ∃ start : ℕ, env s .now start s' ∧ r = .ok (untracing start o.followForks none) := by
  unfold empty
  rw [ends_ask_bind]
  constructor
  · rintro ⟨start, s₁, ha, he⟩
    obtain ⟨rfl, rfl⟩ := ends_pure.mp he
    exact ⟨start, ha, rfl⟩
  · rintro ⟨start, ha, rfl⟩
    exact ⟨start, s', ha, ends_pure.mpr ⟨rfl, rfl⟩⟩

theorem ends_attach {raw : Int32} {pids : List Int32} {o : TraceOptions}
    {r : Except TraceError PtraceTracer} :
    Ends env (attach (raw :: pids) o) s r s' ↔ ∃ (start : ℕ) (s₁ : σ) (q : Except TraceError Unit)
      (t' : PtraceTracer), env s .now start s₁ ∧ r = (q.map fun _ => t') ∧
        Attached env (raw :: pids) (untracing start o.followForks (some raw.toUInt32)) s₁ q t'
          s' := by
  unfold attach
  rw [if_neg (by simp), ends_bind]
  constructor
  · rintro (⟨t₀, s₁, h₀, h⟩ | ⟨e, -, h₀⟩)
    · obtain ⟨start, ha, he⟩ := ends_empty.mp h₀
      cases he
      obtain ⟨q, t', hr, rfl⟩ := ends_construct.mp h
      exact ⟨start, s₁, q, t', ha, rfl, runs_attachEach.mp hr⟩
    · obtain ⟨start, -, he⟩ := ends_empty.mp h₀
      cases he
  · rintro ⟨start, s₁, q, t', ha, rfl, hr⟩
    refine .inl ⟨_, s₁, ends_empty.mpr ⟨start, ha, rfl⟩, ?_⟩
    exact ends_construct.mpr ⟨q, t', runs_attachEach.mpr hr, rfl⟩

/-- A kernel of which nothing is known. -/
def anyKernel : Kernel Unit := fun _ _ _ _ => True

/-- The tracers that the constructor can hand out. -/
def Built (t : PtraceTracer) : Prop :=
  ∃ target options, Ends anyKernel (new target options) () (.ok t) ()

/-- The tracer that attaching to the one process `raw` hands out when nothing fails. -/
def attachedTo (raw : Int32) (follow : Bool) : PtraceTracer :=
  (untracing 0 follow (some raw.toUInt32)).withLive (.fromRaw raw)

theorem built_attachedTo (raw : Int32) (follow : Bool) : Built (attachedTo raw follow) := by
  refine ⟨.attach [raw], ⟨follow⟩, ends_attach.mpr ⟨0, (), .ok (), _, trivial, rfl, ?_⟩⟩
  exact @Attached.next _ _ raw [] _ _ () () () () () () (.stopped (.fromRaw raw) .SIGSTOP) _
    trivial trivial trivial trivial .done

/-- What is known of a tracer before its first call of `next_event`. -/
structure Fresh (t : PtraceTracer) : Prop where
  inflight : ∀ pid, t.inflight pid = none
  pending : t.pendingResume = none
  live : t.live.Nonempty
  tgid : ∀ pid v, t.tgid pid = some v → v = pid.toU32

/-- What the attach loop leaves alone, and what it adds to the live set. -/
theorem Attached.frame {pids : List Int32} {r : Except TraceError Unit}
    (h : Attached env pids t s r t' s') :
    t'.inflight = t.inflight ∧ t'.pendingResume = t.pendingResume ∧ t'.tgid = t.tgid ∧
      t'.follow = t.follow ∧ t.live ⊆ t'.live ∧
      (r = .ok () → ∀ raw ∈ pids, Pid.fromRaw raw ∈ t'.live) := by
  induction h with
  | done => exact ⟨rfl, rfl, rfl, rfl, subset_rfl, fun _ _ hm => by simp at hm⟩
  | refused | unwaited | unset => exact ⟨rfl, rfl, rfl, rfl, subset_rfl, fun he => by cases he⟩
  | stuck => exact ⟨rfl, rfl, rfl, rfl, Finset.subset_insert _ _, fun he => by cases he⟩
  | next _ _ _ _ _ ih =>
    obtain ⟨hi, hp, ht, hf, hl, hm⟩ := ih
    refine ⟨hi, hp, ht, hf, (Finset.subset_insert _ _).trans hl, fun he raw hraw => ?_⟩
    rcases List.mem_cons.mp hraw with rfl | hraw
    · exact hl (Finset.mem_insert_self _ _)
    · exact hm he raw hraw

theorem attach_fresh {pids : List Int32} {o : TraceOptions}
    (h : Ends env (attach pids o) s (.ok t) s') : Fresh t ∧ t.follow = o.followForks := by
  cases pids with
  | nil =>
    obtain ⟨he, -⟩ := ends_throw.mp h
    cases he
  | cons raw pids =>
    obtain ⟨start, s₁, q, t₁, -, he, ha⟩ := ends_attach.mp h
    obtain _ | u := q
    · cases he
    · cases he
      obtain ⟨hi, hp, ht, hf, -, hm⟩ := ha.frame
      have hlive : t₁.live.Nonempty := ⟨_, hm rfl raw (List.mem_cons_self ..)⟩
      refine ⟨⟨fun pid => by rw [hi]; rfl, hp, hlive, fun pid v hv => ?_⟩, hf⟩
      rw [ht] at hv
      cases hv

theorem adopt_fresh {child : Pid} {start : ℕ} {follow : Bool}
    (h : Ends env (Attempt.construct (untracing start follow none) (adopt child)) s (.ok t) s') :
    Fresh t ∧ t.follow = follow := by
  obtain ⟨q, t₁, hr, he⟩ := ends_construct.mp h
  obtain _ | u := q
  · cases he
  · cases he
    rcases runs_configure_bind.mp hr with ⟨s₁, -, hr⟩ | ⟨e, he, -⟩
    · obtain ⟨a, -, -, rfl⟩ := runs_resume.mp (runs_modify_bind.mp hr)
      refine ⟨⟨fun _ => rfl, rfl, ⟨child, Finset.mem_insert_self _ _⟩, fun pid v hv => ?_⟩, rfl⟩
      by_cases hpid : pid = child
      · subst hpid
        exact (Option.some.inj ((update_self pid _ _).symm.trans hv)).symm
      · have hnone : (none : Option UInt32) = some v := (update_of_ne hpid _ _).symm.trans hv
        cases hnone
    · cases he

theorem spawn_fresh {program : OsBytes} {args : List OsBytes} {o : TraceOptions}
    (h : Ends env (spawn program args o) s (.ok t) s') : Fresh t ∧ t.follow = o.followForks := by
  unfold spawn at h
  obtain ⟨progC, s₁, -, h⟩ := ends_ok_bind h
  obtain ⟨argv, s₂, -, h⟩ := ends_ok_bind h
  obtain ⟨forked, s₃, -, h⟩ := ends_ask_bind.mp h
  obtain ⟨child, s₄, -, h⟩ := ends_ok_bind h
  obtain ⟨t₀, s₅, h₀, h⟩ := ends_ok_bind h
  obtain ⟨start, -, he⟩ := ends_empty.mp h₀
  cases he
  obtain ⟨waited, s₆, -, h⟩ := ends_ask_bind.mp h
  obtain ⟨st, s₇, -, h⟩ := ends_ok_bind h
  cases st with
  | exited | signaled =>
    obtain ⟨he, -⟩ := ends_throw.mp h
    cases he
  | stopped | ptraceEvent | ptraceSyscall | continued | stillAlive => exact adopt_fresh h

theorem Built.fresh (h : Built t) : Fresh t := by
  obtain ⟨target, o, h⟩ := h
  cases target with
  | spawn program args => exact (spawn_fresh h).1
  | attach pids => exact (attach_fresh h).1

end Syren.PtraceTracer
