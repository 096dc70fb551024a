import Syren.Trace.PtraceSetup
import Syren.Trace.Story

/-! The syscalls that the `ptrace` backend reports of a spawned program, against a kernel that lets
the child live its story stop by stop. -/
namespace Syren
open Interaction Interaction.Method Interaction.Attempt Function

namespace Story

/-- The calls that the child of the `ptrace` backend stops for when it enters them. -/
def stops (s : Story) : List (UInt64 × Vector UInt64 6) :=
  s.launched.map Made.begun ++ match s.death with
    | .outside => []
    | .inside nr args => [(nr, args)]
    | .killed call => [call.begun]

theorem stops_of_launched {s : Story} {n : ℕ} {c : Made} (h : s.launched[n]? = some c) :
    s.stops[n]? = some c.begun := by
  obtain ⟨hn, rfl⟩ := List.getElem?_eq_some_iff.mp h
  rw [stops, List.getElem?_append_left (by simpa using hn)]
  simp [hn]

end Story

namespace PtraceTracer

/-- The number and the arguments of the call that a task has stopped for. -/
def begunOf (regs : Regs) : UInt64 × Vector UInt64 6 := (regs.origRax, argsOf regs)

inductive Place where
  | user
  | entered
  /-- At the syscall-exit-stop, its registers not read yet. -/
  | leaving

structure Traced where
  place : Place
  /-- The number of calls made before the first stop. -/
  first : ℕ
  /-- The number of calls made. -/
  past : ℕ
  regs : Regs
  reaped : Bool

namespace Traced

/-- The first stop is that of a signal sent to the child before one of its executions, or comes
after the execution that succeeds. -/
def StopsFirst (s : Story) (k : Traced) : WaitStatus → Traced → Prop
  | .stopped pid _, k' => pid = s.pid ∧ ∃ n, n ≤ s.attempts.length + 1 ∧
      k' = { k with first := n, past := n }
  | .exited _ _, k' => k' = k
  | .signaled _ _ _, k' => k' = k
  | _, _ => False

/-- The states in which a status of the child can be reported, and the states it leaves. Without
following, execs and new tasks have no event stops. -/
def Reports (s : Story) (k : Traced) : WaitStatus → Traced → Prop
  | .ptraceSyscall pid, k' => pid = s.pid ∧ ∃ regs,
      (k.place = .user ∧ s.stops[k.past]? = some (begunOf regs) ∧
        k' = { k with place := .entered, regs := regs }) ∨
      (k.place = .entered ∧ (∀ c, s.launched[k.past]? = some c → regs.rax.toInt64 = c.ret) ∧
        k' = { k with place := .leaving, regs := regs })
  | .stopped pid _, k' => pid = s.pid ∧ k.place = .user ∧ k' = k
  | .exited pid _, k' => pid = s.pid ∧ k.past = s.launched.length ∧ k' = { k with reaped := true }
  | .signaled pid _ _, k' =>
      pid = s.pid ∧ k.past = s.launched.length ∧ k' = { k with reaped := true }
  | .ptraceEvent _ _ _, _ => False
  | .continued _, k' => k' = k
  | .stillAlive, k' => k' = k

/-- The registers are read. A call is made when they are read at its syscall-exit-stop: a task
killed in that stop has left its call without it. -/
def Reads (s : Story) (k : Traced) (k' : Traced) : Prop :=
  match k.place with
  | .leaving => k.past < s.launched.length ∧ k' = { k with place := .user, past := k.past + 1 }
  | _ => k' = k

/-- Requests fail only for a task that was killed, and it was killed after all its calls. -/
def Answers (s : Story) : Traced → (c : Call) → c.Answer → Traced → Prop
  | k, .fork _, .ok pid, k' => pid = s.pid ∧ k' = k
  | k, .waitpid _, .ok st, k' => k.StopsFirst s st k'
  | k, .waitAny, .ok st, k' => k.Reports s st k'
  | k, .waitAny, .error e, k' => (e = .ECHILD → k.reaped = true) ∧ k' = k
  | k, .getregs _, .ok regs, k' => regs = k.regs ∧ k.Reads s k'
  | k, .getregs _, .error _, k' => k.past = s.launched.length ∧ k' = k
  | k, .syscall _ _, .error _, k' => k.past = s.launched.length ∧ k' = k
  | k, _, _, k' => k' = k

structure Unborn (k : Traced) : Prop where
  place : k.place = .user
  first : k.first = 0
  past : k.past = 0
  reaped : k.reaped = false

end Traced

def storyKernel (s : Story) : Kernel Traced := Traced.Answers s

/-- The invariant, with the syscalls told so far: the calls made since the first stop, and the call
that the child is in while there are calls to be made. -/
structure Follows (s : Story) (t : PtraceTracer) (k : Traced) (told : List Line) : Prop where
  first : k.first ≤ k.past
  past : k.past ≤ s.launched.length
  user : k.place = .user → t.inflight s.pid = none
  entered : k.place = .entered → ∀ c, s.launched[k.past]? = some c →
    ∃ ns, t.inflight s.pid = some ⟨c.nr, c.args, ns⟩
  leaving : k.place = .leaving → k.past = s.launched.length
  live : s.pid ∈ t.live ∨ k.past = s.launched.length
  reaped : k.reaped = true → k.past = s.launched.length
  told : told = span s.pid s.launched k.first k.past

variable {s : Story} {t t' : PtraceTracer} {k k' : Traced} {told : List Line}

theorem TgidOf.story {pid : Pid} {v : UInt32} (h : TgidOf (storyKernel s) t k pid v t' k') :
    k' = k ∧ t'.inflight = t.inflight ∧ t'.live = t.live := by
  refine ⟨?_, h.frame.2.1, h.frame.2.2.1⟩
  cases h with
  | cached => rfl
  | read _ ha => exact ha

theorem Follows.of_eq (h : Follows s t k told) (hi : t'.inflight = t.inflight)
    (hl : t'.live = t.live) : Follows s t' k told :=
  ⟨h.first, h.past, hi ▸ h.user, hi ▸ h.entered, h.leaving, hl ▸ h.live, h.reaped, h.told⟩

/-- The child stops to enter a call, and the tracer notes the call. -/
theorem Follows.enters (h : Follows s t k told) {regs : Regs} (ns : UInt64)
    (hn : s.stops[k.past]? = some (begunOf regs)) :
    Follows s (t.withInflight s.pid (some (enterOf regs ns)))
      { k with place := .entered, regs := regs } told := by
  refine ⟨h.first, h.past, nofun, fun _ c hc => ⟨ns, ?_⟩, nofun, h.live, h.reaped, h.told⟩
  have hbegun := Option.some.inj ((Story.stops_of_launched hc).symm.trans hn)
  obtain ⟨hnr, hargs⟩ := Prod.mk.inj hbegun
  apply (update_self ..).trans
  rw [enterOf, ← hnr, ← hargs]

theorem lt_of_made {n : ℕ} {c : Made} (h : s.launched[n]? = some c) : n < s.launched.length :=
  (List.getElem?_eq_some_iff.mp h).1

/-- Of a child that was killed in a stop of its last call nothing more is told. -/
theorem Follows.strands (h : Follows s t k told) {place : Place} {regs : Regs}
    (hl : t'.live = t.live) (hpast : k.past = s.launched.length) (hplace : place ≠ .user) :
    Follows s t' { k with place := place, regs := regs } told := by
  refine ⟨h.first, h.past, fun he => absurd he hplace, fun _ c hc => ?_, fun _ => hpast,
    hl ▸ h.live, h.reaped, h.told⟩
  exact absurd hpast (lt_of_made hc).ne

/-- The child has left a call, and its event says what the call was. -/
theorem Follows.leaves (h : Follows s t k told) {regs : Regs} {c : Made}
    (hc : s.launched[k.past]? = some c) (hi : t'.inflight = update t.inflight s.pid none)
    (hl : t'.live = t.live) :
    Follows s t' { k with place := .user, past := k.past + 1, regs := regs }
      (told ++ [c.line s.pid]) := by
  have hlt := lt_of_made hc
  refine ⟨Nat.le_succ_of_le h.first, hlt, fun _ => ?_, nofun, nofun, ?_, fun hr => ?_, ?_⟩
  · rw [hi, update_self]
  · rw [hl]
    exact h.live.imp_right fun hpast => absurd hpast hlt.ne
  · exact absurd (h.reaped hr) hlt.ne
  · dsimp only
    rw [h.told, span_succ hc h.first]

/-- The child is reported dead, and the tracer forgets it. -/
theorem Follows.ends (h : Follows s t k told)
    (hpast : k.past = s.launched.length) :
    Follows s (t.without s.pid) { k with reaped := true } told := by
  refine ⟨h.first, h.past, fun _ => update_self .., fun _ c hc => ?_, h.leaving, .inr hpast,
    fun _ => hpast, h.told⟩
  exact absurd hpast (lt_of_made hc).ne

theorem Follows.untold (h : Follows s t k told) :
    Follows s t k (told ++ (none : Option Line).toList) := by
  rw [Option.toList_none, List.append_nil]
  exact h

/-- Whether the child goes on or not, the call whose registers were read is noted. -/
theorem Follows.notes {k₁ : Traced} {pid : Pid} {regs : Regs} (hf : Follows s t k told)
    (hi : t.inflight pid = none) (hr : storyKernel s k₁ (.getregs pid) (.ok regs) k')
    (hk : k.Reports s (.ptraceSyscall pid) k₁) (now : ℕ) : k'.first = k.first ∧
      Follows s (t.withInflight pid (some (enterOf regs (t.clock now)))) k'
        (told ++ (none : Option Line).toList) := by
  obtain ⟨rfl, hreads⟩ := hr
  obtain ⟨rfl, regs, ⟨-, hstop, rfl⟩ | ⟨hin, -, rfl⟩⟩ := hk
  · cases hreads
    exact ⟨rfl, (hf.enters (t.clock now) hstop).untold⟩
  · obtain ⟨hlt, rfl⟩ := hreads
    obtain ⟨ns, hns⟩ := hf.entered hin _ (List.getElem?_eq_getElem hlt)
    cases hi.symm.trans hns

theorem Handled.follows {k₁ : Traced} {st : WaitStatus} {r : Except TraceError (Option Event)}
    (h : Handled (storyKernel s) t k₁ st r t' k') (hk : k.Reports s st k₁)
    (hf : Follows s t k told) : k'.first = k.first ∧
      Follows s t' k' (told ++ (lineReturned (r.map (Option.map some))).toList) := by
  cases h with
  | @enter pid _ now _ _ _ hi hr hn hc =>
    cases hn
    cases hc
    exact hf.notes hi hr hk now
  | @enterStuck pid _ now _ _ _ _ hi hr hn hc =>
    cases hn
    obtain ⟨-, rfl⟩ := hc
    exact hf.notes hi hr hk now
  | enterUnread hi hr =>
    obtain ⟨hpast, rfl⟩ := hr
    obtain ⟨rfl, regs, ⟨-, -, rfl⟩ | ⟨-, -, rfl⟩⟩ := hk
    · exact ⟨rfl, Follows.untold (hf.strands rfl hpast (by simp))⟩
    · exact ⟨rfl, Follows.untold (hf.strands rfl hpast (by simp))⟩
  | @exit pid i _ now v _ _ _ _ hi hr hn ht =>
    obtain ⟨rfl, hreads⟩ := hr
    cases hn
    obtain ⟨rfl, hinf, hlive⟩ := ht.story
    obtain ⟨rfl, regs, ⟨hu, -, rfl⟩ | ⟨hin, hret, rfl⟩⟩ := hk
    · cases (hf.user hu).symm.trans hi
    · obtain ⟨hlt, rfl⟩ := hreads
      have hc := List.getElem?_eq_getElem hlt
      obtain ⟨ns, hns⟩ := hf.entered hin _ hc
      cases hi.symm.trans hns
      have hline : lineReturned ((Except.ok (some (Event.syscall (completedCall v s.pid
          ⟨s.launched[k.past].nr, s.launched[k.past].args, ns⟩ regs (t.clock now))))).map
            (Option.map some)) = some (s.launched[k.past].line s.pid) := by
        simp [lineReturned, lineOf, Made.line, completedCall, Except.map, ← hret _ hc]
      rw [hline]
      exact ⟨rfl, hf.leaves hc hinf hlive⟩
  | exitUnread hi hr =>
    obtain ⟨hpast, rfl⟩ := hr
    obtain ⟨rfl, regs, ⟨hu, -, rfl⟩ | ⟨-, -, rfl⟩⟩ := hk
    · cases (hf.user hu).symm.trans hi
    · exact ⟨rfl, Follows.untold (hf.strands rfl hpast (by simp))⟩
  | exited ht | signaled ht =>
    obtain ⟨rfl, hinf, hlive⟩ := ht.story
    obtain ⟨rfl, hpast, rfl⟩ := hk
    exact ⟨rfl, ((hf.of_eq hinf hlive).ends hpast).untold⟩
  | event | eventStuck => exact hk.elim
  | delivered hg hc ht =>
    cases hc
    obtain ⟨-, -, rfl⟩ := hk
    obtain ⟨rfl, hinf, hlive⟩ := ht.story
    exact ⟨rfl, (hf.of_eq hinf hlive).untold⟩
  | swallowed hg hc =>
    cases hc
    obtain ⟨-, -, rfl⟩ := hk
    exact ⟨rfl, hf.untold⟩
  | stoppedStuck hc =>
    obtain ⟨-, rfl⟩ := hc
    obtain ⟨-, -, rfl⟩ := hk
    exact ⟨rfl, hf.untold⟩
  | continued | stillAlive =>
    cases hk
    exact ⟨rfl, hf.untold⟩

theorem Resumed.story {k₁ : Traced} (h : Resumed (storyKernel s) t k k₁) : k₁ = k := by
  cases h with
  | idle => rfl
  | pending _ hc => exact hc

/-- One pass keeps the invariant, with the syscall that it returns. -/
theorem Pass.follows {o : Outcome} (h : Pass (storyKernel s) t k o t' k')
    (hf : Follows s t k told) :
    k'.first = k.first ∧ Follows s t' k' (told ++ (lineReturned o).toList) := by
  have hready : Follows s t.ready k told := hf.of_eq rfl rfl
  cases h with
  | resumeStuck _ hc =>
    obtain ⟨-, rfl⟩ := hc
    exact ⟨rfl, hready.untold⟩
  | empty hr =>
    cases hr.story
    exact ⟨rfl, hready.untold⟩
  | noChild hr _ hw | waitStuck hr _ hw =>
    cases hr.story
    obtain ⟨-, rfl⟩ := hw
    exact ⟨rfl, hready.untold⟩
  | handled hr _ hw hh =>
    cases hr.story
    exact hh.follows hw hready

/-- `None` is returned only after the last call. -/
theorem Pass.ends (h : Pass (storyKernel s) t k (.ok (some none)) t' k')
    (hf : Follows s t k told) : k'.past = s.launched.length := by
  generalize ho : (Except.ok (some none) : Outcome) = o at h
  cases h with
  | resumeStuck | waitStuck => cases ho
  | empty hr hl =>
    cases hr.story
    rcases hf.live with hmem | hpast
    · rw [hl] at hmem
      exact absurd hmem (Finset.notMem_empty _)
    · exact hpast
  | noChild hr _ hw =>
    cases hr.story
    obtain ⟨hreaped, rfl⟩ := hw
    exact hf.reaped (hreaped rfl)
  | @handled _ r _ _ _ _ hr _ hw hh =>
    obtain _ | _ | ev := r <;> cases ho

theorem ends_orOs_ok {α : Type} {a : Except Errno α} {b : α}
    (h : Ends (storyKernel s) (Setup.orOs a) k (.ok b) k') : a = .ok b ∧ k' = k := by
  obtain e | a := a
  · obtain ⟨he, -⟩ := ends_throw.mp h
    cases he
  · obtain ⟨he, rfl⟩ := ends_pure.mp h
    exact ⟨congrArg Except.ok (Except.ok.inj he).symm, rfl⟩

/-- What `spawn` does with its child once the child has stopped. -/
theorem adopt_story {start : ℕ} {follow : Bool}
    (h : Ends (storyKernel s) (construct (untracing start follow none) (adopt s.pid)) k (.ok t)
      k') : k' = k ∧ s.pid ∈ t.live := by
  obtain ⟨q, t₁, hr, he⟩ := ends_construct.mp h
  obtain _ | u := q
  · cases he
  · cases he
    rcases runs_configure_bind.mp hr with ⟨k₁, hset, hr⟩ | ⟨e, he, -⟩
    · cases hset
      obtain ⟨a, ha, hok, rfl⟩ := runs_resume.mp (runs_modify_bind.mp hr)
      obtain e | _ := a
      · cases hok
      · exact ⟨ha, Finset.mem_insert_self _ _⟩
    · cases he

/-- A tracer built for the story follows the child from its first stop on. -/
theorem new_follows (hu : k.Unborn)
    (h : Ends (storyKernel s) (new (.spawn s.program s.args) ⟨false⟩) k (.ok t) k') :
    Follows s t k' [] ∧ k'.first ≤ s.attempts.length + 1 := by
  have hnone := (spawn_fresh h).1.inflight s.pid
  change Ends (storyKernel s) (spawn s.program s.args ⟨false⟩) k (.ok t) k' at h
  unfold spawn at h
  obtain ⟨progC, _, ⟨-, rfl⟩, h₁⟩ := ends_ok_bind h
  obtain ⟨argv, _, ⟨-, rfl⟩, h₂⟩ := ends_ok_bind h₁
  obtain ⟨forked, k₁, hfork, h₃⟩ := ends_ask_bind.mp h₂
  obtain ⟨child, k₂, hchild, h₄⟩ := ends_ok_bind h₃
  obtain ⟨rfl, rfl⟩ := ends_orOs_ok hchild
  obtain ⟨rfl, rfl⟩ := hfork
  obtain ⟨t₀, k₃, hempty, h₅⟩ := ends_ok_bind h₄
  obtain ⟨start, hnow, he⟩ := ends_empty.mp hempty
  cases hnow
  cases he
  obtain ⟨waited, k₄, hwait, h₆⟩ := ends_ask_bind.mp h₅
  obtain ⟨st, k₅, hstatus, h₇⟩ := ends_ok_bind h₆
  obtain ⟨rfl, rfl⟩ := ends_orOs_ok hstatus
  cases st with
  | exited | signaled =>
    obtain ⟨he, -⟩ := ends_throw.mp h₇
    cases he
  | ptraceEvent | ptraceSyscall | continued | stillAlive => exact hwait.elim
  | stopped pid sig =>
    obtain ⟨-, n, hn, rfl⟩ := hwait
    obtain ⟨rfl, hlive⟩ := adopt_story h₇
    refine ⟨⟨le_rfl, hn.trans s.attempts_lt_launched, fun _ => hnone, fun he => ?_, fun he => ?_,
      .inl hlive, fun hr => ?_, ?_⟩, hn⟩
    · cases hu.place.symm.trans he
    · cases hu.place.symm.trans he
    · cases hu.reaped.symm.trans hr
    · exact (span_empty le_rfl).symm

/-- A tracer of the `ptrace` backend on the story, from its construction to the end of its
events. -/
structure Telling (s : Story) where
  before : Traced
  tracer : PtraceTracer
  after : Traced
  steps : List (Outcome × (PtraceTracer × Traced))
  last : PtraceTracer × Traced
  starts : before.Unborn
  constructs : Ends (storyKernel s) (new (.spawn s.program s.args) ⟨false⟩) before (.ok tracer)
    after
  passes : IsRun (passStep (storyKernel s)) (tracer, after) (steps ++ [(.ok (some none), last)])

theorem follows_run {t : PtraceTracer} {k : Traced} {l : List (Outcome × (PtraceTracer × Traced))}
    (hf : Follows s t k []) (h : IsRun (passStep (storyKernel s)) (t, k) l) :
    (lastState (t, k) l).2.first = k.first ∧
      Follows s (lastState (t, k) l).1 (lastState (t, k) l).2 (lines l) := by
  refine h.induction (motive := fun l => (lastState (t, k) l).2.first = k.first ∧
    Follows s (lastState (t, k) l).1 (lastState (t, k) l).2 (lines l)) ⟨rfl, hf⟩ ?_
  rintro l x - ⟨hfirst, hl⟩ hstep
  rw [lastState_concat, lines_concat]
  obtain ⟨hsame, hx⟩ := (passStep_iff.mp hstep).follows hl
  exact ⟨hsame.trans hfirst, hx⟩

/-- The syscalls reported are the calls that the child makes after its first stop, in order and
with their results. -/
theorem Telling.lines_eq (e : Telling s) :
    lines e.steps = (s.launched.drop e.after.first).map (Made.line s.pid) ∧
      e.after.first ≤ s.attempts.length + 1 := by
  obtain ⟨hstart, hn⟩ := new_follows e.starts e.constructs
  obtain ⟨hpasses, hlast⟩ := isRun_concat.mp e.passes
  obtain ⟨hfirst, hf⟩ := follows_run hstart hpasses
  have hpass := passStep_iff.mp hlast
  obtain ⟨hsame, hend⟩ := hpass.follows hf
  refine ⟨?_, hn⟩
  have htold : lines e.steps ++ [] = _ := hend.told
  rw [← List.append_nil (lines e.steps), htold, hpass.ends hf, span_length, hsame, hfirst]

end PtraceTracer
end Syren
