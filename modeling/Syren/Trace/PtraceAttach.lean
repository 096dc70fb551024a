import Syren.Trace.PtraceSetup

/-! What a failed attach leaves behind, against a kernel that keeps the tracees of the tracer and
kills those with `PTRACE_O_EXITKILL` when the tracer exits. -/
namespace Syren.PtraceTracer
open Interaction Interaction.Method Interaction.Attempt Function

structure Tracees where
  held : Finset Pid
  /-- The tracees with `PTRACE_O_EXITKILL`. -/
  armed : Finset Pid
  /-- The processes whose `PTRACE_ATTACH` was granted. -/
  granted : Finset Pid
  /-- The processes that `waitpid` has reported dead. -/
  reaped : Finset Pid

namespace Tracees

def none : Tracees := ⟨∅, ∅, ∅, ∅⟩

def holds (k : Tracees) (pid : Pid) : Tracees :=
  { k with held := insert pid k.held, granted := insert pid k.granted }

def arms (k : Tracees) (pid : Pid) : Tracees := { k with armed := insert pid k.armed }

def releases (k : Tracees) (pid : Pid) : Tracees :=
  { k with held := k.held.erase pid, armed := k.armed.erase pid }

def buries (k : Tracees) (pid : Pid) : Tracees :=
  { k.releases pid with reaped := insert pid k.reaped }

/-- The processes that receive `SIGKILL` when the tracer exits. -/
def killedAtExit (k : Tracees) : Finset Pid := k.held ∩ k.armed

end Tracees

/-- A process can be attached once, and only a tracee can be configured, resumed or detached. -/
def traceeKernel : Kernel Tracees
  | k, .attach pid, .ok (), k' => pid ∉ k.held ∧ k' = k.holds pid
  | k, .waitpid pid, .ok st, k' =>
      (st.stop = some pid ∧ k' = k) ∨ (st.death = some pid ∧ k' = k.buries pid)
  | k, .setoptions pid o, .ok (), k' => pid ∈ k.held ∧ k' = if o.exitkill then k.arms pid else k
  | k, .syscall pid _, .ok (), k' => pid ∈ k.held ∧ k' = k
  | k, .detach pid, .ok (), k' => pid ∈ k.held ∧ k' = k.releases pid
  | k, _, _, k' => k' = k

/-- Every listed process has been left: it is no tracee and the exit of the tracer spares it. -/
def LeftAlone (pids : List Int32) (k : Tracees) : Prop :=
  ∀ raw ∈ pids, Pid.fromRaw raw ∉ k.held ∧ Pid.fromRaw raw ∉ k.killedAtExit

/-- The first listed process, if there is one, was not attached or was then reported dead. -/
def FirstSpared (pids : List Int32) (k : Tracees) : Prop :=
  ∀ raw ∈ pids.head?, Pid.fromRaw raw ∈ k.granted → Pid.fromRaw raw ∈ k.reaped

variable {t t' : PtraceTracer} {k k' : Tracees}

/-- The process was attached and has been neither detached nor reported dead. -/
def Kept (pid : Pid) (k : Tracees) : Prop := pid ∈ k.held ∧ pid ∈ k.granted ∧ pid ∉ k.reaped

/-- Waiting for a process or detaching it are the only calls after which it is no tracee. -/
theorem traceeKernel_kept {c : Call} {r : c.Answer} {pid : Pid} (h : traceeKernel k c r k')
    (hw : c ≠ .waitpid pid) (hd : c ≠ .detach pid) (hp : Kept pid k) : Kept pid k' := by
  obtain ⟨hheld, hgranted, hreaped⟩ := hp
  unfold traceeKernel at h
  split at h
  · obtain ⟨-, rfl⟩ := h
    exact ⟨Finset.mem_insert_of_mem hheld, Finset.mem_insert_of_mem hgranted, hreaped⟩
  · next q st =>
    have hne : pid ≠ q := by
      rintro rfl
      exact hw rfl
    rcases h with ⟨-, rfl⟩ | ⟨-, rfl⟩
    · exact ⟨hheld, hgranted, hreaped⟩
    · refine ⟨Finset.mem_erase.mpr ⟨hne, hheld⟩, hgranted, ?_⟩
      simp [Tracees.buries, Tracees.releases, hne, hreaped]
  · obtain ⟨-, rfl⟩ := h
    split_ifs <;> exact ⟨hheld, hgranted, hreaped⟩
  · exact h.2 ▸ ⟨hheld, hgranted, hreaped⟩
  · next q =>
    have hne : pid ≠ q := by
      rintro rfl
      exact hd rfl
    obtain ⟨-, rfl⟩ := h
    exact ⟨Finset.mem_erase.mpr ⟨hne, hheld⟩, hgranted, hreaped⟩
  · exact h ▸ ⟨hheld, hgranted, hreaped⟩

/-- The loop never lets a tracee go. -/
theorem Attached.kept {pids : List Int32} {r : Except TraceError Unit} {pid : Pid}
    (h : Attached traceeKernel pids t k r t' k') (hp : Kept pid k) : Kept pid k' := by
  have waits {raw : Int32} {k k₁ k₂ : Tracees} {a : Except Errno WaitStatus}
      (ha : traceeKernel k (.attach (.fromRaw raw)) (.ok ()) k₁)
      (hw : traceeKernel k₁ (.waitpid (.fromRaw raw)) a k₂) (hp : Kept pid k) : Kept pid k₂ := by
    have hne : Call.waitpid (.fromRaw raw) ≠ .waitpid pid := by
      intro he
      exact ha.1 (Call.waitpid.inj he ▸ hp.1)
    exact traceeKernel_kept hw hne (by simp) (traceeKernel_kept ha (by simp) (by simp) hp)
  induction h with
  | done => exact hp
  | refused ha => exact traceeKernel_kept ha (by simp) (by simp) hp
  | unwaited ha hw => exact waits ha hw hp
  | unset ha hw ho => exact traceeKernel_kept ho (by simp) (by simp) (waits ha hw hp)
  | stuck ha hw ho hc =>
    have hp₁ := traceeKernel_kept ho (by simp) (by simp) (waits ha hw hp)
    exact traceeKernel_kept hc (by simp) (by simp) hp₁
  | next ha hw ho hc hrest ih =>
    have hp₁ := traceeKernel_kept ho (by simp) (by simp) (waits ha hw hp)
    exact ih (traceeKernel_kept hc (by simp) (by simp) hp₁)

/-- Attaching one process and waiting for it leaves it a tracee, or reports it dead and leaves
none. -/
theorem attached_first {pid : Pid} {st : WaitStatus} {k₁ k₂ : Tracees}
    (ha : traceeKernel .none (.attach pid) (.ok ()) k₁)
    (hw : traceeKernel k₁ (.waitpid pid) (.ok st) k₂) :
    Kept pid k₂ ∨ (k₂.held = ∅ ∧ pid ∈ k₂.reaped) := by
  obtain ⟨-, rfl⟩ := ha
  rcases hw with ⟨-, rfl⟩ | ⟨-, rfl⟩
  · left
    simp [Kept, Tracees.holds, Tracees.none]
  · right
    simp [Tracees.buries, Tracees.releases, Tracees.holds, Tracees.none]

/-- After a failed loop the first process is a tracee, or else none is and the first was not
attached or was reported dead. -/
theorem Attached.first {raw : Int32} {pids : List Int32} {e : TraceError}
    (h : Attached traceeKernel (raw :: pids) t .none (.error e) t' k') :
    Kept (.fromRaw raw) k' ∨
      (k'.held = ∅ ∧ (Pid.fromRaw raw ∈ k'.granted → Pid.fromRaw raw ∈ k'.reaped)) := by
  cases h with
  | refused ha =>
    cases ha
    exact .inr ⟨rfl, fun hg => by simp [Tracees.none] at hg⟩
  | unwaited ha hw =>
    obtain ⟨-, rfl⟩ := ha
    cases hw
    left
    simp [Kept, Tracees.holds, Tracees.none]
  | unset ha hw ho =>
    cases ho
    rcases attached_first ha hw with hk | ⟨hheld, hreaped⟩
    · exact .inl hk
    · exact .inr ⟨hheld, fun _ => hreaped⟩
  | stuck ha hw ho hc =>
    rcases attached_first ha hw with hk | ⟨hheld, -⟩
    · have hk₁ := traceeKernel_kept ho (by simp) (by simp) hk
      exact .inl (traceeKernel_kept hc (by simp) (by simp) hk₁)
    · exact absurd ho.1 (by simp [hheld])
  | next ha hw ho hc hrest =>
    rcases attached_first ha hw with hk | ⟨hheld, -⟩
    · have hk₁ := traceeKernel_kept ho (by simp) (by simp) hk
      exact .inl (hrest.kept (traceeKernel_kept hc (by simp) (by simp) hk₁))
    · exact absurd ho.1 (by simp [hheld])

/-- A failed attach leaves every listed process alone exactly when the first was not attached or
was then reported dead. -/
theorem attach_left_alone_iff {pids : List Int32} {o : TraceOptions} {e : TraceError}
    (h : Ends traceeKernel (attach pids o) .none (.error e) k') :
    LeftAlone pids k' ↔ FirstSpared pids k' := by
  cases pids with
  | nil => simp [LeftAlone, FirstSpared]
  | cons raw pids =>
    obtain ⟨start, k₁, q, t', hn, he, ha⟩ := ends_attach.mp h
    cases hn
    obtain e' | u := q
    · rcases ha.first with ⟨hheld, hgranted, hreaped⟩ | ⟨hheld, hspared⟩
      · apply iff_of_false (fun hl => (hl raw (by simp)).1 hheld)
        intro hs
        exact hreaped (hs raw rfl hgranted)
      · refine iff_of_true (fun raw _ => ?_) fun raw' he hg => ?_
        · simp [Tracees.killedAtExit, hheld]
        · cases he
          exact hspared hg
    · cases he

/-- The process 100 is a tracee that is killed when the tracer exits. -/
def firstHeld : Tracees := (Tracees.none.holds ⟨100⟩).arms ⟨100⟩

/-- The first of two processes is attached, the second cannot be. -/
theorem attach_fails_second : Ends traceeKernel (attach [100, 200] ⟨true⟩) .none
    (.error (.os .ESRCH)) firstHeld := by
  refine ends_attach.mpr ⟨0, .none, .error _, attachedTo 100 true, rfl, rfl, ?_⟩
  exact @Attached.next _ _ 100 [200] _ _ _ (Tracees.none.holds ⟨100⟩) (Tracees.none.holds ⟨100⟩)
    _ _ _ (.stopped ⟨100⟩ .SIGSTOP) _ ⟨by decide, rfl⟩ (.inl ⟨rfl, rfl⟩) ⟨by decide, rfl⟩
    ⟨by decide, rfl⟩ (.refused rfl)

theorem attach_left_alone_second :
    LeftAlone [100, 200] firstHeld ↔ FirstSpared [100, 200] firstHeld :=
  attach_left_alone_iff attach_fails_second

/-- The first of the two is left to be killed. -/
theorem attach_kills_first :
    ¬ ∀ (pids : List Int32) (o : TraceOptions) (e : TraceError) (k' : Tracees),
      Ends traceeKernel (attach pids o) .none (.error e) k' → LeftAlone pids k' := by
  intro h
  have hl := h _ _ _ _ attach_fails_second 100 (by simp)
  exact absurd hl (by decide)

end Syren.PtraceTracer
