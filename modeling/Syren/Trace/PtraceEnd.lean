import Mathlib.Logic.Relation
import Mathlib.Data.Finset.Option
import Syren.Trace.PtraceSetup

/-! The end of a trace by the `ptrace` backend, against a kernel that creates and kills tasks at any
moment. -/
namespace Syren.PtraceTracer
open Interaction Interaction.Method Function Relation

structure Family where
  /-- The traced tasks by their pids, the newest first. A pid that was used again is the newest
  task's. -/
  tasks : List Pid
  died : Finset Pid
  /-- The tasks that `waitpid` has reported dead. -/
  reported : Finset Pid
  /-- The task that a creator has created and not yet told of through its event stop. -/
  creating : Pid → Option Pid
  /-- The tasks whose creator was reported dead before it told of them. -/
  lost : Finset Pid

namespace Family

/-- A task is created. Nothing is left of one that had its pid before. -/
def creates (k : Family) (c n : Pid) : Family := { k with
  tasks := n :: k.tasks.filter (· ≠ n)
  died := k.died.erase n
  reported := k.reported.erase n
  creating := update (update k.creating n none) c (some n) }

def kills (k : Family) (pid : Pid) : Family := { k with died := insert pid k.died }

def buries (k : Family) (pid : Pid) : Family := { k with
  reported := insert pid k.reported
  lost := k.lost ∪ (k.creating pid).toFinset }

def tells (k : Family) (c : Pid) : Family := { k with creating := update k.creating c none }

/-- What tasks do on their own: a living task that has told of its last child creates another, which
may have the pid of one that was reported dead, and any task can be killed. -/
inductive Moves : Family → Family → Prop where
  | creates {k : Family} {c n : Pid} (hc : c ∈ k.tasks) (hd : c ∉ k.died)
      (hi : k.creating c = none) (hn : n ∈ k.tasks → n ∈ k.reported) : Moves k (k.creates c n)
  | kills {k : Family} {pid : Pid} (hp : pid ∈ k.tasks) : Moves k (k.kills pid)

/-- When a status can be reported: a stop of a living task, a death of a dead one, and an event
stop of a creator that has a child to tell of. -/
def Reports (k : Family) (st : WaitStatus) (k' : Family) : Prop :=
  (∀ pid ∈ st.stop, pid ∈ k.tasks ∧ pid ∉ k.died) ∧
  (∀ pid sig event, st = .ptraceEvent pid sig event → isCreation event →
    (k.creating pid).isSome) ∧
  match st.death with
  | some pid => pid ∈ k.died ∧ pid ∉ k.reported ∧ k' = k.buries pid
  | none => k' = k

def Answers (k : Family) : (c : Call) → c.Answer → Family → Prop
  | .waitAny, .ok st, k' => k.Reports st k'
  | .waitAny, .error .ECHILD, k' => (∀ pid ∈ k.tasks, pid ∈ k.reported) ∧ k' = k
  | .getevent c, .ok new, k' => k.creating c = some (.fromRaw new.toInt32) ∧ k' = k.tells c
  | .getevent c, .error _, k' => c ∈ k.died ∧ k' = k
  | _, _, k' => k' = k

end Family

/-- The tasks may do anything before a call is answered. -/
def familyKernel : Kernel Family := moving Family.Moves Family.Answers

/-- No call of `next_event` returned `None` while a traced task was alive. -/
def NotEarly (l : List (Outcome × (PtraceTracer × Family))) : Prop :=
  ∀ x ∈ l, x.1 = .ok (some none) → ∀ pid ∈ x.2.2.tasks, pid ∈ x.2.2.died

/-- The tracer knows of a task: it was reported dead, it is in the live set, or an older task that
was not reported dead has yet to tell of it. -/
def Heard (live : Finset Pid) (k : Family) (older : List Pid) (n : Pid) : Prop :=
  n ∈ k.reported ∨ n ∈ live ∨ ∃ c ∈ older, c ∉ k.reported ∧ k.creating c = some n

def Known (live : Finset Pid) (k : Family) : List Pid → Prop
  | [] => True
  | n :: older => Heard live k older n ∧ Known live k older

variable {live live' : Finset Pid} {k k' : Family}

theorem Known.mono {l : List Pid} (h : Known live k l)
    (hm : ∀ older n, n ∈ l → Heard live k older n → Heard live' k' older n) :
    Known live' k' l := by
  induction l with
  | nil => trivial
  | cons n older ih =>
    exact ⟨hm older n (by simp) h.1, ih h.2 fun o m hmem => hm o m (by simp [hmem])⟩

theorem Known.without {l : List Pid} (h : Known live k l) {gone : Pid}
    (hm : ∀ older n, older ⊆ l → n ≠ gone → Heard live k older n →
      Heard live' k' (older.filter (· ≠ gone)) n) : Known live' k' (l.filter (· ≠ gone)) := by
  induction l with
  | nil => trivial
  | cons n older ih =>
    have hrest := ih h.2 fun o m ho => hm o m (List.subset_cons_of_subset n ho)
    by_cases hn : n = gone
    · rwa [List.filter_cons_of_neg (by simpa using hn)]
    · rw [List.filter_cons_of_pos (by simpa using hn)]
      exact ⟨hm older n (List.subset_cons_self n older) hn h.1, hrest⟩

/-- With an empty live set every task was reported dead: the oldest of the others would have no
older task to tell of it. -/
theorem Known.all_reported {l : List Pid} (h : Known ∅ k l) : ∀ pid ∈ l, pid ∈ k.reported := by
  induction l with
  | nil => simp
  | cons n older ih =>
    have hold := ih h.2
    intro pid hp
    rcases List.mem_cons.mp hp with rfl | hp
    · rcases h.1 with hr | hl | ⟨c, hc, hn, -⟩
      · exact hr
      · exact absurd hl (Finset.notMem_empty _)
      · exact absurd (hold c hc) hn
    · exact hold pid hp

/-- The invariant that links the live set to the traced tasks. -/
structure Tracked (live : Finset Pid) (k : Family) : Prop where
  dead : k.reported ⊆ k.died
  known : k.lost = ∅ → Known live k k.tasks

/-- A new task has a creator that will tell of it. That no task with its pid is left says nothing
new of the others: a task that was reported dead tells of none. -/
theorem Tracked.creates {c n : Pid} (h : Tracked live k) (hc : c ∈ k.tasks) (hd : c ∉ k.died)
    (hi : k.creating c = none) (hn : n ∈ k.tasks → n ∈ k.reported) :
    Tracked live (k.creates c n) := by
  have kept {c' : Pid} {older : List Pid} (hsub : older ⊆ k.tasks) (hc' : c' ∈ older)
      (hr : c' ∉ k.reported) : c' ≠ n ∧ c' ∈ older.filter (· ≠ n) ∧
        c' ∉ (k.creates c n).reported := by
    have hne : c' ≠ n := by
      rintro rfl
      exact hr (hn (hsub hc'))
    exact ⟨hne, List.mem_filter.mpr ⟨hc', by simpa using hne⟩,
      fun hr' => hr (Finset.mem_of_mem_erase hr')⟩
  refine ⟨Finset.erase_subset_erase n h.dead, fun hl => ⟨.inr (.inr ⟨c, ?_⟩), ?_⟩⟩
  · obtain ⟨-, hmem, hr⟩ := kept (List.Subset.refl _) hc fun hr => hd (h.dead hr)
    exact ⟨hmem, hr, update_self ..⟩
  · refine (h.known hl).without fun older m hsub hm hheard => ?_
    rcases hheard with hr | hin | ⟨c', hc', hr, hcr⟩
    · exact .inl (Finset.mem_erase.mpr ⟨hm, hr⟩)
    · exact .inr (.inl hin)
    · obtain ⟨hne, hmem, hr'⟩ := kept hsub hc' hr
      have hcc : c' ≠ c := by
        rintro rfl
        rw [hi] at hcr
        cases hcr
      have hsame : (k.creates c n).creating c' = k.creating c' :=
        (update_of_ne hcc _ _).trans (update_of_ne hne _ _)
      exact .inr (.inr ⟨c', hmem, hr', hsame.trans hcr⟩)

theorem Tracked.moves (h : Tracked live k) (hm : k.Moves k') : Tracked live k' := by
  cases hm with
  | creates hc hd hi hn => exact h.creates hc hd hi hn
  | kills =>
    exact ⟨h.dead.trans (Finset.subset_insert _ _), fun hl => (h.known hl).mono fun _ _ _ => id⟩

theorem Tracked.moved (h : Tracked live k) (hm : ReflTransGen Family.Moves k k') :
    Tracked live k' := moved_keeps hm (fun _ _ hstep ht => ht.moves hstep) h

/-- A call whose answer says nothing new of the tasks. -/
theorem Tracked.call (h : Tracked live k)
    (hc : ∃ k₁, ReflTransGen Family.Moves k k₁ ∧ k' = k₁) : Tracked live k' := by
  obtain ⟨k₁, hm, rfl⟩ := hc
  exact h.moved hm

theorem Tracked.buries {pid : Pid} (h : Tracked live k) (hd : pid ∈ k.died) :
    Tracked live (k.buries pid) := by
  refine ⟨Finset.insert_subset hd h.dead, fun hl => ?_⟩
  obtain ⟨hl, hc⟩ := Finset.union_eq_empty.mp hl
  apply (h.known hl).mono
  intro older n _ hheard
  rcases hheard with hr | hlive | ⟨c, hc', hr, hcr⟩
  · exact .inl (Finset.mem_insert_of_mem hr)
  · exact .inr (.inl hlive)
  · have hne : c ≠ pid := by
      rintro rfl
      rw [hcr] at hc
      simp at hc
    exact .inr (.inr ⟨c, hc', by simp [Family.buries, hne, hr], hcr⟩)

/-- A task reported dead can be struck from the live set. -/
theorem Tracked.forgets {pid : Pid} (h : Tracked live k) (hr : pid ∈ k.reported) :
    Tracked (live.erase pid) k := by
  refine ⟨h.dead, fun hl => (h.known hl).mono fun older n _ hheard => ?_⟩
  rcases hheard with hr' | hlive | hc
  · exact .inl hr'
  · by_cases hn : n = pid
    · exact .inl (hn ▸ hr)
    · exact .inr (.inl (Finset.mem_erase.mpr ⟨hn, hlive⟩))
  · exact .inr (.inr hc)

/-- A creator tells of its child, which enters the live set. -/
theorem Tracked.tells {c n : Pid} (h : Tracked live k) (hc : k.creating c = some n) :
    Tracked (insert n live) (k.tells c) := by
  refine ⟨h.dead, fun hl => (h.known hl).mono fun older m _ hheard => ?_⟩
  rcases hheard with hr | hlive | ⟨c', hc', hr, hcr⟩
  · exact .inl hr
  · exact .inr (.inl (Finset.mem_insert_of_mem hlive))
  · by_cases hcc : c' = c
    · subst hcc
      rw [hc] at hcr
      exact .inr (.inl (Option.some.inj hcr ▸ Finset.mem_insert_self _ _))
    · exact .inr (.inr ⟨c', hc', hr, (update_of_ne hcc _ _).trans hcr⟩)

variable {t t' : PtraceTracer}

theorem TgidOf.tracked {pid : Pid} {v : UInt32} (h : TgidOf familyKernel t k pid v t' k')
    (ht : Tracked live k) : Tracked live k' := by
  cases h with
  | cached => exact ht
  | read _ ha => exact ht.call ha

/-- The task just reported dead is struck from the live set, whether or not its pid has come to be
used again meanwhile. -/
theorem TgidOf.forgets {pid : Pid} {v : UInt32} (h : TgidOf familyKernel t k pid v t' k')
    (ht : Tracked t.live k) (hr : pid ∈ k.reported) : Tracked (t'.without pid).live k' := by
  have hlive : (t'.without pid).live = t.live.erase pid := congrArg (·.erase pid) h.frame.2.2.1
  rw [hlive]
  exact h.tracked (ht.forgets hr)

theorem OnEvent.tracked {pid : Pid} {event : Int32}
    (h : OnEvent familyKernel t k pid event t' k') (ht : Tracked t.live k) :
    Tracked t'.live k' := by
  cases h with
  | exec | other => exact ht
  | told _ _ ha =>
    obtain ⟨k₁, hm, hc, rfl⟩ := ha
    exact (ht.moved hm).tells hc
  | untold _ _ ha =>
    obtain ⟨k₁, hm, -, rfl⟩ := ha
    exact ht.moved hm

theorem Handled.tracked {st : WaitStatus} {r : Except TraceError (Option Event)}
    (h : Handled familyKernel t k st r t' k') (ht : Tracked t.live k)
    (hd : ∀ pid ∈ st.death, pid ∈ k.reported) : Tracked t'.live k' := by
  cases h with
  | enter _ hr hn hc | enterStuck _ hr hn hc => exact ((ht.call hr).call hn).call hc
  | enterUnread _ hr | exitUnread _ hr => exact ht.call hr
  | exit _ hr hn htg =>
    have hlive := htg.frame.2.2.1
    rw [hlive]
    exact htg.tracked ((ht.call hr).call hn)
  | exited htg | signaled htg => exact htg.forgets ht (hd _ rfl)
  | event he hc | eventStuck he hc => exact (he.tracked ht).call hc
  | delivered _ hc htg =>
    have hlive := htg.frame.2.2.1
    rw [hlive]
    exact htg.tracked (ht.call hc)
  | swallowed _ hc | stoppedStuck hc => exact ht.call hc
  | continued | stillAlive => exact ht

/-- A pass keeps the invariant, and it returns `None` only where every traced task has died. -/
theorem Pass.tracked {o : Outcome} (h : Pass familyKernel t k o t' k') (ht : Tracked t.live k) :
    Tracked t'.live k' ∧
      (o = .ok (some none) → k'.lost = ∅ → ∀ pid ∈ k'.tasks, pid ∈ k'.died) := by
  have resumed {k₁ : Family} (hr : Resumed familyKernel t k k₁) : Tracked t.live k₁ := by
    cases hr with
    | idle => exact ht
    | pending _ hc => exact ht.call hc
  cases h with
  | resumeStuck _ hc => exact ⟨ht.call hc, by simp⟩
  | empty hr hl =>
    have ht' := resumed hr
    refine ⟨ht', fun _ hlost pid hp => ?_⟩
    rw [hl] at ht'
    exact ht'.dead ((ht'.known hlost).all_reported pid hp)
  | noChild hr _ hw =>
    obtain ⟨k₁, hm, hall, rfl⟩ := hw
    have ht' := (resumed hr).moved hm
    exact ⟨ht', fun _ _ pid hp => ht'.dead (hall pid hp)⟩
  | @waitStuck e _ _ hr _ hw he =>
    cases e with
    | ECHILD => exact absurd rfl he
    | ESRCH | EPERM | other => exact ⟨(resumed hr).call hw, by simp⟩
  | @handled st r _ _ _ _ hr _ hw hh =>
    obtain ⟨k₁, hm, -, -, hdeath⟩ := hw
    have ht' := (resumed hr).moved hm
    refine ⟨?_, fun ho => ?_⟩
    · cases hst : st.death with
      | none =>
        rw [hst] at hdeath
        cases hdeath
        exact hh.tracked ht' (by simp [hst])
      | some pid =>
        rw [hst] at hdeath
        obtain ⟨hd, -, rfl⟩ := hdeath
        apply hh.tracked (ht'.buries hd)
        intro p hp
        cases hst.symm.trans hp
        exact Finset.mem_insert_self _ _
    · obtain _ | _ | ev := r <;> cases ho

theorem familyKernel_lost {c : Call} {r : c.Answer} {pid : Pid} (h : familyKernel k c r k')
    (hp : pid ∈ k.lost) : pid ∈ k'.lost := by
  refine moving_keeps (P := fun k₁ : Family => pid ∈ k₁.lost) h
    (fun _ _ hstep hp => by cases hstep <;> exact hp) (fun k₁ ha hp => ?_) hp
  unfold Family.Answers at ha
  split at ha
  · obtain ⟨-, -, hdeath⟩ := ha
    split at hdeath
    · exact hdeath.2.2 ▸ Finset.mem_union_left _ hp
    · exact hdeath ▸ hp
  · exact ha.2 ▸ hp
  · exact ha.2 ▸ hp
  · exact ha.2 ▸ hp
  · exact ha ▸ hp

/-- Before the first call of `next_event` the tracer knows every traced task, and no death has
been reported. -/
def Knowing (a : PtraceTracer × Family) : Prop :=
  Built a.1 ∧ (∀ pid ∈ a.2.tasks, pid ∈ a.1.live) ∧ a.2.reported = ∅ ∧ a.2.lost = ∅

theorem Knowing.tracked {a : PtraceTracer × Family} (h : Knowing a) : Tracked a.1.live a.2 := by
  obtain ⟨-, hlive, hreported, -⟩ := h
  refine ⟨by simp [hreported], fun _ => ?_⟩
  have hknown : ∀ l : List Pid, (∀ pid ∈ l, pid ∈ a.1.live) → Known a.1.live a.2 l := by
    intro l hl
    induction l with
    | nil => trivial
    | cons n older ih => exact ⟨.inr (.inl (hl n (by simp))), ih fun p hp => hl p (by simp [hp])⟩
  exact hknown _ hlive

/-- In every run in which no task is lost, `next_event` returns `None` only once every traced task
has died. -/
theorem not_early_of_none_lost (run : TracerRun Knowing familyKernel)
    (hl : (lastState run.start run.steps).2.lost = ∅) : NotEarly run.steps := by
  refine run.valid.faultless (I := fun a => Tracked a.1.live a.2)
    (F := fun a => a.2.lost.Nonempty)
    (Q := fun o a => o = .ok (some none) → ∀ pid ∈ a.2.tasks, pid ∈ a.2.died) run.starts.tracked
    (fun _ _ _ ht hs => ((passStep_iff.mp hs).tracked ht).1) ?_ ?_
    (Finset.not_nonempty_iff_eq_empty.mpr hl)
  · rintro a o b hs ⟨pid, hp⟩
    exact ⟨pid, Program.Exec.keeps (P := fun k : Family => pid ∈ k.lost)
      (fun _ _ _ _ => familyKernel_lost) hs hp⟩
  · intro a o b ht hs hnone ho
    exact ((passStep_iff.mp hs).tracked ht).2 ho (Finset.not_nonempty_iff_eq_empty.mp hnone)

/-- The one process 100 and no other. -/
def alone : Family := ⟨[⟨100⟩], ∅, ∅, fun _ => none, ∅⟩

/-- The process 100 has created the process 101 and told of it. -/
def pair : Family := (alone.creates ⟨100⟩ ⟨101⟩).tells ⟨100⟩

/-- The process creates another, which is followed and exits; then it is killed, and `next_event`
returns the two exits and `None`. -/
def followedRun : TracerRun Knowing familyKernel :=
  let t := attachedTo 100 true
  let t₁ := t.withLive ⟨101⟩
  let t₂ := (t₁.withTgid ⟨101⟩ 101).without ⟨101⟩
  let t₃ := (t₂.withTgid ⟨100⟩ 100).without ⟨100⟩
  let k₁ := (pair.kills ⟨101⟩).buries ⟨101⟩
  let k₂ := (k₁.kills ⟨100⟩).buries ⟨100⟩
  { start := (t, alone)
    steps := [(.ok none, (t₁, pair)), (.ok (some (some (.processExit 101 0))), (t₂, k₁)),
      (.ok (some (some (.processExit 100 137))), (t₃, k₂)), (.ok (some none), (t₃, k₂))]
    starts := ⟨built_attachedTo 100 true, by decide, rfl, rfl⟩
    valid := by
      have hcreates : Family.Moves alone (alone.creates ⟨100⟩ ⟨101⟩) :=
        .creates (by decide) (by decide) rfl (by decide)
      have htold : familyKernel (alone.creates ⟨100⟩ ⟨101⟩) (.getevent ⟨100⟩) (.ok 101) pair :=
        ⟨_, .refl, rfl, rfl⟩
      refine ⟨?_, ?_, ?_, passStep_iff.mpr (.empty (.idle rfl) (by decide)), trivial⟩
      · exact passStep_handled (e := none) (.ptraceEvent ⟨100⟩ .SIGTRAP PTRACE_EVENT_FORK)
          (.idle rfl) (Finset.singleton_ne_empty _)
          ⟨_, .single hcreates, by decide, fun _ _ _ h _ => (by cases h; rfl), rfl⟩
          (.event (.told rfl (.inl rfl) htold) ⟨_, .refl, rfl⟩)
      · exact passStep_handled (e := some (.processExit 101 0)) (.exited ⟨101⟩ 0) (.idle rfl)
          (by decide) ⟨_, .single (.kills (by decide)), by decide, nofun, by decide, by decide, rfl⟩
          (.exited (.read (a := none) rfl ⟨_, .refl, rfl⟩))
      · exact passStep_handled (e := some (.processExit 100 137)) (.signaled ⟨100⟩ .SIGKILL false)
          (.idle rfl) (by decide)
          ⟨_, .single (.kills (by decide)), by decide, nofun, by decide, by decide, rfl⟩
          (.signaled (.read (a := none) rfl ⟨_, .refl, rfl⟩)) }

theorem not_early_followed : NotEarly followedRun.steps :=
  not_early_of_none_lost followedRun (by decide)

/-- The process creates the process 101 and is killed; `next_event` returns its exit and then
`None`. -/
def killedRun : TracerRun Knowing familyKernel :=
  let t := attachedTo 100 true
  let t₁ := (t.withTgid ⟨100⟩ 100).without ⟨100⟩
  let k := (alone.creates ⟨100⟩ ⟨101⟩).kills ⟨100⟩
  { start := (t, alone)
    steps := [(.ok (some (some (.processExit 100 137))), (t₁, k.buries ⟨100⟩)),
      (.ok (some none), (t₁, k.buries ⟨100⟩))]
    starts := ⟨built_attachedTo 100 true, by decide, rfl, rfl⟩
    valid := by
      have hm : ReflTransGen Family.Moves alone k :=
        .tail (.single (.creates (by decide) (by decide) rfl (by decide))) (.kills (by decide))
      refine ⟨?_, passStep_iff.mpr (.empty (.idle rfl) (Finset.erase_singleton _)), trivial⟩
      exact passStep_handled (e := some (.processExit 100 137)) (.signaled ⟨100⟩ .SIGKILL false)
        (.idle rfl) (Finset.singleton_ne_empty _)
        ⟨k, hm, by decide, nofun, by decide, by decide, rfl⟩
        (.signaled (.read (a := none) rfl ⟨_, .refl, rfl⟩)) }

/-- The creator is killed before its event stop is collected: its child outlives the trace. -/
theorem ends_with_child_alive :
    ¬ ∀ run : TracerRun Knowing familyKernel, NotEarly run.steps := by
  intro h
  have hdied := h killedRun _ (List.mem_cons_of_mem _ (List.mem_cons_self ..)) rfl ⟨101⟩ (by decide)
  exact absurd hdied (by decide)

end Syren.PtraceTracer
