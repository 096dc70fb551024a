import Syren.Trace.PtraceTasks

/-! Tids that are used again under the `ptrace` backend: nothing that was kept for a dead task
reaches the task that has its tid next. -/
namespace Syren

/-- The task is dead. -/
def WaitStatus.Final : WaitStatus → Prop
  | .exited _ _ => True
  | .signaled _ _ _ => True
  | _ => False

namespace PtraceTracer
open Interaction

variable {t u t' : PtraceTracer} {x : Occasion}

/-- Whether the tid is traced after the occasion, where that depends on the occasion alone: its task
is dead, or a task reports the creation of one with this tid. -/
def Occasion.decides (follow : Bool) (pid : Pid) (x : Occasion) : Option Bool :=
  match x.status with
  | .exited _ _ | .signaled _ _ _ => if pid = x.pid then some false else none
  | .ptraceEvent _ _ event =>
    if follow ∧ isCreation event ∧ pid = .fromRaw x.new.toInt32 then some true else none
  | _ => none

/-- An occasion decides whether a tid is traced, or leaves it as it was. -/
theorem feed_live {a : Fed} (h : feed t a t') : t'.follow = t.follow ∧ ∀ pid,
    pid ∈ t'.live ↔ (a.1.decides t.follow pid).elim (pid ∈ t.live) (· = true) := by
  obtain ⟨x, r⟩ := a
  have hh : Handled x.answers t () x.status r t' () := runs_handle.mp h
  have hpid := x.speaks
  generalize hst : x.status = st at hh hpid
  cases hh with
  | enter | enterStuck | enterUnread | exitUnread | swallowed | stoppedStuck | continued
  | stillAlive => exact ⟨rfl, fun pid => by simp [Occasion.decides, hst, withInflight]⟩
  | exit _ _ _ ht =>
    obtain ⟨-, -, hlive, hfollow⟩ := ht.frame
    exact ⟨hfollow, fun pid => by simp [Occasion.decides, hst, hlive, withInflight]⟩
  | delivered _ _ ht =>
    obtain ⟨-, -, hlive, hfollow⟩ := ht.frame
    exact ⟨hfollow, fun pid => by simp [Occasion.decides, hst, hlive]⟩
  | exited ht | signaled ht =>
    obtain ⟨-, -, hlive, hfollow⟩ := ht.frame
    cases Option.some.inj hpid
    refine ⟨hfollow, fun pid => ?_⟩
    by_cases hp : pid = x.pid <;> simp [Occasion.decides, hst, hp, without, hlive]
  | event he | eventStuck he =>
    cases he with
    | exec hx =>
      refine ⟨rfl, fun pid => ?_⟩
      have hc : ¬ isCreation PTRACE_EVENT_EXEC := by decide
      simp [Occasion.decides, hst, hx, hc, withInflight]
    | told hf hc ha =>
      obtain ⟨-, hnew⟩ := ha
      cases hnew
      refine ⟨rfl, fun pid => ?_⟩
      by_cases hp : pid = .fromRaw x.new.toInt32 <;>
        simp [Occasion.decides, hst, hf, hc, hp, withLive]
    | untold _ _ ha => exact absurd ha.2 (by simp)
    | other _ hc =>
      refine ⟨rfl, fun pid => ?_⟩
      rw [Occasion.decides, hst]
      dsimp only
      rw [if_neg fun hall => hc ⟨hall.1, hall.2.1⟩]
      exact Iff.rfl

theorem decides_final {follow : Bool} (h : x.status.Final) :
    x.decides follow x.pid = some false := by
  unfold Occasion.decides
  cases hst : x.status with
  | exited | signaled => exact if_pos rfl
  | stopped | ptraceEvent | ptraceSyscall | continued | stillAlive =>
    rw [hst] at h
    cases h

theorem react_final {clock : Occasion → UInt64} {p : Own} (h : x.status.Final) :
    (react clock x p).1 = (none, none) := by
  unfold react
  cases hst : x.status with
  | exited | signaled => rfl
  | stopped | ptraceEvent | ptraceSyscall | continued | stillAlive =>
    rw [hst] at h
    cases h

/-- The death of a task leaves nothing of it. -/
theorem own_of_final {a : Fed} (h : feed t a t') (hfinal : a.1.status.Final) :
    t'.own a.pid = (none, none) := by
  have hown := congrArg Prod.fst (feed_own h)
  rwa [react_final hfinal] at hown

theorem origin_kept {steps : List (Fed × PtraceTracer)} (h : IsRun feed t steps) :
    (lastState t steps).start = t.start :=
  h.invariant (P := fun s => s.start = t.start) rfl fun _ _ _ hs hfeed =>
    (feed_reacted hfeed).2.1.trans hs

/-- The last occasion that decides whether a tid is traced does so for the run. -/
theorem Feeds.live {l : List Occasion} {steps : List (Fed × PtraceTracer)} (h : Feeds t l steps) :
    (lastState t steps).follow = t.follow ∧ ∀ pid, pid ∈ (lastState t steps).live ↔
      (l.filterMap (·.decides t.follow pid)).getLast?.elim (pid ∈ t.live) (· = true) := by
  obtain ⟨hrun, rfl⟩ := h
  refine hrun.induction (motive := fun steps => (lastState t steps).follow = t.follow ∧
    ∀ pid, pid ∈ (lastState t steps).live ↔
      ((steps.map fun y => y.1.1).filterMap (·.decides t.follow pid)).getLast?.elim
        (pid ∈ t.live) (· = true)) ⟨rfl, fun pid => Iff.rfl⟩ fun steps y _ ih hfeed => ?_
  obtain ⟨hfollow, hlive⟩ := ih
  obtain ⟨hsame, hnow⟩ := feed_live hfeed
  rw [lastState_concat]
  refine ⟨hsame.trans hfollow, fun pid => ?_⟩
  rw [hnow, hfollow, hlive, List.map_append, List.filterMap_append]
  cases hd : y.1.1.decides t.follow pid <;> simp [hd]

/-- A run over occasions in a row is one over the first and one over the rest. -/
theorem Feeds.split {l m : List Occasion} {steps : List (Fed × PtraceTracer)}
    (h : Feeds t (l ++ x :: m) steps) : ∃ before y after, steps = before ++ y :: after ∧
      Feeds t l before ∧ y.1.1 = x ∧ feed (lastState t before) y.1 y.2 ∧ Feeds y.2 m after := by
  obtain ⟨hrun, hl⟩ := h
  obtain ⟨before, rest, rfl, hbefore, hrest⟩ := List.map_eq_append_iff.mp hl
  obtain ⟨y, after, rfl, hy, hafter⟩ := List.map_eq_cons_iff.mp hrest
  obtain ⟨hfirst, hstep, hlast⟩ := isRun_append.mp hrun
  exact ⟨before, y, after, rfl, ⟨hfirst, hbefore⟩, hy, hstep, hlast, hafter⟩

/-- Whatever a task was doing when it died, nothing is kept for its tid, and what the tracer makes
of the later statuses of the tid, mixed with those of other tasks, is what a tracer makes of them
that has never heard of the tid. The same holds of whether the tid is traced, which the tid's own
deaths and the creations that other tasks report decide. -/
theorem recycled_tid {l m n : List Occasion} {steps others : List (Fed × PtraceTracer)}
    (h : Feeds t (l ++ x :: m) steps) (hfinal : x.status.Final) (h' : Feeds u n others)
    (hblank : u.own x.pid = (none, none)) (hunheard : x.pid ∉ u.live) (hstart : u.start = t.start)
    (hfollow : u.follow = t.follow)
    (hsame : (m.filter fun y => y.pid = x.pid) = n.filter fun y => y.pid = x.pid) :
    (lastState t (steps.take (l.length + 1))).own x.pid = (none, none) ∧
      x.pid ∉ (lastState t (steps.take (l.length + 1))).live ∧
      eventsBy x.pid (steps.drop (l.length + 1)) = eventsBy x.pid others ∧
      (lastState t steps).own x.pid = (lastState u others).own x.pid ∧
      (m.filterMap (·.decides t.follow x.pid) = n.filterMap (·.decides t.follow x.pid) →
        (x.pid ∈ (lastState t steps).live ↔ x.pid ∈ (lastState u others).live)) := by
  obtain ⟨before, y, after, rfl, hbefore, rfl, hdies, hafter⟩ := h.split
  have hdead : y.2.own y.1.1.pid = (none, none) := own_of_final hdies hfinal
  have horigin : y.2.start = t.start :=
    (feed_reacted hdies).2.1.trans (origin_kept hbefore.1)
  have hlater := (keyed_timed t.start).same (isRun_start hafter.1 horigin)
    (isRun_start h'.1 hstart) (k := y.1.1.pid) (hdead.trans hblank.symm)
    (by rw [hafter.ofKey, h'.ofKey, hsame])
  have hlength : before.length = l.length := by
    rw [← hbefore.2, List.length_map]
  have hcut : before ++ y :: after = (before ++ [y]) ++ after := by simp
  have hat : (before ++ [y]).length = l.length + 1 := by simp [hlength]
  have htraced : y.2.follow = t.follow ∧ y.1.1.pid ∉ y.2.live := by
    obtain ⟨hsame, hlive⟩ := feed_live hdies
    refine ⟨hsame.trans hbefore.live.1, ?_⟩
    rw [hlive, decides_final hfinal]
    exact Bool.false_ne_true
  have hmid : lastState t (before ++ [y]) = y.2 := lastState_concat ..
  rw [hcut, List.drop_left' hat, List.take_left' hat, lastState_append (before ++ [y]), hmid]
  refine ⟨hdead, htraced.2, ?_, hlater.1, fun hdecides => ?_⟩
  · rw [← List.map_id (eventsBy _ after), ← List.map_id (eventsBy _ others), map_eventsBy,
      map_eventsBy]
    simp only [Option.map_id, id, hlater.2]
  · rw [hafter.live.2, h'.live.2, hfollow, htraced.1, hdecides]
    simp only [htraced.2, hunheard]

/-- The death of the task that was in `getpid`. -/
def deathInCall : Occasion where
  pid := .fromRaw 7
  status := .signaled (.fromRaw 7) .SIGKILL false
  speaks := rfl
  regs := ⟨0, 0, 0, 0, 0, 0, 0, 0⟩
  procStatus := none
  new := 0
  now := 2

/-- Another task reports that it has created a task under the same tid. -/
def cloneStop : Occasion where
  pid := .fromRaw 8
  status := .ptraceEvent (.fromRaw 8) .SIGTRAP PTRACE_EVENT_CLONE
  speaks := rfl
  regs := ⟨0, 0, 0, 0, 0, 0, 0, 0⟩
  procStatus := none
  new := 7
  now := 2

/-- The first stop of a new task with the tid is one that enters a call, though the dead task was
in one; and the tid is traced again. -/
theorem recycled_tid_inCall : ∃ steps others,
    Feeds fresh [callStop 1, deathInCall, cloneStop, callStop 3, callStop 5] steps ∧
      Feeds fresh [signalStop, cloneStop, callStop 3, callStop 5] others ∧
        Pid.fromRaw 7 ∉ (lastState fresh (steps.take 2)).live ∧
        eventsBy (.fromRaw 7) (steps.drop 2) = eventsBy (.fromRaw 7) others ∧
        (Pid.fromRaw 7 ∈ (lastState fresh steps).live ↔
          Pid.fromRaw 7 ∈ (lastState fresh others).live) := by
  obtain ⟨steps, hrun, hl⟩ :=
    exists_feeds fresh [callStop 1, deathInCall, cloneStop, callStop 3, callStop 5]
  obtain ⟨others, hrun', hl'⟩ :=
    exists_feeds fresh [signalStop, cloneStop, callStop 3, callStop 5]
  have hfeeds : Feeds fresh ([callStop 1] ++ deathInCall :: [cloneStop, callStop 3, callStop 5])
      steps := ⟨hrun, hl⟩
  obtain ⟨-, hgone, hevents, -, hlive⟩ := recycled_tid hfeeds trivial ⟨hrun', hl'⟩ rfl
    (Finset.notMem_empty _) rfl rfl rfl
  exact ⟨steps, others, ⟨hrun, hl⟩, ⟨hrun', hl'⟩, hgone, hevents, hlive rfl⟩

end PtraceTracer

end Syren
