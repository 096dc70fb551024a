import Syren.Interaction.Keyed
import Syren.Trace.PtraceRun

/-! Tasks under the `ptrace` backend do not interfere: what a task's statuses make the tracer
report, and what the tracer keeps for the task, does not depend on the statuses of other tasks. -/
namespace Syren

/-- The task that a status speaks of. -/
def WaitStatus.pid : WaitStatus → Option Pid
  | .exited pid _ => some pid
  | .signaled pid _ _ => some pid
  | .stopped pid _ => some pid
  | .ptraceEvent pid _ _ => some pid
  | .ptraceSyscall pid => some pid
  | .continued pid => some pid
  | .stillAlive => none

def Inflight.untimed (i : Inflight) : Inflight := { i with enterNs := 0 }

/-- The event without its timestamp and its duration. -/
def Event.untimed : Event → Event
  | .syscall ev => .syscall { ev with tsEnterNs := 0, durationNs := 0 }
  | ev => ev

namespace PtraceTracer
open Interaction Interaction.Method Function

/-- A status of a task, with everything that the tracer can learn while it handles the status. -/
structure Occasion where
  pid : Pid
  status : WaitStatus
  speaks : status.pid = some pid
  regs : Regs
  procStatus : Option (List Char)
  new : Int64
  now : ℕ

/-- The occasion without its clock reading. -/
def Occasion.untimed (x : Occasion) : Occasion := { x with now := 0 }

/-- The kernel at one occasion: it grants every request about the task and no other request. -/
def Occasion.answers (x : Occasion) : Kernel Unit
  | _, .getregs pid, a, _ => pid = x.pid ∧ a = .ok x.regs
  | _, .getevent pid, a, _ => pid = x.pid ∧ a = .ok x.new
  | _, .readStatus pid, a, _ => pid = x.pid ∧ a = x.procStatus
  | _, .syscall pid _, a, _ => pid = x.pid ∧ a = .ok ()
  | _, .now, now, _ => now = x.now
  | _, _, _, _ => False

/-- The result of `handle` at an occasion. -/
abbrev Fed := Occasion × Except TraceError (Option Event)

/-- One status handled. -/
def feed (t : PtraceTracer) (a : Fed) (t' : PtraceTracer) : Prop :=
  Runs a.1.answers (handle a.1.status) t () a.2 t' ()

/-- The event that the handling returned. -/
def Fed.event (a : Fed) : Option Event := a.2.toOption.join

def Fed.pid (a : Fed) : Pid := a.1.pid

/-- What the tracer keeps for a task. -/
abbrev Own := Option Inflight × Option UInt32

def own (t : PtraceTracer) (pid : Pid) : Own := (t.inflight pid, t.tgid pid)

/-- The process of a task, as known or else as read. -/
def Own.process (p : Own) (x : Occasion) : UInt32 :=
  p.2.getD ((readTgid x.procStatus).getD x.pid.toU32)

/-- What a status makes of the part of its task, and the event it leads to. -/
def react (clock : Occasion → UInt64) (x : Occasion) (p : Own) : Own × Option Event :=
  match x.status with
  | .ptraceSyscall pid =>
    match p.1 with
    | some i => ((none, some (p.process x)),
        some (.syscall (completedCall (p.process x) pid i x.regs (clock x))))
    | none => ((some (enterOf x.regs (clock x)), p.2), none)
  | .exited _ code => ((none, none), some (.processExit (p.process x) code))
  | .signaled _ sig _ => ((none, none), some (.processExit (p.process x) (128 + sig.toI32)))
  | .ptraceEvent _ _ event => ((if event = PTRACE_EVENT_EXEC then none else p.1, p.2), none)
  | .stopped _ sig =>
    match deliver sig with
    | some g => ((p.1, some (p.process x)), some (.signal (p.process x) g.toI32))
    | none => (p, none)
  | .continued _ | .stillAlive => (p, none)

/-- One status leads to the event and to the part of its own task that `react` says, and leaves
the rest of what the tracer keeps alone. -/
def Reacted (x : Occasion) (t : PtraceTracer) (r : Except TraceError (Option Event))
    (t' : PtraceTracer) : Prop :=
  (∃ e, r = .ok e ∧ (t'.own x.pid, e) = react (fun x => t.clock x.now) x (t.own x.pid)) ∧
    t'.start = t.start ∧ ∀ pid, pid ≠ x.pid → t'.own pid = t.own pid

variable {t t' : PtraceTracer} {x : Occasion}

theorem TgidOf.reads {v : UInt32} (h : TgidOf x.answers t () x.pid v t' ()) :
    v = (t.own x.pid).process x ∧ t'.inflight = t.inflight ∧ t'.start = t.start ∧
      t'.tgid = update t.tgid x.pid (some v) := by
  cases h with
  | cached hv =>
    refine ⟨?_, rfl, rfl, ?_⟩
    · simp [own, Own.process, hv]
    · rw [← hv, update_eq_self]
  | read hv ha =>
    obtain ⟨-, rfl⟩ := ha
    refine ⟨?_, rfl, rfl, rfl⟩
    simp [own, Own.process, hv]

theorem OnEvent.reads {event : Int32} (h : OnEvent x.answers t () x.pid event t' ()) :
    t'.start = t.start ∧ t'.tgid = t.tgid ∧
      t'.inflight = if event = PTRACE_EVENT_EXEC then update t.inflight x.pid none
        else t.inflight := by
  cases h with
  | exec hx => exact ⟨rfl, rfl, (if_pos hx).symm⟩
  | told _ hc | untold _ hc =>
    have hx : event ≠ PTRACE_EVENT_EXEC := by
      rintro rfl
      exact absurd hc (by decide)
    exact ⟨rfl, rfl, (if_neg hx).symm⟩
  | other hx => exact ⟨rfl, rfl, (if_neg hx).symm⟩

theorem own_update {inflight : Pid → Option Inflight} {tgid : Pid → Option UInt32} {pid q : Pid}
    {a : Option Inflight} {b : Option UInt32} (hq : q ≠ pid) :
    (update inflight pid a q, update tgid pid b q) = (inflight q, tgid q) := by
  rw [update_of_ne hq, update_of_ne hq]

/-- The reaction from the two maps after the status. -/
theorem Reacted.intro {e : Option Event} {a : Option Inflight} {b : Option UInt32}
    (hi : t'.inflight = update t.inflight x.pid a) (hg : t'.tgid = update t.tgid x.pid b)
    (hs : t'.start = t.start)
    (hr : react (fun x => t.clock x.now) x (t.own x.pid) = ((a, b), e)) :
    Reacted x t (.ok e) t' := by
  refine ⟨⟨e, rfl, ?_⟩, hs, fun pid hp => ?_⟩
  · rw [hr, own, hi, hg, update_self, update_self]
  · rw [own, own, hi, hg, own_update hp]

theorem TgidOf.forgotten {v : UInt32} {e : Option Event}
    (h : TgidOf x.answers t () x.pid v t' ())
    (hr : react (fun x => t.clock x.now) x (t.own x.pid) = ((none, none), e)) :
    Reacted x t (.ok e) (t'.without x.pid) := by
  obtain ⟨-, hinf, hstart, htgid⟩ := h.reads
  refine .intro (a := none) (b := none) ?_ ?_ hstart hr
  · exact congrArg (update · x.pid none) hinf
  · change update t'.tgid x.pid none = _
    rw [htgid, update_idem]

theorem Handled.reacted {st : WaitStatus} {r : Except TraceError (Option Event)}
    (h : Handled x.answers t () st r t' ()) (hst : x.status = st) : Reacted x t r t' := by
  have hpid := x.speaks
  rw [hst] at hpid
  cases h with
  | enter hi hr hn hc =>
    obtain ⟨rfl, hregs⟩ := hr
    cases hregs
    cases hn
    refine .intro (b := t.tgid x.pid) rfl (update_eq_self ..).symm rfl ?_
    simp only [react, hst, own, hi]
  | enterStuck _ _ _ hc => exact absurd hc.2 (by simp)
  | enterUnread _ hr | exitUnread _ hr => exact absurd hr.2 (by simp)
  | exit hi hr hn ht =>
    obtain ⟨rfl, hregs⟩ := hr
    cases hregs
    cases hn
    obtain ⟨rfl, hinf, hstart, htgid⟩ := ht.reads
    refine .intro hinf htgid hstart ?_
    simp only [react, hst, own, hi]
    rfl
  | exited ht | signaled ht =>
    cases Option.some.inj hpid
    apply ht.forgotten
    simp only [react, hst, ht.reads.1]
  | @event pid _ ev _ _ _ he hc =>
    cases Option.some.inj hpid
    obtain ⟨hstart, htgid, hinf⟩ := he.reads
    refine .intro (a := if ev = PTRACE_EVENT_EXEC then none else t.inflight x.pid)
      (b := t.tgid x.pid) (hinf.trans ?_) (htgid.trans (update_eq_self ..).symm) hstart ?_
    · split_ifs with hx
      · rfl
      · exact (update_eq_self ..).symm
    · simp only [react, hst, own]
  | eventStuck _ hc | stoppedStuck hc => exact absurd hc.2 (by simp)
  | delivered hg hc ht =>
    cases Option.some.inj hpid
    obtain ⟨rfl, hinf, hstart, htgid⟩ := ht.reads
    refine .intro (a := t.inflight x.pid) (hinf.trans (update_eq_self ..).symm) htgid hstart ?_
    simp only [react, hst, hg, own]
  | swallowed hg hc =>
    refine .intro (update_eq_self ..).symm (update_eq_self ..).symm rfl ?_
    simp only [react, hst, hg, own]
  | continued | stillAlive =>
    refine .intro (update_eq_self ..).symm (update_eq_self ..).symm rfl ?_
    simp only [react, hst, own]

theorem feed_reacted {a : Fed} (h : feed t a t') : Reacted a.1 t a.2 t' :=
  (runs_handle.mp h).reacted rfl

theorem exists_tgidOf (t : PtraceTracer) (x : Occasion) :
    ∃ v t', TgidOf x.answers t () x.pid v t' () := by
  cases hg : t.tgid x.pid with
  | some v => exact ⟨v, t, .cached hg⟩
  | none => exact ⟨_, _, .read hg ⟨rfl, rfl⟩⟩

theorem exists_onEvent (t : PtraceTracer) (x : Occasion) (event : Int32) :
    ∃ t', OnEvent x.answers t () x.pid event t' () := by
  by_cases hx : event = PTRACE_EVENT_EXEC
  · exact ⟨_, .exec hx⟩
  · by_cases hc : t.follow = true ∧ isCreation event
    · exact ⟨_, .told hc.1 hc.2 ⟨rfl, rfl⟩⟩
    · exact ⟨t, .other hx hc⟩

/-- Whatever the tracer asks while it handles a status is about the task of the status, and is
answered. -/
theorem exists_feed (t : PtraceTracer) (x : Occasion) : ∃ r t', feed t (x, r) t' := by
  have h : ∃ r t', Handled x.answers t () x.status r t' () := by
    have hpid := x.speaks
    cases hst : x.status with
    | ptraceSyscall pid =>
      cases Option.some.inj (hst ▸ hpid)
      cases hi : t.inflight x.pid with
      | none => exact ⟨_, _, @Handled.enter _ _ _ _ _ _ _ () () _ hi ⟨rfl, rfl⟩ rfl ⟨rfl, rfl⟩⟩
      | some i =>
        obtain ⟨v, t', ht⟩ := exists_tgidOf
          { t.withInflight x.pid none with pendingResume := some (x.pid, none) } x
        exact ⟨_, _, @Handled.exit _ _ _ _ _ _ _ _ _ _ () () _ hi ⟨rfl, rfl⟩ rfl ht⟩
    | exited pid code =>
      cases Option.some.inj (hst ▸ hpid)
      obtain ⟨v, t', ht⟩ := exists_tgidOf t x
      exact ⟨_, _, .exited ht⟩
    | signaled pid sig core =>
      cases Option.some.inj (hst ▸ hpid)
      obtain ⟨v, t', ht⟩ := exists_tgidOf t x
      exact ⟨_, _, .signaled ht⟩
    | ptraceEvent pid sig event =>
      cases Option.some.inj (hst ▸ hpid)
      obtain ⟨t', he⟩ := exists_onEvent t x event
      exact ⟨_, _, .event he ⟨rfl, rfl⟩⟩
    | stopped pid sig =>
      cases Option.some.inj (hst ▸ hpid)
      cases hg : deliver sig with
      | none => exact ⟨_, _, .swallowed hg ⟨rfl, hg ▸ rfl⟩⟩
      | some g =>
        obtain ⟨v, t', ht⟩ := exists_tgidOf t x
        exact ⟨_, _, .delivered hg ⟨rfl, rfl⟩ ht⟩
    | continued pid => exact ⟨_, _, .continued⟩
    | stillAlive => exact ⟨_, _, .stillAlive⟩
  obtain ⟨r, t', h⟩ := h
  exact ⟨r, t', runs_handle.mpr h⟩

theorem exists_feeds (t : PtraceTracer) (l : List Occasion) :
    ∃ steps, IsRun feed t steps ∧ steps.map (fun y => y.1.1) = l := by
  induction l generalizing t with
  | nil => exact ⟨[], trivial, rfl⟩
  | cons x l ih =>
    obtain ⟨r, t', h⟩ := exists_feed t x
    obtain ⟨steps, hrun, hl⟩ := ih t'
    exact ⟨((x, r), t') :: steps, ⟨h, hrun⟩, by rw [List.map_cons, hl]⟩

/-- What the tracer keeps for a task, without the clock reading. -/
def Own.untimed (p : Own) : Own := (p.1.map Inflight.untimed, p.2)

theorem react_untimed (clock : Occasion → UInt64) (x : Occasion) (p : Own) :
    ((react clock x p).1.untimed, (react clock x p).2.map Event.untimed) =
      react (fun _ => 0) x.untimed p.untimed := by
  obtain ⟨i, g⟩ := p
  obtain ⟨pid, status, speaks, regs, procStatus, new, now⟩ := x
  cases status with
  | ptraceSyscall p =>
    cases i with
    | none => rfl
    | some i =>
      simp [react, Own.untimed, Own.process, Occasion.untimed, Inflight.untimed, Event.untimed,
        completedCall]
  | ptraceEvent p sig event =>
    simp only [react, Own.untimed, Occasion.untimed]
    split_ifs <;> rfl
  | stopped p sig =>
    simp only [react, Own.untimed, Occasion.untimed]
    cases deliver sig <;> rfl
  | exited | signaled | continued | stillAlive => rfl

/-- The list mixes the occasions of the tasks, each task's in the order that `seq` gives, with
whatever clock readings. -/
def Mixes (seq : Pid → List Occasion) (l : List Occasion) : Prop :=
  ∀ pid, (l.filter fun x => x.pid = pid).map Occasion.untimed = seq pid

/-- Only the tasks that the occasions are about have to be looked at. -/
theorem mixes_of_pids {l m : List Occasion} (pids : List Pid) (hl : ∀ x ∈ l, x.pid ∈ pids)
    (hm : ∀ x ∈ m, x.pid ∈ pids) (h : ∀ pid ∈ pids, (l.filter (·.pid = pid)).map Occasion.untimed =
      (m.filter (·.pid = pid)).map Occasion.untimed) :
    Mixes (fun pid => (m.filter (·.pid = pid)).map Occasion.untimed) l := by
  intro pid
  by_cases hpid : pid ∈ pids
  · exact h pid hpid
  · have none_of {l : List Occasion} (hl : ∀ x ∈ l, x.pid ∈ pids) :
        l.filter (·.pid = pid) = [] := by
      rw [List.filter_eq_nil_iff]
      intro x hx hp
      exact hpid (of_decide_eq_true hp ▸ hl x hx)
    simp only [none_of hl, none_of hm]

def Feeds (t : PtraceTracer) (l : List Occasion) (steps : List (Fed × PtraceTracer)) : Prop :=
  IsRun feed t steps ∧ steps.map (fun y => y.1.1) = l

/-- The events that the statuses of a task have led to, in order. -/
def eventsBy (pid : Pid) (steps : List (Fed × PtraceTracer)) : List Event :=
  (ofKey Fed.pid pid steps).filterMap Fed.event

theorem feed_own {a : Fed} (h : feed t a t') :
    (t'.own a.pid, a.event) = react (fun x => t.clock x.now) a.1 (t.own a.pid) := by
  obtain ⟨⟨e, he, hr⟩, -, -⟩ := feed_reacted h
  obtain ⟨x, r⟩ := a
  cases he
  exact hr

theorem keyed_timed (start : ℕ) :
    Keyed (fun t a t' => t.start = start ∧ feed t a t') Fed.pid Prod.fst Fed.event own
      (react fun x => UInt64.ofNat (x.now - start)) := by
  rintro t a t' ⟨rfl, h⟩
  exact ⟨feed_own h, (feed_reacted h).2.2⟩

theorem keyed_untimed :
    Keyed feed Fed.pid (fun a => a.1.untimed) (fun a => a.event.map Event.untimed)
      (fun t pid => (t.own pid).untimed) (react fun _ => 0) := by
  intro t a t' h
  refine ⟨?_, fun pid hp => congrArg Own.untimed ((feed_reacted h).2.2 pid hp)⟩
  rw [← react_untimed fun x => t.clock x.now, ← feed_own h]

variable {steps : List (Fed × PtraceTracer)} {l : List Occasion}

/-- No status moves the clock's origin. -/
theorem isRun_start {start : ℕ} (h : IsRun feed t steps) (hs : t.start = start) :
    IsRun (fun t a t' => t.start = start ∧ feed t a t') t steps := by
  induction steps generalizing t with
  | nil => trivial
  | cons y steps ih =>
    obtain ⟨hfeed, hrun⟩ := h
    exact ⟨⟨hs, hfeed⟩, ih hrun ((feed_reacted hfeed).2.1.trans hs)⟩

theorem Feeds.ofKey (h : Feeds t l steps) (pid : Pid) :
    (ofKey Fed.pid pid steps).map Prod.fst = l.filter fun x => x.pid = pid := by
  obtain ⟨-, rfl⟩ := h
  rw [Interaction.ofKey, List.filter_map, List.filter_map, List.map_map]
  rfl

theorem isRun_answered (h : IsRun feed t steps) : ∀ y ∈ steps, ∃ e, y.1.2 = .ok e := by
  induction steps generalizing t with
  | nil =>
    intro y hy
    cases hy
  | cons x steps ih =>
    obtain ⟨hfeed, hrun⟩ := h
    rintro y (_ | ⟨_, hy⟩)
    · obtain ⟨⟨e, he, -⟩, -, -⟩ := feed_reacted hfeed
      exact ⟨e, he⟩
    · exact ih hrun y hy

theorem map_eventsBy (f : Event → Event) (pid : Pid) :
    (eventsBy pid steps).map f =
      ((ofKey Fed.pid pid steps).map fun a => a.event.map f).filterMap id := by
  rw [eventsBy, List.map_filterMap, List.filterMap_map]
  rfl

/-- What the tracer makes of each task does not depend on how the statuses of the tasks are mixed:
every mix can be handled to its end, no request fails, and any two mixes lead to the same events
for every task and to the same `inflight` and `tgid` maps, timestamps aside. Where the clock reads
the same at each occasion, the timestamps are the same as well. -/
theorem tasks_do_not_interfere {seq : Pid → List Occasion} {l₁ l₂ : List Occasion}
    (t : PtraceTracer) (h₁ : Mixes seq l₁) (h₂ : Mixes seq l₂) :
    (∃ steps, Feeds t l₁ steps) ∧ ∀ steps₁ steps₂, Feeds t l₁ steps₁ → Feeds t l₂ steps₂ →
      (∀ y ∈ steps₁, ∃ e, y.1.2 = .ok e) ∧
      (∀ pid, (eventsBy pid steps₁).map Event.untimed = (eventsBy pid steps₂).map Event.untimed) ∧
      (∀ pid, ((lastState t steps₁).inflight pid).map Inflight.untimed =
        ((lastState t steps₂).inflight pid).map Inflight.untimed) ∧
      (lastState t steps₁).tgid = (lastState t steps₂).tgid ∧
      ((∀ pid, (l₁.filter fun x => x.pid = pid) = l₂.filter fun x => x.pid = pid) →
        (∀ pid, eventsBy pid steps₁ = eventsBy pid steps₂) ∧
        (lastState t steps₁).inflight = (lastState t steps₂).inflight) := by
  refine ⟨exists_feeds t l₁, fun steps₁ steps₂ hf₁ hf₂ => ?_⟩
  have untimed (pid : Pid) := keyed_untimed.same hf₁.1 hf₂.1 (k := pid) rfl (by
    have hmap := (h₁ pid).trans (h₂ pid).symm
    rwa [← hf₁.ofKey, ← hf₂.ofKey, List.map_map, List.map_map] at hmap)
  refine ⟨isRun_answered hf₁.1, fun pid => ?_, fun pid => (Prod.mk.inj (untimed pid).1).1,
    funext fun pid => (Prod.mk.inj (untimed pid).1).2, fun hsame => ?_⟩
  · rw [map_eventsBy, map_eventsBy, (untimed pid).2]
  · have timed (pid : Pid) := (keyed_timed t.start).same (isRun_start hf₁.1 rfl)
      (isRun_start hf₂.1 rfl) (k := pid) rfl (by rw [hf₁.ofKey, hf₂.ofKey, hsame])
    refine ⟨fun pid => ?_, funext fun pid => (Prod.mk.inj (timed pid).1).1⟩
    rw [← List.map_id (eventsBy pid steps₁), ← List.map_id (eventsBy pid steps₂), map_eventsBy,
      map_eventsBy]
    simp only [Option.map_id, id, (timed pid).2]

/-- A task entering and leaving `getpid`. -/
def callStop (now : ℕ) : Occasion where
  pid := .fromRaw 7
  status := .ptraceSyscall (.fromRaw 7)
  speaks := rfl
  regs := ⟨39, 0, 0, 0, 0, 0, 0, 7⟩
  procStatus := some "Tgid:\t7\n".toList
  new := 0
  now := now

/-- Another task that gets a signal. -/
def signalStop : Occasion where
  pid := .fromRaw 8
  status := .stopped (.fromRaw 8) .SIGUSR1
  speaks := rfl
  regs := ⟨0, 0, 0, 0, 0, 0, 0, 0⟩
  procStatus := some "Tgid:\t7\n".toList
  new := 0
  now := 0

def fresh : PtraceTracer := ⟨0, true, ∅, fun _ => none, fun _ => none, none, none⟩

theorem tasks_do_not_interfere_two : ∃ steps₁ steps₂,
    Feeds fresh [callStop 1, signalStop, callStop 2] steps₁ ∧
      Feeds fresh [callStop 3, callStop 5, signalStop] steps₂ ∧
      (lastState fresh steps₁).tgid = (lastState fresh steps₂).tgid := by
  have mixes₁ := mixes_of_pids [.fromRaw 7, .fromRaw 8]
    (l := [callStop 1, signalStop, callStop 2]) (m := [callStop 0, callStop 0, signalStop])
    (by decide) (by decide) (List.forall_mem_cons.mpr ⟨rfl, List.forall_mem_singleton.mpr rfl⟩)
  have mixes₂ := mixes_of_pids [.fromRaw 7, .fromRaw 8]
    (l := [callStop 3, callStop 5, signalStop]) (m := [callStop 0, callStop 0, signalStop])
    (by decide) (by decide) (List.forall_mem_cons.mpr ⟨rfl, List.forall_mem_singleton.mpr rfl⟩)
  obtain ⟨⟨steps₁, hf₁⟩, hsame⟩ := tasks_do_not_interfere fresh mixes₁ mixes₂
  obtain ⟨steps₂, hf₂⟩ := (tasks_do_not_interfere fresh mixes₂ mixes₁).1
  exact ⟨steps₁, steps₂, hf₁, hf₂, (hsame steps₁ steps₂ hf₁ hf₂).2.2.2.1⟩

end PtraceTracer

end Syren
