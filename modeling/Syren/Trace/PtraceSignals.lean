import Syren.Trace.PtraceSetup

/-! Signals on their way to the traced program: why a task stopped is not told to the `ptrace`
backend, and what it makes of the stop. -/
namespace Syren.PtraceTracer
open Interaction Interaction.Method Interaction.Attempt Function

/-- Why the kernel stops a task with a signal. -/
inductive Cause where
  /-- The task was attached, or is a new task that is attached by itself. -/
  | attached
  /-- The task has executed a program. -/
  | executed
  | delivery (number : Int32) (h : 1 ≤ number ∧ number ≤ 64)
  | groupStop (sig : Signal) (h : sig ∈ [Signal.SIGSTOP, .SIGTSTP, .SIGTTIN, .SIGTTOU])

/-- The number that the stop is reported with. -/
def Cause.number : Cause → Int32
  | .attached => Signal.SIGSTOP.toI32
  | .executed => Signal.SIGTRAP.toI32
  | .delivery number _ => number
  | .groupStop sig _ => sig.toI32

structure SignalStop where
  pid : Pid
  cause : Cause
  /-- The task is killed before it can be resumed. -/
  slain : Bool

inductive Deed where
  | stop (x : SignalStop)
  | resume (pid : Pid) (sig : Option Signal)

def Deed.pid : Deed → Pid
  | .stop x => x.pid
  | .resume pid _ => pid

/-- The last thing that happened to a task. -/
def latest (log : List Deed) (pid : Pid) : Option Deed := log.reverse.find? (·.pid = pid)

def EINVAL : Errno := .other 22

/-- What is recorded when a wait is answered. The answer is an error if the tracing API has no name
for the signal. -/
def Waited : Except Errno WaitStatus → List Deed → List Deed → Prop
  | .ok (.stopped pid sig), log, log' =>
      ∃ x : SignalStop, x.pid = pid ∧ x.cause.number = sig.toI32 ∧ log' = log ++ [.stop x]
  | .ok _, log, log' => log' = log
  | .error e, log, log' => log' = log ∨
      ∃ x : SignalStop, (∀ sig : Signal, sig.toI32 ≠ x.cause.number) ∧ e = EINVAL ∧
        log' = log ++ [.stop x]

/-- A kernel that keeps a record of the stops with a signal that were waited for and of all
resumptions. A task cannot be resumed from a stop in which it was killed. -/
def signalKernel : Kernel (List Deed)
  | log, .waitAny, a, log' => Waited a log log'
  | log, .waitpid _, a, log' => Waited a log log'
  | log, .syscall pid sig, .ok (), log' =>
      (∀ x, latest log pid = some (.stop x) → x.slain = false) ∧ log' = log ++ [.resume pid sig]
  | log, .syscall pid _, .error _, log' =>
      (∀ x, latest log pid = some (.stop x) → x.slain = true) ∧ log' = log
  | log, _, _, log' => log' = log

/-- The signal with which a task was resumed next, if it was resumed before its next stop. -/
def injected (pid : Pid) (log : List Deed) : Option (Option Signal) :=
  match log.find? (·.pid = pid) with
  | some (.resume _ sig) => some sig
  | _ => none

/-- The stop was answered as its cause asks for: the signal that is delivered was injected, and
nothing was where no signal is delivered. -/
def SignalStop.Answered (x : SignalStop) (answer : Option (Option Signal)) : Prop :=
  match x.cause with
  | .delivery number _ => ∃ g, answer = some (some g) ∧ g.toI32 = number
  | _ => ∀ g, answer ≠ some (some g)

/-- Every stop of the record was answered as its cause asks for. -/
def AllAnswered : List Deed → Prop
  | [] => True
  | .stop x :: after => x.Answered (injected x.pid after) ∧ AllAnswered after
  | .resume _ _ :: after => AllAnswered after

/-- The signals delivered to the program, in order. -/
def deliveries (log : List Deed) : List Int32 :=
  log.filterMap fun d => match d with
    | .stop ⟨_, .delivery number _, _⟩ => some number
    | _ => none

/-- The signals that events speak of, in order. -/
def signals (evs : List Event) : List Int32 :=
  evs.filterMap fun ev => match ev with
    | .signal _ sig => some sig
    | _ => none

/-- A tracer from its construction on. If that succeeds, passes of `next_event` follow. -/
structure Life where
  target : Target
  options : TraceOptions
  built : Except TraceError PtraceTracer
  /-- What has been recorded when the construction ends. -/
  before : List Deed
  steps : List (Outcome × (PtraceTracer × List Deed))
  constructs : Ends signalKernel (new target options) [] built before
  passes : ∀ t, built = .ok t → IsRun (passStep signalKernel) (t, before) steps
  failed : ∀ e, built = .error e → steps = []

/-- All that is recorded. -/
def Life.log (life : Life) : List Deed := (life.steps.getLast?.map (·.2.2)).getD life.before

/-- What the passes add to the record. -/
def Life.during (life : Life) : List Deed := life.log.drop life.before.length

/-- Every delivered signal is injected, and reported once and in order; nothing else is. -/
structure Life.Transparent (life : Life) : Prop where
  answered : AllAnswered life.log
  reported : signals (events life.steps) = deliveries life.log

def SignalStop.IsDelivery (x : SignalStop) : Prop :=
  match x.cause with
  | .delivery _ _ => True
  | _ => False

/-- A stop that the passes answer as its cause asks for: the delivery of a signal that has a name
and is neither `SIGTRAP` nor `SIGSTOP`, to a task that is not killed in the stop; or no delivery,
and no group-stop with another signal than `SIGSTOP`, unless the task is killed in it. -/
def SignalStop.Fit (x : SignalStop) : Prop :=
  match x.cause with
  | .delivery number _ => number ≤ 31 ∧ number ≠ 5 ∧ number ≠ 19 ∧ x.slain = false
  | .groupStop sig _ => sig = .SIGSTOP ∨ x.slain = true
  | _ => True

variable {log m m' : List Deed} {x : SignalStop} {pid : Pid}

open Signal in
def allSignals : List Signal :=
  [SIGHUP, SIGINT, SIGQUIT, SIGILL, SIGTRAP, SIGABRT, SIGBUS, SIGFPE, SIGKILL, SIGUSR1, SIGSEGV,
    SIGUSR2, SIGPIPE, SIGALRM, SIGTERM, SIGSTKFLT, SIGCHLD, SIGCONT, SIGSTOP, SIGTSTP, SIGTTIN,
    SIGTTOU, SIGURG, SIGXCPU, SIGXFSZ, SIGVTALRM, SIGPROF, SIGWINCH, SIGIO, SIGPWR, SIGSYS]

/-- The numbers that have a name. -/
theorem named_iff {n : Int32} (h : 1 ≤ n) : (∃ sig : Signal, sig.toI32 = n) ↔ n ≤ 31 := by
  constructor
  · rintro ⟨sig, rfl⟩
    cases sig <;> decide
  · intro hn
    have hall : ∀ k < 32, 1 ≤ k → ∃ sig ∈ allSignals, sig.toI32 = Int32.ofInt (k : ℕ) := by decide
    rw [Int32.le_iff_toInt_le] at h hn
    have hlow : (1 : Int32).toInt = 1 := rfl
    have hhigh : (31 : Int32).toInt = 31 := rfl
    obtain ⟨sig, -, hsig⟩ := hall n.toInt.toNat (by omega) (by omega)
    rw [Int.toNat_of_nonneg (by omega), Int32.ofInt_toInt] at hsig
    exact ⟨sig, hsig⟩

theorem toI32_eq_19 {sig : Signal} (h : sig.toI32 = 19) : sig = .SIGSTOP := by
  cases sig <;> first | rfl | exact absurd h (by decide)

theorem toI32_eq_5 {sig : Signal} (h : sig.toI32 = 5) : sig = .SIGTRAP := by
  cases sig <;> first | rfl | exact absurd h (by decide)

theorem latest_concat (d : Deed) : latest (log ++ [d]) d.pid = some d := by
  simp [latest]

theorem injected_append : injected pid (m ++ m') =
    if ∃ d ∈ m, d.pid = pid then injected pid m else injected pid m' := by
  unfold injected
  rw [List.find?_append]
  split_ifs with h
  · have hsome : (m.find? (·.pid = pid)).isSome := List.find?_isSome.mpr (by simpa using h)
    obtain ⟨d, hd⟩ := Option.isSome_iff_exists.mp hsome
    rw [hd]
    rfl
  · rw [List.find?_eq_none.mpr (by simpa using h), Option.none_or]

/-- No task is resumed with a signal without a stop before. -/
def Quiet (m : List Deed) : Prop := ∀ pid g, injected pid m ≠ some (some g)

theorem SignalStop.answered_congr {a a' : Option (Option Signal)} (h : ∀ g, a ≠ some (some g))
    (h' : ∀ g, a' ≠ some (some g)) : x.Answered a ↔ x.Answered a' := by
  unfold SignalStop.Answered
  cases x.cause with
  | delivery =>
    exact iff_of_false (fun ⟨g, hg, _⟩ => h g hg) fun ⟨g, hg, _⟩ => h' g hg
  | attached | executed | groupStop => exact iff_of_true h h'

/-- What is recorded later makes no difference to the answers so far. -/
theorem answered_append (hq : Quiet m') :
    AllAnswered (m ++ m') ↔ AllAnswered m ∧ AllAnswered m' := by
  induction m with
  | nil => exact (and_iff_right trivial).symm
  | cons d m ih =>
    cases d with
    | resume => exact ih
    | stop x =>
      change x.Answered (injected x.pid (m ++ m')) ∧ AllAnswered (m ++ m') ↔
        (x.Answered (injected x.pid m) ∧ AllAnswered m) ∧ AllAnswered m'
      rw [ih, and_assoc, injected_append]
      apply and_congr_left
      intro _
      split_ifs with h
      · exact Iff.rfl
      · apply SignalStop.answered_congr (hq _)
        intro g
        unfold injected
        rw [List.find?_eq_none.mpr (by simpa using h)]
        simp

/-- The resumptions that inject nothing. -/
def Deed.Idle (d : Deed) : Prop := ∃ pid, d = .resume pid none

theorem answered_idle (h : ∀ d ∈ m, d.Idle) : AllAnswered m := by
  induction m with
  | nil => trivial
  | cons d m ih =>
    obtain ⟨⟨pid, rfl⟩, hm⟩ := List.forall_mem_cons.mp h
    exact ih hm

theorem deliveries_append : deliveries (m ++ m') = deliveries m ++ deliveries m' :=
  List.filterMap_append

theorem deliveries_idle (h : ∀ d ∈ m, d.Idle) : deliveries m = [] := by
  apply List.filterMap_eq_nil_iff.mpr
  intro d hd
  obtain ⟨pid, rfl⟩ := h d hd
  rfl

theorem quiet_of_resumes (h : ∀ pid sig, Deed.resume pid sig ∈ m → sig = none) : Quiet m := by
  intro pid g hg
  unfold injected at hg
  split at hg
  next q sig hfind =>
    have hmem := List.mem_of_find?_eq_some hfind
    cases hg
    cases h _ _ hmem
  next => cases hg

/-- A pass that records at most one stop: which it is, and what the pass makes of it. -/
inductive Chunk : List Deed → List Int32 → Prop where
  | idle {q : List Deed} (hq : ∀ d ∈ q, d.Idle) : Chunk q []
  | unnamed {q : List Deed} {x : SignalStop} (hq : ∀ d ∈ q, d.Idle)
      (hx : ∀ sig : Signal, sig.toI32 ≠ x.cause.number) : Chunk (q ++ [.stop x]) []
  | slain {q : List Deed} {x : SignalStop} (hq : ∀ d ∈ q, d.Idle) (hx : x.slain = true) :
      Chunk (q ++ [.stop x]) []
  | resumed {q : List Deed} {x : SignalStop} {sig : Signal} (hq : ∀ d ∈ q, d.Idle)
      (hsig : sig.toI32 = x.cause.number) (hx : x.slain = false) :
      Chunk (q ++ [.stop x, .resume x.pid (deliver sig)])
        ((deliver sig).toList.map Signal.toI32)

variable {sent : List Int32}

theorem Chunk.quiet (h : Chunk m sent) : Quiet m := by
  have idle {q : List Deed} (hq : ∀ d ∈ q, d.Idle) (pid : Pid) (sig : Option Signal)
      (hm : Deed.resume pid sig ∈ q) : sig = none := by
    obtain ⟨_, hd⟩ := hq _ hm
    cases hd
    rfl
  cases h with
  | idle hq => exact quiet_of_resumes (idle hq)
  | unnamed hq | slain hq =>
    apply quiet_of_resumes
    intro pid sig hm
    rcases List.mem_append.mp hm with hm | hm
    · exact idle hq pid sig hm
    · cases List.mem_singleton.mp hm
  | @resumed q x sig hq =>
    intro pid g
    rw [injected_append]
    split_ifs with hin
    · exact quiet_of_resumes (idle hq) pid g
    · unfold injected
      by_cases hp : x.pid = pid
      · simp [Deed.pid, hp]
      · simp [Deed.pid, hp]

theorem stops_idle {q tail : List Deed} (hq : ∀ d ∈ q, d.Idle) {P : SignalStop → Prop} :
    (∀ y, .stop y ∈ q ++ .stop x :: tail → P y) ↔ P x ∧ ∀ y, .stop y ∈ tail → P y := by
  have hnot (y : SignalStop) : Deed.stop y ∉ q := fun hy => by
    obtain ⟨_, hd⟩ := hq _ hy
    cases hd
  simp only [List.mem_append, hnot, false_or, List.mem_cons, Deed.stop.injEq]
  exact ⟨fun h => ⟨h x (.inl rfl), fun y hy => h y (.inr hy)⟩,
    fun h y hy => hy.elim (fun he => he ▸ h.1) (h.2 y)⟩

/-- Not to be resumed is the right answer to no delivery. -/
theorem SignalStop.answered_none : x.Answered none ↔ ¬ x.IsDelivery := by
  obtain ⟨pid, cause, slain⟩ := x
  cases cause <;> simp [SignalStop.Answered, SignalStop.IsDelivery]

/-- A signal that has no name, or that is to be delivered to a task that is killed, is not injected;
and a fit stop is of neither kind. -/
theorem SignalStop.fit_of_lost
    (h : (∀ sig : Signal, sig.toI32 ≠ x.cause.number) ∨ x.slain = true) :
    x.Fit ↔ ¬ x.IsDelivery := by
  obtain ⟨pid, cause, slain⟩ := x
  cases cause with
  | attached | executed => simp [SignalStop.Fit, SignalStop.IsDelivery]
  | delivery n hn =>
    refine iff_of_false ?_ (by simp [SignalStop.IsDelivery])
    rintro ⟨hnamed, -, -, halive⟩
    rcases h with h | h
    · obtain ⟨sig, hsig⟩ := (named_iff hn.1).mpr hnamed
      exact h sig hsig
    · cases h.symm.trans halive
  | groupStop sig =>
    refine iff_of_true ?_ (by simp [SignalStop.IsDelivery])
    rcases h with h | h
    · exact absurd rfl (h sig)
    · exact .inr h

theorem deliver_eq_some {sig g : Signal} : deliver sig = some g ↔
    g = sig ∧ sig.toI32 ≠ 5 ∧ sig.toI32 ≠ 19 := by
  cases sig <;> simp [deliver, Signal.toI32, eq_comm]

/-- Injecting the signal of the stop, or nothing if that is `SIGSTOP` or `SIGTRAP`, is the right
answer to a fit stop in which the task is not killed. -/
theorem SignalStop.answered_deliver {sig : Signal} (hsig : sig.toI32 = x.cause.number)
    (hx : x.slain = false) : x.Answered (some (deliver sig)) ↔ x.Fit := by
  obtain ⟨pid, cause, slain⟩ := x
  cases hx
  cases cause with
  | attached | executed =>
    refine iff_of_true (fun g hg => ?_) trivial
    obtain ⟨-, h5, h19⟩ := deliver_eq_some.mp (Option.some_inj.mp hg)
    first | exact h19 hsig | exact h5 hsig
  | delivery n hn =>
    have hle := (named_iff hn.1).mp ⟨sig, hsig⟩
    obtain rfl : sig.toI32 = n := hsig
    constructor
    · rintro ⟨g, hg, -⟩
      obtain ⟨-, h5, h19⟩ := deliver_eq_some.mp (Option.some_inj.mp hg)
      exact ⟨hle, h5, h19, rfl⟩
    · rintro ⟨-, h5, h19, -⟩
      exact ⟨sig, congrArg some (deliver_eq_some.mpr ⟨rfl, h5, h19⟩), rfl⟩
  | groupStop stopSig hstop =>
    have hnum : sig.toI32 = stopSig.toI32 := hsig
    constructor
    · intro h
      left
      by_contra hne
      refine h sig (congrArg some (deliver_eq_some.mpr ⟨rfl, ?_, ?_⟩))
      · rw [hnum]
        exact fun h5 => absurd (toI32_eq_5 h5 ▸ hstop) (by decide)
      · rw [hnum]
        exact fun h19 => hne (toI32_eq_19 h19)
    · rintro (rfl | h) g hg
      · exact (deliver_eq_some.mp (Option.some_inj.mp hg)).2.2 hnum
      · cases h

theorem Chunk.answered_iff (h : Chunk m sent) : AllAnswered m ↔ ∀ x, .stop x ∈ m → x.Fit := by
  have hsplit (q tail : List Deed) (x : SignalStop) (hq : ∀ d ∈ q, d.Idle)
      (hquiet : Quiet (.stop x :: tail)) :
      AllAnswered (q ++ .stop x :: tail) ↔ x.Answered (injected x.pid tail) ∧ AllAnswered tail :=
    (answered_append hquiet).trans (and_iff_right (answered_idle hq))
  cases h with
  | idle hq =>
    apply iff_of_true (answered_idle hq)
    intro x hx
    obtain ⟨_, hd⟩ := hq _ hx
    cases hd
  | @unnamed q x hq hx =>
    rw [hsplit q [] x hq (Chunk.unnamed (q := []) (by simp) hx).quiet, stops_idle hq,
      SignalStop.fit_of_lost (.inl hx), ← SignalStop.answered_none]
    simp [AllAnswered, injected]
  | @slain q x hq hx =>
    rw [hsplit q [] x hq (Chunk.slain (q := []) (by simp) hx).quiet, stops_idle hq,
      SignalStop.fit_of_lost (.inr hx), ← SignalStop.answered_none]
    simp [AllAnswered, injected]
  | @resumed q x sig hq hsig hx =>
    rw [hsplit q _ x hq (Chunk.resumed (q := []) (by simp) hsig hx).quiet, stops_idle hq,
      ← SignalStop.answered_deliver hsig hx]
    simp [AllAnswered, injected, Deed.pid]

/-- The right answer to a stop injects what is delivered. -/
theorem SignalStop.Answered.deliveries {a : Option Signal} (h : x.Answered (some a)) :
    a.toList.map Signal.toI32 = deliveries [.stop x] := by
  obtain ⟨pid, cause, slain⟩ := x
  cases cause with
  | delivery n hn =>
    obtain ⟨g, hg, rfl⟩ := h
    cases hg
    rfl
  | attached | executed | groupStop =>
    cases a with
    | none => rfl
    | some g => exact absurd rfl (h g)

theorem Chunk.reported (h : Chunk m sent) (hfit : ∀ x, .stop x ∈ m → x.Fit) :
    sent = deliveries m := by
  have hlost {q : List Deed} {x : SignalStop} (hq : ∀ d ∈ q, d.Idle) (hx : ¬ x.IsDelivery) :
      [] = PtraceTracer.deliveries (q ++ [.stop x]) := by
    rw [deliveries_append, deliveries_idle hq]
    obtain ⟨pid, cause, slain⟩ := x
    cases cause <;> first | rfl | exact absurd trivial hx
  cases h with
  | idle hq => exact (deliveries_idle hq).symm
  | @unnamed q x hq hx =>
    exact hlost hq ((SignalStop.fit_of_lost (.inl hx)).mp (hfit x (by simp)))
  | @slain q x hq hx =>
    exact hlost hq ((SignalStop.fit_of_lost (.inr hx)).mp (hfit x (by simp)))
  | @resumed q x sig hq hsig hx =>
    have hans := (SignalStop.answered_deliver hsig hx).mpr (hfit x (by simp))
    rw [deliveries_append, deliveries_idle hq]
    exact hans.deliveries

/-- The signal of the event that a pass returns, if it returns one. -/
def sentBy (o : Outcome) : List Int32 := signals (eventOf o).toList

theorem signals_append (l l' : List Event) : signals (l ++ l') = signals l ++ signals l' :=
  List.filterMap_append

variable {t t' : PtraceTracer} {log' : List Deed} {o : Outcome}

/-- The resumption that is left to the next call injects nothing. -/
def Plain (t : PtraceTracer) : Prop := ∀ p ∈ t.pendingResume, p.2 = none

theorem Resumed.recorded (h : Resumed signalKernel t log log') (hp : Plain t) :
    ∃ q, (∀ d ∈ q, d.Idle) ∧ log' = log ++ q := by
  cases h with
  | idle => exact ⟨[], by simp, (List.append_nil _).symm⟩
  | @pending pid sig _ hpend hc =>
    obtain rfl : sig = none := hp _ hpend
    exact ⟨[.resume pid none], by simp [Deed.Idle], hc.2⟩

theorem TgidOf.recorded {v : UInt32} (h : TgidOf signalKernel t log pid v t' log') :
    log' = log := by
  cases h with
  | cached => rfl
  | read _ ha => exact ha

theorem OnEvent.recorded {event : Int32} (h : OnEvent signalKernel t log pid event t' log') :
    log' = log := by
  cases h with
  | exec | other => rfl
  | told _ _ ha => exact ha
  | untold _ _ ha => exact ha

theorem Chunk.after_idle {q : List Deed} (hq : ∀ d ∈ q, d.Idle) (h : Chunk m sent) :
    Chunk (q ++ m) sent := by
  have hboth {q' : List Deed} (hq' : ∀ d ∈ q', d.Idle) : ∀ d ∈ q ++ q', d.Idle :=
    List.forall_mem_append.mpr ⟨hq, hq'⟩
  cases h with
  | idle hm => exact .idle (hboth hm)
  | unnamed hm hx =>
    rw [← List.append_assoc]
    exact .unnamed (hboth hm) hx
  | slain hm hx =>
    rw [← List.append_assoc]
    exact .slain (hboth hm) hx
  | resumed hm hsig hx =>
    rw [← List.append_assoc]
    exact .resumed (hboth hm) hsig hx

theorem idle_resume (pid : Pid) : ∀ d ∈ [Deed.resume pid none], d.Idle := by simp [Deed.Idle]

/-- What is recorded when a status is waited for and handled. -/
theorem Handled.chunk {st : WaitStatus} {r : Except TraceError (Option Event)} {log₁ : List Deed}
    (hw : Waited (.ok st) log log₁) (h : Handled signalKernel t log₁ st r t' log') :
    ∃ m, log' = log ++ m ∧ Chunk m (sentBy (r.map (Option.map some))) := by
  cases h with
  | enter _ hr hn hc =>
    cases hw
    cases hr
    cases hn
    exact ⟨_, hc.2, .idle (idle_resume _)⟩
  | enterStuck _ hr hn hc =>
    cases hw
    cases hr
    cases hn
    exact ⟨[], by rw [hc.2, List.append_nil], .idle (by simp)⟩
  | enterUnread _ hr | exitUnread _ hr =>
    cases hw
    cases hr
    exact ⟨[], (List.append_nil _).symm, .idle (by simp)⟩
  | exit _ hr hn ht =>
    cases hw
    cases hr
    cases hn
    exact ⟨[], by rw [ht.recorded, List.append_nil], .idle (by simp)⟩
  | exited ht | signaled ht =>
    cases hw
    exact ⟨[], by rw [ht.recorded, List.append_nil], .idle (by simp)⟩
  | event he hc =>
    cases hw
    cases he.recorded
    exact ⟨_, hc.2, .idle (idle_resume _)⟩
  | eventStuck he hc =>
    cases hw
    cases he.recorded
    exact ⟨[], by rw [hc.2, List.append_nil], .idle (by simp)⟩
  | @delivered _ sig g _ _ _ _ hg hc ht =>
    obtain ⟨x, rfl, hsig, rfl⟩ := hw
    have hx : x.slain = false := hc.1 x (latest_concat (.stop x))
    have hchunk := Chunk.resumed (q := []) (by simp) hsig.symm hx
    rw [hg] at hchunk
    exact ⟨_, by rw [ht.recorded, hc.2, List.append_assoc]; rfl, hchunk⟩
  | @swallowed _ sig _ hg hc =>
    obtain ⟨x, rfl, hsig, rfl⟩ := hw
    have hx : x.slain = false := hc.1 x (latest_concat (.stop x))
    have hchunk := Chunk.resumed (q := []) (by simp) hsig.symm hx
    rw [hg] at hchunk
    exact ⟨_, by rw [hc.2, List.append_assoc]; rfl, hchunk⟩
  | stoppedStuck hc =>
    obtain ⟨x, rfl, -, rfl⟩ := hw
    have hx : x.slain = true := hc.1 x (latest_concat (.stop x))
    exact ⟨_, hc.2, Chunk.slain (q := []) (by simp) hx⟩
  | continued | stillAlive =>
    cases hw
    exact ⟨[], (List.append_nil _).symm, .idle (by simp)⟩

theorem Handled.plain {env : Kernel (List Deed)} {st : WaitStatus}
    {r : Except TraceError (Option Event)} (h : Handled env t log st r t' log')
    (hp : t.pendingResume = none) : Plain t' := by
  have plain_none {t' : PtraceTracer} (h : t'.pendingResume = none) : Plain t' := by
    simp [Plain, h]
  cases h with
  | enter | enterStuck | exitUnread | enterUnread | swallowed | stoppedStuck | continued |
    stillAlive => exact plain_none hp
  | exit _ _ _ ht =>
    intro p hpend
    rw [ht.frame.1] at hpend
    cases hpend
    rfl
  | exited ht | signaled ht => exact plain_none (ht.frame.1.trans hp)
  | delivered _ _ ht => exact plain_none (ht.frame.1.trans hp)
  | event he | eventStuck he => exact plain_none (he.frame.1.trans hp)

/-- What a pass records. -/
theorem Pass.chunk (h : Pass signalKernel t log o t' log') (hp : Plain t) :
    (∃ m, log' = log ++ m ∧ Chunk m (sentBy o)) ∧ Plain t' := by
  have hready : Plain t.ready := by simp [Plain, ready]
  cases h with
  | resumeStuck _ hc => exact ⟨⟨[], by rw [hc.2, List.append_nil], .idle (by simp)⟩, hready⟩
  | empty hr =>
    obtain ⟨q, hq, rfl⟩ := hr.recorded hp
    exact ⟨⟨q, rfl, .idle hq⟩, hready⟩
  | noChild hr _ hw =>
    obtain ⟨q, hq, rfl⟩ := hr.recorded hp
    refine ⟨?_, hready⟩
    rcases hw with rfl | ⟨x, -, he, -⟩
    · exact ⟨q, rfl, .idle hq⟩
    · cases he
  | waitStuck hr _ hw =>
    obtain ⟨q, hq, rfl⟩ := hr.recorded hp
    refine ⟨?_, hready⟩
    rcases hw with rfl | ⟨x, hx, -, rfl⟩
    · exact ⟨q, rfl, .idle hq⟩
    · exact ⟨_, List.append_assoc .., .unnamed hq hx⟩
  | handled hr _ hw hh =>
    obtain ⟨q, hq, rfl⟩ := hr.recorded hp
    obtain ⟨m, rfl, hm⟩ := hh.chunk hw
    exact ⟨⟨q ++ m, List.append_assoc .., hm.after_idle hq⟩, hh.plain rfl⟩

/-- What passes record and report: the stops among it are answered rightly if and only if they are
fit, and then the reports are of what was delivered. -/
structure Records (m : List Deed) (sent : List Int32) : Prop where
  quiet : Quiet m
  answered : AllAnswered m ↔ ∀ x, .stop x ∈ m → x.Fit
  reported : (∀ x, .stop x ∈ m → x.Fit) → sent = deliveries m

theorem Chunk.records (h : Chunk m sent) : Records m sent := ⟨h.quiet, h.answered_iff, h.reported⟩

theorem Records.append {sent' : List Int32} (h : Records m sent) (h' : Records m' sent') :
    Records (m ++ m') (sent ++ sent') := by
  refine ⟨fun pid g => ?_, ?_, fun hfit => ?_⟩
  · rw [injected_append]
    split_ifs
    · exact h.quiet pid g
    · exact h'.quiet pid g
  · rw [answered_append h'.quiet, h.answered, h'.answered]
    simp only [List.mem_append, or_imp, forall_and]
  · simp only [List.mem_append, or_imp, forall_and] at hfit
    rw [deliveries_append, h.reported hfit.1, h'.reported hfit.2]

/-- What a run of passes records. -/
theorem run_records {steps : List (Outcome × (PtraceTracer × List Deed))}
    (h : IsRun (passStep signalKernel) (t, log) steps) (hp : Plain t) :
    ∃ m, (lastState (t, log) steps).2 = log ++ m ∧ Records m (signals (events steps)) := by
  suffices hrun : (∃ m, (lastState (t, log) steps).2 = log ++ m ∧
      Records m (signals (events steps))) ∧ Plain (lastState (t, log) steps).1 from hrun.1
  refine h.induction (motive := fun steps => (∃ m, (lastState (t, log) steps).2 = log ++ m ∧
    Records m (signals (events steps))) ∧ Plain (lastState (t, log) steps).1) ?_ ?_
  · exact ⟨⟨[], (List.append_nil _).symm, (Chunk.idle (by simp)).records⟩, hp⟩
  · rintro l x - ⟨⟨m, hlog, hm⟩, hplain⟩ hstep
    obtain ⟨⟨m', hlog', hm'⟩, hplain'⟩ := (passStep_iff.mp hstep).chunk hplain
    rw [lastState_concat, events_concat, signals_append]
    exact ⟨⟨m ++ m', by rw [hlog', hlog, List.append_assoc], hm.append hm'.records⟩, hplain'⟩

/-- The calls that resume no task with a signal. -/
def InjectsNothing (c : Call) : Prop := ∀ pid g, c ≠ .syscall pid (some g)

theorem only_orOs {α : Type} (a : Except Errno α) : Attempt.Only InjectsNothing (Setup.orOs a) := by
  cases a <;> trivial

theorem only_tried {α : Type} (a : Except Errno α) :
    Method.Only InjectsNothing (orOs a : Tracing α) := by
  cases a <;> simp [orOs]

theorem only_resume (pid : Pid) : Method.Only InjectsNothing (resume pid none) :=
  (Method.only_ask (by simp [InjectsNothing])).bind only_tried

theorem only_configure (pid : Pid) : Method.Only InjectsNothing (configure pid) :=
  Method.only_get.bind fun _ => (Method.only_ask (by simp [InjectsNothing])).bind only_tried

theorem only_empty (o : TraceOptions) : Attempt.Only InjectsNothing (empty o) :=
  (Attempt.only_ask (by simp [InjectsNothing])).bind fun _ => Attempt.only_pure

theorem only_adopt (child : Pid) : Method.Only InjectsNothing (adopt child) :=
  (only_configure child).bind fun _ => Method.only_modify.bind fun _ => only_resume child

theorem only_attachEach (pids : List Int32) : Method.Only InjectsNothing (attachEach pids) := by
  induction pids with
  | nil => exact Method.only_pure
  | cons raw pids ih =>
    refine (Method.only_ask (by simp [InjectsNothing])).bind fun _ => ?_
    refine (only_tried _).bind fun _ => ?_
    refine (Method.only_ask (by simp [InjectsNothing])).bind fun _ => ?_
    refine (only_tried _).bind fun _ => ?_
    refine (only_configure _).bind fun _ => Method.only_modify.bind fun _ => ?_
    exact (only_resume _).bind fun _ => ih

theorem only_spawn (program : OsBytes) (args : List OsBytes) (o : TraceOptions) :
    Attempt.Only InjectsNothing (spawn program args o) := by
  refine Attempt.only_mk_done.bind fun _ => Attempt.only_mk_done.bind fun _ => ?_
  refine (Attempt.only_ask (by simp [InjectsNothing])).bind fun _ => (only_orOs _).bind fun _ => ?_
  refine (only_empty o).bind fun _ => ?_
  refine (Attempt.only_ask (by simp [InjectsNothing])).bind fun _ => (only_orOs _).bind fun st => ?_
  cases st with
  | exited | signaled => exact Attempt.only_throw
  | stopped | ptraceEvent | ptraceSyscall | continued | stillAlive =>
    exact Attempt.Only.construct (only_adopt _)

/-- The construction resumes no task with a signal. -/
theorem only_new (target : Target) (o : TraceOptions) :
    Attempt.Only InjectsNothing (new target o) := by
  cases target with
  | spawn program args => exact only_spawn program args o
  | attach pids =>
    change Attempt.Only InjectsNothing (attach pids o)
    unfold attach
    split_ifs
    · exact Attempt.only_throw
    · exact (only_empty o).bind fun _ => Attempt.Only.construct (only_attachEach pids)

/-- All resumptions so far inject nothing. -/
def NoneInjected (log : List Deed) : Prop := ∀ pid sig, Deed.resume pid sig ∈ log → sig = none

theorem Waited.noneInjected {a : Except Errno WaitStatus} (h : Waited a log log')
    (hn : NoneInjected log) : NoneInjected log' := by
  have hstop (x : SignalStop) : NoneInjected (log ++ [.stop x]) := by
    intro pid sig hm
    rcases List.mem_append.mp hm with hm | hm
    · exact hn pid sig hm
    · cases List.mem_singleton.mp hm
  cases a with
  | error e =>
    rcases h with rfl | ⟨x, -, -, rfl⟩
    · exact hn
    · exact hstop x
  | ok st =>
    cases st with
    | stopped =>
      obtain ⟨x, -, -, rfl⟩ := h
      exact hstop x
    | exited | signaled | ptraceEvent | ptraceSyscall | continued | stillAlive =>
      cases h
      exact hn

theorem signalKernel_noneInjected (c : Call) (r : c.Answer) (hc : InjectsNothing c)
    (h : signalKernel log c r log') (hn : NoneInjected log) : NoneInjected log' := by
  unfold signalKernel at h
  split at h
  · exact h.noneInjected hn
  · exact h.noneInjected hn
  · next pid sig =>
    obtain rfl : sig = none := by
      cases sig with
      | none => rfl
      | some g => exact absurd rfl (hc pid g)
    obtain ⟨-, rfl⟩ := h
    intro pid sig hm
    rcases List.mem_append.mp hm with hm | hm
    · exact hn pid sig hm
    · cases List.mem_singleton.mp hm
      rfl
  · exact h.2 ▸ hn
  · exact h ▸ hn

/-- Where nothing is injected, the stops are answered rightly exactly when nothing is delivered. -/
theorem NoneInjected.answered_iff (h : NoneInjected log) :
    AllAnswered log ↔ ∀ x, .stop x ∈ log → ¬ x.IsDelivery := by
  induction log with
  | nil => exact iff_of_true trivial (by simp)
  | cons d log ih =>
    have htail : NoneInjected log := fun pid sig hm => h pid sig (List.mem_cons_of_mem _ hm)
    cases d with
    | resume pid sig =>
      rw [AllAnswered, ih htail]
      simp
    | stop x =>
      have hnone (g : Signal) : (none : Option (Option Signal)) ≠ some (some g) := nofun
      have hx := SignalStop.answered_congr (x := x) (quiet_of_resumes htail x.pid) hnone
      rw [AllAnswered, ih htail, hx, SignalStop.answered_none]
      simp

theorem deliveries_nil (h : ∀ x, .stop x ∈ log → ¬ x.IsDelivery) : deliveries log = [] := by
  apply List.filterMap_eq_nil_iff.mpr
  intro d hd
  obtain ⟨⟨pid, cause, slain⟩⟩ | ⟨pid, sig⟩ := d
  · cases cause with
    | delivery => exact absurd trivial (h _ hd)
    | attached | executed | groupStop => rfl
  · rfl

variable {life : Life}

theorem Life.noneInjected (life : Life) : NoneInjected life.before :=
  life.constructs.keeps_only (fun _ c r _ hc hr hn => signalKernel_noneInjected c r hc hr hn)
    (only_new life.target life.options) fun _ _ hm => by cases hm

theorem Life.during_records (life : Life) : life.log = life.before ++ life.during ∧
    Records life.during (signals (events life.steps)) := by
  suffices h : ∃ m, life.log = life.before ++ m ∧ Records m (signals (events life.steps)) by
    obtain ⟨m, hlog, hm⟩ := h
    have hduring : life.during = m := by rw [Life.during, hlog, List.drop_left]
    rw [hduring]
    exact ⟨hlog, hm⟩
  cases hb : life.built with
  | error e =>
    have hnil := life.failed e hb
    refine ⟨[], ?_, ?_⟩
    · rw [Life.log, hnil, List.append_nil]
      rfl
    · rw [hnil]
      exact (Chunk.idle (by simp)).records
  | ok t =>
    have hends := life.constructs
    rw [hb] at hends
    have hfresh : Fresh t := by
      cases htarget : life.target with
      | spawn program args => exact (spawn_fresh (htarget ▸ hends)).1
      | attach pids => exact (attach_fresh (htarget ▸ hends)).1
    obtain ⟨m, hlog, hm⟩ := run_records (life.passes t hb) (by simp [Plain, hfresh.pending])
    refine ⟨m, ?_, hm⟩
    rw [← hlog, Life.log, lastState]
    cases life.steps.getLast? <;> rfl

/-- The backend is transparent for signals if and only if no signal is delivered while the tracer is
constructed and it only meets fit stops later. -/
theorem Life.transparent_iff (life : Life) :
    life.Transparent ↔ (∀ x, .stop x ∈ life.before → ¬ x.IsDelivery) ∧
      ∀ x, .stop x ∈ life.during → x.Fit := by
  obtain ⟨hlog, hrec⟩ := life.during_records
  have hanswered : AllAnswered life.log ↔ (∀ x, .stop x ∈ life.before → ¬ x.IsDelivery) ∧
      ∀ x, .stop x ∈ life.during → x.Fit := by
    rw [hlog, answered_append hrec.quiet, life.noneInjected.answered_iff, hrec.answered]
  constructor
  · exact fun h => hanswered.mp h.answered
  · intro h
    refine ⟨hanswered.mpr h, ?_⟩
    rw [hrec.reported h.2, hlog, deliveries_append, deliveries_nil h.1, List.nil_append]

/-- A task that is resumed from the stop it was waited for with. -/
theorem resumable {x : SignalStop} (hx : x.slain = false) (sig : Option Signal) :
    signalKernel (log ++ [.stop x]) (.syscall x.pid sig) (.ok ())
      (log ++ [.stop x] ++ [.resume x.pid sig]) := by
  refine ⟨fun y hy => ?_, rfl⟩
  cases (latest_concat (.stop x)).symm.trans hy
  exact hx

/-- Process 7 is attached, and somebody sends it `SIGSTOP`. -/
def stoppedLife : Life where
  target := .attach [7]
  options := ⟨false⟩
  built := .ok (attachedTo 7 false)
  before := [.stop ⟨.fromRaw 7, .attached, false⟩, .resume (.fromRaw 7) none]
  steps := [(.ok none, (attachedTo 7 false,
    [.stop ⟨.fromRaw 7, .attached, false⟩, .resume (.fromRaw 7) none,
      .stop ⟨.fromRaw 7, .delivery 19 (by decide), false⟩, .resume (.fromRaw 7) none]))]
  constructs := by
    refine ends_attach.mpr ⟨0, [], .ok (), _, rfl, rfl, ?_⟩
    refine @Attached.next _ _ 7 [] _ _ [] [] [.stop ⟨.fromRaw 7, .attached, false⟩] _ _ _
      (.stopped (.fromRaw 7) .SIGSTOP) _ rfl ⟨_, rfl, rfl, rfl⟩ rfl ?_ .done
    exact @resumable [] ⟨.fromRaw 7, .attached, false⟩ rfl none
  passes t ht := by
    cases ht
    let x : SignalStop := ⟨.fromRaw 7, .delivery 19 (by decide), false⟩
    refine ⟨passStep_iff.mpr (Pass.handled (.idle rfl) (by decide) ⟨x, rfl, rfl, rfl⟩
      (.swallowed (show deliver .SIGSTOP = none from rfl) ?_)), trivial⟩
    exact resumable (x := x) rfl none
  failed e he := by cases he

/-- The signal is neither injected nor reported. -/
theorem stop_swallowed : ¬ stoppedLife.Transparent := by
  intro h
  have hlost : ([] : List Int32) = [19] := h.reported
  cases hlost

end Syren.PtraceTracer
