import Syren.Trace.Ebpf

/-! What one pass of `next_event` of the eBPF backend can do, said once: every execution of the code
is one of the cases below and every case is an execution. The kernel is arbitrary here. -/
namespace Syren.EbpfTracer
open Interaction Interaction.Method

variable {σ : Type} {env : Kernel σ} {t t' : EbpfTracer} {s s' : σ} {fuel : ℕ}

/-- The tracer with the records among the items in its queue. -/
def takes (t : EbpfTracer) (items : List (List UInt8)) : EbpfTracer :=
  { t with queue := t.queue ++ items.filterMap (queued t.baselineNs) }

/-- The tracer that has found its target dead. -/
def finds (t : EbpfTracer) (code : Int32) : EbpfTracer := { t with
  queue := t.queue ++ (t.leader.map fun pid => (Event.processExit pid code, none)).toList
  finished := true }

/-- The ring gives its items one by one until it has none, fewer than the bound. -/
inductive Drains (env : Kernel σ) : ℕ → σ → List (List UInt8) → σ → Prop where
  | empty {fuel : ℕ} {s s' : σ} (ha : env s .ringNext none s') : Drains env (fuel + 1) s [] s'
  | item {fuel : ℕ} {item : List UInt8} {items : List (List UInt8)} {s s₁ s' : σ}
      (ha : env s .ringNext (some item) s₁) (hi : Drains env fuel s₁ items s') :
      Drains env (fuel + 1) s (item :: items) s'

/-- The answer to a `kill` without a signal tells of a task that is there. -/
def isAlive : Except Errno Unit → Bool
  | .ok () => true
  | .error e => e = .EPERM

/-- The pids are asked for one by one until one is alive. -/
inductive AllGone (env : Kernel σ) : List UInt32 → σ → Bool → σ → Prop where
  | none {s : σ} : AllGone env [] s true s
  | alive {pid : UInt32} {pids : List UInt32} {a : Except Errno Unit} {s s' : σ}
      (ha : env s (.kill pid 0) a s') (h : isAlive a = true) : AllGone env (pid :: pids) s false s'
  | gone {pid : UInt32} {pids : List UInt32} {a : Except Errno Unit} {b : Bool} {s s₁ s' : σ}
      (ha : env s (.kill pid 0) a s₁) (h : isAlive a = false) (hrest : AllGone env pids s₁ b s') :
      AllGone env (pid :: pids) s b s'

/-- The code with which the child has ended, by the answer to `waitpid`. -/
def endCode : Except Errno WaitStatus → Option Int32
  | .ok (.exited _ code) => some code
  | .ok (.signaled _ sig _) => some (128 + sig.toI32)
  | .ok _ => none
  | .error _ => some 0

inductive Liveness (env : Kernel σ) (fuel : ℕ) (t : EbpfTracer) (s : σ) :
    Bool → EbpfTracer → σ → Prop where
  | dead {child : Pid} {a : Except Errno WaitStatus} {code : Int32} {items : List (List UInt8)}
      {s₁ s' : σ} (hc : t.child = some child) (ha : env s (.waitNohang child) a s₁)
      (he : endCode a = some code) (hi : Drains env fuel s₁ items s') :
      Liveness env fuel t s true ((t.takes items).finds code) s'
  | alive {child : Pid} {a : Except Errno WaitStatus} {s' : σ} (hc : t.child = some child)
      (ha : env s (.waitNohang child) a s') (he : endCode a = none) :
      Liveness env fuel t s false t s'
  | unwatched (hc : t.child = none) (hw : t.watch = []) : Liveness env fuel t s true t s
  | allGone {items : List (List UInt8)} {s₁ s' : σ} (hc : t.child = none) (hw : t.watch ≠ [])
      (hg : AllGone env t.watch s true s₁) (hi : Drains env fuel s₁ items s') :
      Liveness env fuel t s true ((t.takes items).finds 0) s'
  | someAlive {s' : σ} (hc : t.child = none) (hw : t.watch ≠ [])
      (hg : AllGone env t.watch s false s') : Liveness env fuel t s false t s'

abbrev Outcome := Except TraceError (Option (Option Event))

inductive Pass (env : Kernel σ) (fuel : ℕ) (t : EbpfTracer) (s : σ) :
    Outcome → EbpfTracer → σ → Prop where
  | pops {event : Event} {cap : Option Capture} {queue : List (Event × Option Capture)}
      (hq : t.queue = (event, cap) :: queue) :
      Pass env fuel t s (.ok (some (some event))) { t with queue := queue, current := cap } s
  | fills {items : List (List UInt8)} {s' : σ} (hq : t.queue = [])
      (hi : Drains env fuel s items s') (hn : (t.takes items).queue ≠ []) :
      Pass env fuel t s (.ok none) (t.takes items) s'
  | ends {items : List (List UInt8)} {s' : σ} (hq : t.queue = [])
      (hi : Drains env fuel s items s') (hn : t.takes items = t) (hf : t.finished = true) :
      Pass env fuel t s (.ok (some none)) t s'
  | finishes {items : List (List UInt8)} {t' : EbpfTracer} {s₁ s' : σ} (hq : t.queue = [])
      (hi : Drains env fuel s items s₁) (hn : t.takes items = t) (hf : t.finished = false)
      (hl : Liveness env fuel t s₁ true t' s') : Pass env fuel t s (.ok none) t' s'
  | polls {items : List (List UInt8)} {t' : EbpfTracer} {s₁ s₂ s' : σ} (hq : t.queue = [])
      (hi : Drains env fuel s items s₁) (hn : t.takes items = t) (hf : t.finished = false)
      (hl : Liveness env fuel t s₁ false t' s₂) (hp : env s₂ (.poll 100) () s') :
      Pass env fuel t s (.ok none) t' s'

theorem takes_nil : t.takes [] = t := by simp [takes]

theorem takes_cons (item : List UInt8) (items : List (List UInt8)) :
    takes { t with queue := t.queue ++ (queued t.baselineNs item).toList } items =
      t.takes (item :: items) := by
  cases h : queued t.baselineNs item <;> simp [takes, h]

theorem takes_eq_self {items : List (List UInt8)} (hq : t.queue = [])
    (h : (t.takes items).queue = []) : t.takes items = t := by
  have hnone : t.queue ++ items.filterMap (queued t.baselineNs) = [] := h
  rw [takes, hnone, ← hq]

theorem runs_drainRing {r : Except TraceError Unit} :
    Runs env (drainRing fuel) t s r t' s' ↔
      r = .ok () ∧ ∃ items, Drains env fuel s items s' ∧ t' = t.takes items := by
  constructor
  · intro h
    induction fuel generalizing t s with
    | zero => exact h.elim
    | succ fuel ih =>
      obtain ⟨item, s₁, ha, h⟩ := runs_ask_bind.mp h
      cases item with
      | none =>
        obtain ⟨rfl, rfl, rfl⟩ := runs_pure.mp h
        exact ⟨rfl, [], .empty ha, takes_nil.symm⟩
      | some item =>
        obtain ⟨rfl, items, hi, rfl⟩ := ih (runs_modify_bind.mp h)
        exact ⟨rfl, item :: items, .item ha hi, takes_cons item items⟩
  · rintro ⟨rfl, items, hi, rfl⟩
    induction hi generalizing t with
    | empty ha => exact runs_ask_bind.mpr ⟨none, _, ha, runs_pure.mpr ⟨rfl, takes_nil, rfl⟩⟩
    | @item _ item items _ _ _ ha _ ih =>
      refine runs_ask_bind.mpr ⟨some item, _, ha, runs_modify_bind.mpr ?_⟩
      rw [← takes_cons]
      exact ih

theorem runs_drainRing_bind {α : Type} {f : Unit → Polling α} {r : Except TraceError α} :
    Runs env (drainRing fuel >>= f) t s r t' s' ↔
      ∃ items s₁, Drains env fuel s items s₁ ∧ Runs env (f ()) (t.takes items) s₁ r t' s' := by
  rw [runs_bind]
  constructor
  · rintro (⟨_, t₁, s₁, hd, hr⟩ | ⟨e, rfl, hd⟩)
    · obtain ⟨-, items, hi, rfl⟩ := runs_drainRing.mp hd
      exact ⟨items, s₁, hi, hr⟩
    · cases (runs_drainRing.mp hd).1
  · rintro ⟨items, s₁, hi, hr⟩
    exact .inl ⟨(), _, s₁, runs_drainRing.mpr ⟨rfl, items, hi, rfl⟩, hr⟩

/-- The exit goes into the queue after what the ring still has. -/
theorem runs_enqueueExit_bind {α : Type} {code : Int32} {f : Unit → Polling α}
    {r : Except TraceError α} :
    Runs env (enqueueExit fuel code >>= f) t s r t' s' ↔ ∃ items s₁, Drains env fuel s items s₁ ∧
      Runs env (f ()) ((t.takes items).finds code) s₁ r t' s' := by
  unfold enqueueExit
  simp only [runs_bind_bind, runs_drainRing_bind, runs_modify_bind, finds]

theorem runs_pidAlive {pid : UInt32} {r : Except TraceError Bool} :
    Runs env (pidAlive pid) t s r t' s' ↔
      ∃ a, env s (.kill pid 0) a s' ∧ r = .ok (isAlive a) ∧ t' = t := by
  unfold pidAlive
  rw [runs_ask_bind]
  constructor
  · rintro ⟨a, s₁, ha, hr⟩
    obtain e | _ := a
    all_goals
      obtain ⟨rfl, rfl, rfl⟩ := runs_pure.mp hr
      exact ⟨_, ha, rfl, rfl⟩
  · rintro ⟨a, ha, rfl, rfl⟩
    obtain e | _ := a
    all_goals exact ⟨_, s', ha, runs_pure.mpr ⟨rfl, rfl, rfl⟩⟩

theorem runs_allGone {pids : List UInt32} {r : Except TraceError Bool} :
    Runs env (allGone pids) t s r t' s' ↔
      t' = t ∧ ∃ b, r = .ok b ∧ AllGone env pids s b s' := by
  induction pids generalizing s with
  | nil =>
    constructor
    · intro h
      obtain ⟨rfl, rfl, rfl⟩ := runs_pure.mp h
      exact ⟨rfl, true, rfl, .none⟩
    · rintro ⟨rfl, b, rfl, h⟩
      cases h
      exact runs_pure.mpr ⟨rfl, rfl, rfl⟩
  | cons pid pids ih =>
    unfold allGone
    rw [runs_bind]
    constructor
    · rintro (⟨alive, t₁, s₁, hfirst, hrest⟩ | ⟨e, rfl, hfirst⟩)
      · obtain ⟨a, ha, he, rfl⟩ := runs_pidAlive.mp hfirst
        cases he
        cases hlives : isAlive a with
        | true =>
          rw [hlives] at hrest
          obtain ⟨rfl, rfl, rfl⟩ := runs_pure.mp hrest
          exact ⟨rfl, false, rfl, .alive ha hlives⟩
        | false =>
          rw [hlives] at hrest
          obtain ⟨rfl, b, rfl, hall⟩ := ih.mp hrest
          exact ⟨rfl, b, rfl, .gone ha hlives hall⟩
      · obtain ⟨a, -, he, -⟩ := runs_pidAlive.mp hfirst
        cases he
    · rintro ⟨rfl, b, rfl, h⟩
      cases h with
      | alive ha h =>
        refine .inl ⟨true, t', s', runs_pidAlive.mpr ⟨_, ha, by rw [h], rfl⟩, ?_⟩
        exact runs_pure.mpr ⟨rfl, rfl, rfl⟩
      | gone ha h hrest =>
        refine .inl ⟨false, t', _, runs_pidAlive.mpr ⟨_, ha, by rw [h], rfl⟩, ?_⟩
        exact ih.mpr ⟨rfl, b, rfl, hrest⟩

/-- A program that was started is waited for. -/
theorem runs_livenessDone_child {r : Except TraceError Bool} {child : Pid}
    (hc : t.child = some child) :
    Runs env (livenessDone fuel) t s r t' s' ↔
      ∃ b, r = .ok b ∧ Liveness env fuel t s b t' s' := by
  unfold livenessDone
  rw [runs_get_bind, hc]
  simp only [runs_ask_bind]
  constructor
  · rintro ⟨a, s₁, ha, hr⟩
    have dead {code : Int32} (he : endCode a = some code)
        (hr : Runs env (do enqueueExit fuel code; return true) t s₁ r t' s') :
        ∃ b, r = .ok b ∧ Liveness env fuel t s b t' s' := by
      obtain ⟨items, s₂, hi, hr⟩ := runs_enqueueExit_bind.mp hr
      obtain ⟨rfl, rfl, rfl⟩ := runs_pure.mp hr
      exact ⟨true, rfl, .dead hc ha he hi⟩
    obtain e | st := a
    · exact dead rfl hr
    · cases st with
      | exited | signaled => exact dead rfl hr
      | stopped | ptraceEvent | ptraceSyscall | continued | stillAlive =>
        obtain ⟨rfl, rfl, rfl⟩ := runs_pure.mp hr
        exact ⟨false, rfl, .alive hc ha rfl⟩
  · rintro ⟨b, rfl, h⟩
    cases h with
    | @dead _ a code items s₁ _ hc' ha he hi =>
      cases hc.symm.trans hc'
      refine ⟨a, s₁, ha, ?_⟩
      have hexit : Runs env (do enqueueExit fuel code; return true) t s₁ (.ok true)
          ((t.takes items).finds code) s' :=
        runs_enqueueExit_bind.mpr ⟨items, s', hi, runs_pure.mpr ⟨rfl, rfl, rfl⟩⟩
      obtain e | st := a
      · cases he
        exact hexit
      · cases st with
        | exited | signaled =>
          cases he
          exact hexit
        | stopped | ptraceEvent | ptraceSyscall | continued | stillAlive => cases he
    | @alive _ a _ hc' ha he =>
      cases hc.symm.trans hc'
      refine ⟨a, s', ha, ?_⟩
      obtain e | st := a
      · cases he
      · cases st with
        | exited | signaled => cases he
        | stopped | ptraceEvent | ptraceSyscall | continued | stillAlive =>
          exact runs_pure.mpr ⟨rfl, rfl, rfl⟩
    | unwatched hc' | allGone hc' | someAlive hc' => cases hc.symm.trans hc'

/-- Of processes that were attached to, it is asked whether all are gone. -/
theorem runs_livenessDone_watch {r : Except TraceError Bool} (hc : t.child = none) :
    Runs env (livenessDone fuel) t s r t' s' ↔
      ∃ b, r = .ok b ∧ Liveness env fuel t s b t' s' := by
  unfold livenessDone
  rw [runs_get_bind, hc]
  simp only [runs_get_bind]
  by_cases hw : t.watch = []
  · rw [if_pos hw]
    constructor
    · intro h
      obtain ⟨rfl, rfl, rfl⟩ := runs_pure.mp h
      exact ⟨true, rfl, .unwatched hc hw⟩
    · rintro ⟨b, rfl, h⟩
      cases h with
      | unwatched => exact runs_pure.mpr ⟨rfl, rfl, rfl⟩
      | dead hc' | alive hc' => cases hc.symm.trans hc'
      | allGone _ hw' | someAlive _ hw' => exact absurd hw hw'
  · rw [if_neg hw, runs_bind]
    constructor
    · rintro (⟨b, t₁, s₁, hg, hr⟩ | ⟨e, rfl, hg⟩)
      · obtain ⟨rfl, b, he, hg⟩ := runs_allGone.mp hg
        cases he
        cases b with
        | false =>
          obtain ⟨rfl, rfl, rfl⟩ := runs_pure.mp hr
          exact ⟨false, rfl, .someAlive hc hw hg⟩
        | true =>
          obtain ⟨items, s₂, hi, hr⟩ := runs_enqueueExit_bind.mp hr
          obtain ⟨rfl, rfl, rfl⟩ := runs_pure.mp hr
          exact ⟨true, rfl, .allGone hc hw hg hi⟩
      · obtain ⟨-, b, he, -⟩ := runs_allGone.mp hg
        cases he
    · rintro ⟨b, rfl, h⟩
      cases h with
      | unwatched _ hw' => exact absurd hw' hw
      | dead hc' | alive hc' => cases hc.symm.trans hc'
      | allGone _ _ hg hi =>
        refine .inl ⟨true, t, _, runs_allGone.mpr ⟨rfl, true, rfl, hg⟩, ?_⟩
        exact runs_enqueueExit_bind.mpr ⟨_, s', hi, runs_pure.mpr ⟨rfl, rfl, rfl⟩⟩
      | someAlive _ _ hg =>
        refine .inl ⟨false, t, s', runs_allGone.mpr ⟨rfl, false, rfl, hg⟩, ?_⟩
        exact runs_pure.mpr ⟨rfl, rfl, rfl⟩

theorem runs_livenessDone {r : Except TraceError Bool} :
    Runs env (livenessDone fuel) t s r t' s' ↔
      ∃ b, r = .ok b ∧ Liveness env fuel t s b t' s' := by
  cases hc : t.child with
  | some child => exact runs_livenessDone_child hc
  | none => exact runs_livenessDone_watch hc

theorem runs_nextEventPass {o : Outcome} :
    Runs env (nextEventPass fuel) t s o t' s' ↔ Pass env fuel t s o t' s' := by
  unfold nextEventPass
  rw [runs_get_bind]
  cases hq : t.queue with
  | cons x queue =>
    obtain ⟨event, cap⟩ := x
    simp only [runs_modify_bind, runs_pure]
    constructor
    · rintro ⟨rfl, rfl, rfl⟩
      exact .pops hq
    · intro h
      cases h with
      | pops hq' =>
        cases hq.symm.trans hq'
        exact ⟨rfl, rfl, rfl⟩
      | fills hq' | ends hq' | finishes hq' | polls hq' => cases hq.symm.trans hq'
  | nil =>
    simp only [runs_drainRing_bind, runs_get_bind]
    constructor
    · rintro ⟨items, s₁, hi, hr⟩
      split_ifs at hr with hn
      · obtain ⟨rfl, rfl, rfl⟩ := runs_pure.mp hr
        exact .fills hq hi hn
      have hsame := takes_eq_self hq (not_not.mp hn)
      rw [hsame] at hr
      have hr := runs_get_bind.mp hr
      split_ifs at hr with hf
      · obtain ⟨rfl, rfl, rfl⟩ := runs_pure.mp hr
        exact .ends hq hi hsame hf
      · have hf := Bool.eq_false_iff.mpr hf
        rcases runs_bind.mp hr with ⟨b, t₁, s₂, hl, hr⟩ | ⟨e, rfl, hl⟩
        · obtain ⟨b, he, hl⟩ := runs_livenessDone.mp hl
          cases he
          cases b with
          | true =>
            obtain ⟨rfl, rfl, rfl⟩ := runs_pure.mp hr
            exact .finishes hq hi hsame hf hl
          | false =>
            obtain ⟨_, s₃, hp, hr⟩ := runs_ask_bind.mp hr
            obtain ⟨rfl, rfl, rfl⟩ := runs_pure.mp hr
            exact .polls hq hi hsame hf hl hp
        · obtain ⟨b, he, -⟩ := runs_livenessDone.mp hl
          cases he
    · intro h
      cases h with
      | pops hq' => cases hq.symm.trans hq'
      | fills _ hi hn =>
        refine ⟨_, s', hi, ?_⟩
        rw [if_pos hn]
        exact runs_pure.mpr ⟨rfl, rfl, rfl⟩
      | ends _ hi hn hf =>
        refine ⟨_, s', hi, ?_⟩
        rw [hn, if_neg (not_not.mpr hq)]
        refine runs_get_bind.mpr ?_
        rw [if_pos hf]
        exact runs_pure.mpr ⟨rfl, rfl, rfl⟩
      | finishes _ hi hn hf hl =>
        refine ⟨_, _, hi, ?_⟩
        rw [hn, if_neg (not_not.mpr hq)]
        refine runs_get_bind.mpr ?_
        rw [if_neg (Bool.eq_false_iff.mp hf)]
        exact runs_bind.mpr (.inl ⟨true, t', s', runs_livenessDone.mpr ⟨true, rfl, hl⟩,
          runs_pure.mpr ⟨rfl, rfl, rfl⟩⟩)
      | polls _ hi hn hf hl hp =>
        refine ⟨_, _, hi, ?_⟩
        rw [hn, if_neg (not_not.mpr hq)]
        refine runs_get_bind.mpr ?_
        rw [if_neg (Bool.eq_false_iff.mp hf)]
        exact runs_bind.mpr (.inl ⟨false, t', _, runs_livenessDone.mpr ⟨false, rfl, hl⟩,
          runs_ask_bind.mpr ⟨(), s', hp, runs_pure.mpr ⟨rfl, rfl, rfl⟩⟩⟩)

end Syren.EbpfTracer
