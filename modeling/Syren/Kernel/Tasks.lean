import Syren.Interaction.Run
import Syren.Kernel.Programs

/-! The tasks of a machine and the tracepoints they pass: what runs the in-kernel programs, and in
which orders. -/
namespace Syren.Kernel
open Interaction Function

/-- The identity of a task, which its tid is not: a tid is used again after its task has died. -/
abbrev TaskId := ℕ

/-- Where a task is. In a call it has the data of the call's `sys_enter`, which the creating call
of a new task did not have, and whether that `sys_enter` was kept in `ENTERS`. -/
inductive Mode where
  | user
  | inCall (enter : Option Enter) (kept : Bool)
  deriving DecidableEq

structure Task where
  tid : UInt32
  tgid : UInt32
  mode : Mode
  deriving DecidableEq

/-- A call as it ends: its task, the data of its own `sys_enter`, and the return value and the clock
as its `sys_exit` reads them. -/
structure Return where
  tid : UInt32
  tgid : UInt32
  enter : Option Enter
  ret : Except Int64 Int64
  now : UInt64

structure System where
  maps : Maps
  /-- The living tasks. -/
  task : TaskId → Option Task
  /-- Each submitted record with the call at whose `sys_exit` it was made. -/
  told : List (Record × Return)
  /-- The tids whose last kept `sys_enter` was left without its `sys_exit`: its task died in the
  call, or went on under another tid. -/
  orphaned : Finset UInt32
  /-- The living tasks among the seeded ones and their descendants. -/
  family : Finset TaskId
  /-- The tids of the tasks that have ever been in the family. -/
  ever : Finset UInt32

inductive Action where
  | enter (id : TaskId) (raw : RawEnter) (ctx : EnterCtx)
  | exit (id : TaskId) (ctx : ExitCtx)
  | die (id : TaskId)
  | create (parent child : TaskId) (tid tgid : UInt32) (ctx : ForkCtx)
  /-- An `execve` of the thread `id`, which takes over the tid of its thread-group leader. -/
  | exec (id leader : TaskId)

/-- `sys_enter` keeps the data of the call. -/
def keeps (m : Maps) (tid : UInt32) (ctx : EnterCtx) : Bool :=
  isTarget m tid && ctx.raw.isOk && !decide (m.enters.Full tid)

def enterData (raw : RawEnter) (ctx : EnterCtx) : Enter := ⟨raw.id.toUInt64, raw.args, ctx.now⟩

/-- The tid of a task whose kept `sys_enter` is left unanswered when it leaves the tid. -/
def unanswered (t : Task) : Finset UInt32 :=
  match t.mode with
  | .inCall _ true => {t.tid}
  | _ => ∅

namespace System

def entered (s : System) (id : TaskId) (t : Task) (raw : RawEnter) (ctx : EnterCtx) : System :=
  let kept := keeps s.maps t.tid ctx
  { s with
    maps := sysEnter ctx s.maps
    task := update s.task id (some { t with mode := .inCall (some (enterData raw ctx)) kept })
    orphaned := if kept then s.orphaned.erase t.tid else s.orphaned }

/-- The records the program submits go with the call that ends here. -/
def exited (s : System) (id : TaskId) (t : Task) (enter : Option Enter) (ctx : ExitCtx) : System :=
  let maps := sysExit ctx s.maps
  { s with
    maps := maps
    task := update s.task id (some { t with mode := .user })
    told := s.told ++ (maps.events.drop s.maps.events.length).map
      (·, ⟨t.tid, t.tgid, enter, ctx.ret, ctx.now⟩)
    orphaned := s.orphaned.erase t.tid }

def died (s : System) (id : TaskId) (t : Task) : System := { s with
  task := update s.task id none
  orphaned := s.orphaned ∪ unanswered t
  family := s.family.erase id }

def created (follow : Bool) (s : System) (parent child : TaskId) (tid tgid : UInt32)
    (ctx : ForkCtx) : System := { s with
  maps := if follow then schedProcessFork ctx s.maps else s.maps
  task := update s.task child (some ⟨tid, tgid, .inCall none false⟩)
  family := if parent ∈ s.family then insert child s.family else s.family
  ever := if parent ∈ s.family then insert tid s.ever else s.ever }

def execed (s : System) (id leader : TaskId) (t l : Task) (enter : Option Enter) : System :=
  { s with
    task := update (update s.task leader none) id (some ⟨l.tid, l.tgid, .inCall enter false⟩)
    orphaned := s.orphaned ∪ unanswered t ∪ unanswered l
    family := s.family.erase leader }

end System

/-- What can happen, and what it leads to. The fork program is attached under `follow`. -/
def Step (follow : Bool) (s : System) : Action → System → Prop
  | .enter id raw ctx, s' => ∃ t, s.task id = some t ∧ t.mode = .user ∧
      ctx.pidTgid.toUInt32 = t.tid ∧ (∀ r, ctx.raw = .ok r → r = raw) ∧ s' = s.entered id t raw ctx
  | .exit id ctx, s' => ∃ t enter kept, s.task id = some t ∧ t.mode = .inCall enter kept ∧
      ctx.pidTgid.toUInt32 = t.tid ∧ (ctx.pidTgid >>> 32).toUInt32 = t.tgid ∧
      s' = s.exited id t enter ctx
  | .die id, s' => ∃ t, s.task id = some t ∧ s' = s.died id t
  | .create parent child tid tgid ctx, s' => ∃ p, s.task parent = some p ∧ p.mode ≠ .user ∧
      s.task child = none ∧ (∀ id t, s.task id = some t → t.tid ≠ tid) ∧
      (orZero ctx.parent).toUInt32 = p.tid ∧ (orZero ctx.child).toUInt32 = tid ∧
      s' = s.created follow parent child tid tgid ctx
  | .exec id leader, s' => ∃ t l enter kept, id ≠ leader ∧ s.task id = some t ∧
      s.task leader = some l ∧ t.mode = .inCall enter kept ∧ t.tgid = l.tid ∧ l.tgid = l.tid ∧
      s' = s.execed id leader t l enter

/-- No two living tasks have one tid. -/
def DistinctTids (s : System) : Prop :=
  ∀ i j t u, s.task i = some t → s.task j = some u → t.tid = u.tid → i = j

/-- A task that lives after one entry has been set is the one set or lived before. -/
theorem update_eq_some {task : TaskId → Option Task} {id i : TaskId} {o : Option Task}
    {u : Task} :
    update task id o i = some u ↔ (i = id ∧ o = some u) ∨ (i ≠ id ∧ task i = some u) := by
  by_cases hi : i = id <;> simp [hi]

variable {follow : Bool} {s s' : System} {a : Action}

/-- Tids stay distinct where every living task has the tid that some task had, no two the same. -/
theorem DistinctTids.inherit (h : DistinctTids s) (owner : TaskId → TaskId)
    (hback : ∀ i u, s'.task i = some u → ∃ v, s.task (owner i) = some v ∧ v.tid = u.tid)
    (hinj : ∀ i j u v, s'.task i = some u → s'.task j = some v → owner i = owner j → i = j) :
    DistinctTids s' := by
  intro i j u v hu hv huv
  obtain ⟨u', hu', hut⟩ := hback i u hu
  obtain ⟨v', hv', hvt⟩ := hback j v hv
  have howner := h _ _ u' v' hu' hv' (hut.trans (huv.trans hvt.symm))
  exact hinj i j u v hu hv howner

theorem DistinctTids.retask (h : DistinctTids s) {id : TaskId} {t t' : Task}
    (ht : s.task id = some t) (hs : s'.task = update s.task id (some t'))
    (htid : t'.tid = t.tid) : DistinctTids s' := by
  refine h.inherit (fun i => i) (fun i u hu => ?_) fun _ _ _ _ _ _ he => he
  rw [hs] at hu
  rcases update_eq_some.mp hu with ⟨rfl, hset⟩ | ⟨-, hlived⟩
  · cases hset
    exact ⟨t, ht, htid.symm⟩
  · exact ⟨u, hlived, rfl⟩

theorem DistinctTids.died (h : DistinctTids s) (id : TaskId) (t : Task) :
    DistinctTids (s.died id t) := by
  refine h.inherit (fun i => i) (fun i u hu => ?_) fun _ _ _ _ _ _ he => he
  rcases update_eq_some.mp hu with ⟨-, hset⟩ | ⟨-, hlived⟩
  · cases hset
  · exact ⟨u, hlived, rfl⟩

theorem DistinctTids.created (h : DistinctTids s) {parent child : TaskId} {tid tgid : UInt32}
    {ctx : ForkCtx} (hfresh : ∀ id t, s.task id = some t → t.tid ≠ tid) :
    DistinctTids (s.created follow parent child tid tgid ctx) := by
  intro i j u v hu hv huv
  rcases update_eq_some.mp hu with ⟨hi, hnew⟩ | ⟨-, hi⟩ <;>
    rcases update_eq_some.mp hv with ⟨hj, hnew'⟩ | ⟨-, hj⟩
  · rw [hi, hj]
  · cases hnew
    exact absurd huv.symm (hfresh j v hj)
  · cases hnew'
    exact absurd huv (hfresh i u hi)
  · exact h i j u v hi hj huv

theorem DistinctTids.execed (h : DistinctTids s) {id leader : TaskId} {t l : Task}
    (enter : Option Enter) (hl : s.task leader = some l) :
    DistinctTids (s.execed id leader t l enter) := by
  have living (i : TaskId) (u : Task) (hi : i ≠ id)
      (hu : (s.execed id leader t l enter).task i = some u) : i ≠ leader ∧ s.task i = some u := by
    rcases update_eq_some.mp hu with ⟨hid, -⟩ | ⟨-, hother⟩
    · exact absurd hid hi
    · rcases update_eq_some.mp hother with ⟨-, hnone⟩ | hlived
      · cases hnone
      · exact hlived
  refine h.inherit (update (fun i => i) id leader) (fun i u hu => ?_) fun i j u v hu hv he => ?_
  · by_cases hi : i = id
    · rw [hi, update_self]
      change update (update s.task leader none) id _ i = some u at hu
      rw [hi, update_self] at hu
      cases hu
      exact ⟨l, hl, rfl⟩
    · rw [update_of_ne hi]
      exact ⟨u, (living i u hi hu).2, rfl⟩
  · by_cases hi : i = id <;> by_cases hj : j = id
    · rw [hi, hj]
    · rw [hi, update_self, update_of_ne hj] at he
      exact absurd he.symm (living j v hj hv).1
    · rw [hj, update_self, update_of_ne hi] at he
      exact absurd he (living i u hi hu).1
    · rwa [update_of_ne hi, update_of_ne hj] at he

theorem Step.distinct (h : Step follow s a s') (hd : DistinctTids s) : DistinctTids s' := by
  cases a with
  | enter id raw ctx =>
    obtain ⟨t, ht, -, -, -, rfl⟩ := h
    exact hd.retask ht rfl rfl
  | exit id ctx =>
    obtain ⟨t, enter, kept, ht, -, -, -, rfl⟩ := h
    exact hd.retask ht rfl rfl
  | die id =>
    obtain ⟨t, -, rfl⟩ := h
    exact hd.died id t
  | create parent child tid tgid ctx =>
    obtain ⟨p, -, -, -, hfresh, -, -, rfl⟩ := h
    exact hd.created hfresh
  | exec id leader =>
    obtain ⟨t, l, enter, kept, -, -, hl, -, -, -, rfl⟩ := h
    exact hd.execed enter hl

end Syren.Kernel
