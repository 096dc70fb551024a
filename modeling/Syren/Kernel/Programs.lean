import Syren.Common.Record
import Syren.Interaction.BoundedMap

/-! The in-kernel programs of `syren-ebpf`: the maps they share and what each of the three
tracepoints does to them. -/
namespace Syren.Kernel
open Interaction

structure Enter where
  nr : UInt64
  args : Vector UInt64 6
  ts : UInt64
  deriving DecidableEq

structure RawEnter where
  id : Int64
  args : Vector UInt64 6
  deriving DecidableEq

structure Maps where
  enters : BoundedMap UInt32 Enter 10240
  targets : BoundedMap UInt32 UInt8 4096
  /-- The array `PATHARG`, one entry for each number below `MAX_SYSCALLS`. -/
  patharg : Vector UInt8 512
  /-- The records submitted to the ring `EVENTS`, in order. -/
  events : List Record

def isTarget (m : Maps) (tid : UInt32) : Bool := (m.targets.get tid).isSome

/-- What `sys_enter` reads: `bpf_get_current_pid_tgid`, its context and the clock. -/
structure EnterCtx where
  pidTgid : UInt64
  raw : Except Int64 RawEnter
  now : UInt64

def tryEnter (ctx : EnterCtx) : ExceptT Int64 (StateM Maps) Unit := do
  let tid := ctx.pidTgid.toUInt32
  if isTarget (← get) tid then
    let raw ← ExceptT.mk (pure ctx.raw)
    let enter : Enter := { nr := raw.id.toUInt64, args := raw.args, ts := ctx.now }
    modify fun m => { m with enters := m.enters.insert tid enter }

def sysEnter (ctx : EnterCtx) (m : Maps) : Maps := ((tryEnter ctx).run m).2

/-- What `sys_exit` reads: its context, the clock, whether the ring has room for a record, what
the reserved storage holds, and the copying of a string out of the task's memory, which answers
the length of the string and leaves the buffer changed. -/
structure ExitCtx where
  pidTgid : UInt64
  ret : Except Int64 Int64
  now : UInt64
  reserved : Bool
  stale : Vector UInt8 CAP_BYTES
  readUserStr : UInt64 → Vector UInt8 CAP_BYTES → Except Int64 ℕ × Vector UInt8 CAP_BYTES

def pathArg (patharg : Vector UInt8 512) (nr : UInt32) : Option UInt8 := patharg[nr.toNat]?

def capturePath (ctx : ExitCtx) (m : Maps) (r : Record) (enter : Enter) : Record :=
  let nr := enter.nr.toUInt32
  if nr ≥ MAX_SYSCALLS then r
  else match pathArg m.patharg nr with
    | some idx1 =>
      if idx1 ≠ 0 ∧ idx1.toNat ≤ 6 then
        let addr := enter.args.toArray.getD (idx1.toNat - 1) 0
        if addr = 0 then r
        else match ctx.readUserStr addr r.cap with
          | (.ok n, cap) => { r with
              cap := cap
              capAddr := addr
              capLen := if n < CAP_BYTES then UInt32.ofNat (n + 1) else UInt32.ofNat CAP_BYTES }
          | (.error _, cap) => { r with cap := cap }
      else r
    | none => r

/-- The record of the call that `enter` began. -/
def recordOf (ctx : ExitCtx) (m : Maps) (enter : Enter) : Record :=
  capturePath ctx m {
    pid := (ctx.pidTgid >>> 32).toUInt32
    tid := ctx.pidTgid.toUInt32
    nr := enter.nr
    args := enter.args
    retval := match ctx.ret with
      | .ok ret => ret
      | .error _ => 0
    tsEnterNs := enter.ts
    -- `saturating_sub`
    durationNs := if enter.ts ≤ ctx.now then ctx.now - enter.ts else 0
    capAddr := 0
    capLen := 0
    pad := 0
    cap := ctx.stale } enter

def tryExit (ctx : ExitCtx) : ExceptT Int64 (StateM Maps) Unit := do
  let tid := ctx.pidTgid.toUInt32
  match (← get).enters.get tid with
  | none => return ()
  | some enter =>
    modify fun m => { m with enters := m.enters.remove tid }
    if ctx.reserved then
      modify fun m => { m with events := m.events ++ [recordOf ctx m enter] }

def sysExit (ctx : ExitCtx) (m : Maps) : Maps := ((tryExit ctx).run m).2

/-- What `sched_process_fork` reads of its context. -/
structure ForkCtx where
  parent : Except Int64 Int32
  child : Except Int64 Int32

/-- `unwrap_or(0)`. -/
def orZero : Except Int64 Int32 → Int32
  | .ok pid => pid
  | .error _ => 0

def tryFork (ctx : ForkCtx) : ExceptT Int64 (StateM Maps) Unit := do
  let parent := orZero ctx.parent
  let child := orZero ctx.child
  if isTarget (← get) parent.toUInt32 then
    modify fun m => { m with targets := m.targets.insert child.toUInt32 1 }

def schedProcessFork (ctx : ForkCtx) (m : Maps) : Maps := ((tryFork ctx).run m).2

/-- The capture leaves every other field of the record alone. -/
theorem capturePath_eq (ctx : ExitCtx) (m : Maps) (r : Record) (enter : Enter) :
    ∃ cap addr len, capturePath ctx m r enter =
      { r with cap := cap, capAddr := addr, capLen := len } := by
  unfold capturePath
  dsimp only
  split_ifs
  · exact ⟨_, _, _, rfl⟩
  · split
    · split_ifs
      · exact ⟨_, _, _, rfl⟩
      · split <;> exact ⟨_, _, _, rfl⟩
      · exact ⟨_, _, _, rfl⟩
    · exact ⟨_, _, _, rfl⟩

variable {m : Maps}

theorem sysEnter_other {ctx : EnterCtx} (h : isTarget m ctx.pidTgid.toUInt32 = false) :
    sysEnter ctx m = m := by
  change (((if isTarget m ctx.pidTgid.toUInt32 then _ else pure ()) :
    ExceptT Int64 (StateM Maps) Unit).run m).2 = m
  rw [h]
  rfl

theorem sysEnter_unread {ctx : EnterCtx} {e : Int64} (h : ctx.raw = .error e) :
    sysEnter ctx m = m := by
  obtain ⟨pidTgid, raw, now⟩ := ctx
  cases h
  change (((if isTarget m pidTgid.toUInt32 then _ else pure ()) :
    ExceptT Int64 (StateM Maps) Unit).run m).2 = m
  split_ifs <;> rfl

theorem sysEnter_target {ctx : EnterCtx} {raw : RawEnter} (hr : ctx.raw = .ok raw)
    (h : isTarget m ctx.pidTgid.toUInt32 = true) :
    sysEnter ctx m =
      let enter : Enter := ⟨raw.id.toUInt64, raw.args, ctx.now⟩
      { m with enters := m.enters.insert ctx.pidTgid.toUInt32 enter } := by
  obtain ⟨pidTgid, raw, now⟩ := ctx
  cases hr
  change (((if isTarget m pidTgid.toUInt32 then _ else pure ()) :
    ExceptT Int64 (StateM Maps) Unit).run m).2 = _
  rw [if_pos h]
  rfl

theorem sysExit_none {ctx : ExitCtx} (h : m.enters.get ctx.pidTgid.toUInt32 = none) :
    sysExit ctx m = m := by
  unfold sysExit tryExit
  change ((match m.enters.get ctx.pidTgid.toUInt32 with
    | none => pure ()
    | some enter => _ : ExceptT Int64 (StateM Maps) Unit).run m).2 = m
  rw [h]
  rfl

theorem sysExit_some {ctx : ExitCtx} {enter : Enter}
    (h : m.enters.get ctx.pidTgid.toUInt32 = some enter) : sysExit ctx m = { m with
      enters := m.enters.remove ctx.pidTgid.toUInt32
      events := if ctx.reserved then m.events ++ [recordOf ctx m enter] else m.events } := by
  unfold sysExit tryExit
  change ((match m.enters.get ctx.pidTgid.toUInt32 with
    | none => pure ()
    | some enter => _ : ExceptT Int64 (StateM Maps) Unit).run m).2 = _
  rw [h]
  cases ctx.reserved <;> rfl

theorem sysEnter_targets (ctx : EnterCtx) : (sysEnter ctx m).targets = m.targets := by
  cases hr : ctx.raw with
  | error e => rw [sysEnter_unread hr]
  | ok raw =>
    cases h : isTarget m ctx.pidTgid.toUInt32 with
    | false => rw [sysEnter_other h]
    | true => rw [sysEnter_target hr h]

theorem sysExit_targets (ctx : ExitCtx) : (sysExit ctx m).targets = m.targets := by
  cases h : m.enters.get ctx.pidTgid.toUInt32 with
  | none => rw [sysExit_none h]
  | some enter => rw [sysExit_some h]

theorem schedProcessFork_eq (ctx : ForkCtx) : schedProcessFork ctx m =
    if isTarget m (orZero ctx.parent).toUInt32 then
      { m with targets := m.targets.insert (orZero ctx.child).toUInt32 1 }
    else m := by
  change (((if isTarget m (orZero ctx.parent).toUInt32 then _ else pure ()) :
    ExceptT Int64 (StateM Maps) Unit).run m).2 = _
  split_ifs <;> rfl

end Syren.Kernel
