import Mathlib.Order.Lattice
import Syren.Kernel.Enters
import Syren.Trace.Ebpf
import Syren.Trace.Timing

/-! Timestamps of the records, and userspace's count from a baseline that it read before. A step of
a run stands where the program submits its record or returns. The clock is read before that, so for
tasks on different processors the steps need not come in the order of the readings; under one tid
they do. -/
namespace Syren.Kernel
open Interaction Function

/-- The reading of the clock that a tracepoint takes under a tid. -/
def Action.now (tid : UInt32) : Action → Option UInt64
  | .enter _ _ ctx => if ctx.pidTgid.toUInt32 = tid then some ctx.now else none
  | .exit _ ctx => if ctx.pidTgid.toUInt32 = tid then some ctx.now else none
  | _ => none

/-- The readings under a tid, in order. -/
def readings (tid : UInt32) (l : List (Action × System)) : List UInt64 :=
  l.filterMap fun x => x.1.now tid

/-- When the kept calls began, by tid. -/
def openedAt (m : Maps) (tid : UInt32) : Option ℕ := (m.enters.get tid).map fun e => e.ts.toNat

/-- What is told under a tid. -/
def toldOf (s : System) (tid : UInt32) : List Record :=
  (s.told.map Prod.fst).filter fun r => r.tid = tid

/-- The events that userspace makes of the records told under a tid. -/
def reported (baseline : UInt64) (s : System) (tid : UInt32) : List SyscallEvent :=
  (toldOf s tid).map fun r => EbpfTracer.recordToEvent r baseline

def recordInterval (r : Record) : Interval UInt32 ℕ :=
  ⟨r.tid, r.tsEnterNs.toNat, r.tsEnterNs.toNat + r.durationNs.toNat⟩

def intervals (s : System) (tid : UInt32) : List (Interval UInt32 ℕ) :=
  (toldOf s tid).map recordInterval

/-- When the kept call under a tid began, with no other tid open. -/
def opened (m : Maps) (tid : UInt32) : UInt32 → Option ℕ :=
  fun k => if k = tid then openedAt m tid else none

variable {follow : Bool} {s s' : System} {a : Action} {m : Maps} {tid : UInt32}

theorem openedAt_sysEnter {ctx : EnterCtx} {b : ℕ}
    (hb : openedAt (sysEnter ctx m) tid = some b) :
    openedAt m tid = some b ∨ (ctx.pidTgid.toUInt32 = tid ∧ b = ctx.now.toNat) := by
  cases hr : ctx.raw with
  | error e =>
    rw [sysEnter_unread hr] at hb
    exact .inl hb
  | ok raw =>
    cases htarget : isTarget m ctx.pidTgid.toUInt32 with
    | false =>
      rw [sysEnter_other htarget] at hb
      exact .inl hb
    | true =>
      rw [sysEnter_target hr htarget] at hb
      dsimp only [openedAt] at hb
      by_cases htid : tid = ctx.pidTgid.toUInt32
      · subst htid
        obtain ⟨enter, hget, rfl⟩ := Option.map_eq_some_iff.mp hb
        rw [BoundedMap.eq_of_get_insert_self hget]
        exact .inr ⟨rfl, rfl⟩
      · rw [BoundedMap.get_insert_of_ne htid] at hb
        exact .inl hb

theorem openedAt_sysExit {ctx : ExitCtx} {b : ℕ}
    (hb : openedAt (sysExit ctx m) tid = some b) : openedAt m tid = some b := by
  obtain ⟨hgone, hsame⟩ := sysExit_enters (m := m) (rfl : ctx.pidTgid.toUInt32 = _)
  unfold openedAt at hb ⊢
  by_cases htid : tid = ctx.pidTgid.toUInt32
  · rw [htid, hgone] at hb
    cases hb
  · rwa [hsame tid htid] at hb

theorem recordOf_tid (ctx : ExitCtx) (m : Maps) (enter : Enter) :
    (recordOf ctx m enter).tid = ctx.pidTgid.toUInt32 := (recordOf_own ctx m enter).task.1

/-- The record of a call that began before it ended spans the two readings. -/
theorem interval_recordOf {ctx : ExitCtx} {enter : Enter} (h : enter.ts ≤ ctx.now) :
    recordInterval (recordOf ctx m enter) =
      ⟨ctx.pidTgid.toUInt32, enter.ts.toNat, ctx.now.toNat⟩ := by
  obtain ⟨cap, addr, len, hrec⟩ := capturePath_eq ctx m _ enter
  rw [recordOf, hrec]
  unfold recordInterval
  dsimp only
  rw [if_pos h, UInt64.toNat_sub_of_le _ _ h]
  have hle := UInt64.le_iff_toNat_le.mp h
  congr 1
  omega

theorem sysExit_submitted {ctx : ExitCtx} {e : Enter}
    (he : m.enters.get ctx.pidTgid.toUInt32 = some e) :
    (sysExit ctx m).events.drop m.events.length =
      if ctx.reserved then [recordOf ctx m e] else [] := by
  rw [sysExit_some he]
  dsimp only
  split_ifs <;> simp

theorem toldOf_exited (s : System) (id : TaskId) (t : Task) (enter : Option Enter)
    (ctx : ExitCtx) : toldOf (s.exited id t enter ctx) tid = toldOf s tid ++
      ((sysExit ctx s.maps).events.drop s.maps.events.length).filter fun r => r.tid = tid := by
  simp [toldOf, System.exited, Function.comp_def]

/-- A `sys_exit` under another tid tells nothing under this one. -/
theorem toldOf_elsewhere (s : System) (id : TaskId) (t : Task) (enter : Option Enter)
    {ctx : ExitCtx} (h : ctx.pidTgid.toUInt32 ≠ tid) :
    toldOf (s.exited id t enter ctx) tid = toldOf s tid := by
  rw [toldOf_exited, List.append_right_eq_self, List.filter_eq_nil_iff]
  intro r hr
  obtain ⟨e, -, rfl⟩ := sysExit_records rfl hr
  simpa [recordOf_tid] using h

/-- A `sys_exit` under the tid with no kept call tells nothing, and with one its record. -/
theorem toldOf_here (s : System) (id : TaskId) (t : Task) (enter : Option Enter)
    {ctx : ExitCtx} (h : ctx.pidTgid.toUInt32 = tid) :
    (s.maps.enters.get tid = none ∧ toldOf (s.exited id t enter ctx) tid = toldOf s tid) ∨
      ∃ e, s.maps.enters.get tid = some e ∧ toldOf (s.exited id t enter ctx) tid =
        toldOf s tid ++ if ctx.reserved then [recordOf ctx s.maps e] else [] := by
  subst h
  rw [toldOf_exited]
  cases he : s.maps.enters.get ctx.pidTgid.toUInt32 with
  | none => exact .inl ⟨rfl, by simp [sysExit_none he]⟩
  | some e =>
    refine .inr ⟨e, rfl, ?_⟩
    rw [sysExit_submitted he]
    split_ifs <;> simp [recordOf_tid]

/-- What opens a call under the tid is a reading under the tid. -/
theorem Step.opens (h : Step follow s a s') {b : ℕ} (hb : openedAt s'.maps tid = some b) :
    openedAt s.maps tid = some b ∨ ∃ n, a.now tid = some n ∧ b = n.toNat := by
  cases a with
  | enter id raw ctx =>
    obtain ⟨t, -, -, -, -, rfl⟩ := h
    rcases openedAt_sysEnter hb with hold | ⟨htid, rfl⟩
    · exact .inl hold
    · exact .inr ⟨ctx.now, if_pos htid, rfl⟩
  | exit id ctx =>
    obtain ⟨t, enter, kept, -, -, -, -, rfl⟩ := h
    exact .inl (openedAt_sysExit hb)
  | die id =>
    obtain ⟨t, -, rfl⟩ := h
    exact .inl hb
  | create parent child k tgid ctx =>
    obtain ⟨p, -, -, -, -, -, -, rfl⟩ := h
    rw [openedAt, created_enters] at hb
    exact .inl hb
  | exec id leader =>
    obtain ⟨t, l, enter, kept, -, -, -, -, -, -, rfl⟩ := h
    exact .inl hb

/-- What is told under the tid is the record of a call kept under it, which ends at a reading. -/
theorem Step.tells (h : Step follow s a s') (tid : UInt32) : toldOf s' tid = toldOf s tid ∨
    ∃ e ctx, openedAt s.maps tid = some e.ts.toNat ∧ openedAt s'.maps tid = none ∧
      a.now tid = some ctx.now ∧ ctx.pidTgid.toUInt32 = tid ∧
      toldOf s' tid = toldOf s tid ++ [recordOf ctx s.maps e] := by
  cases a with
  | enter id raw ctx =>
    obtain ⟨t, -, -, -, -, rfl⟩ := h
    exact .inl rfl
  | exit id ctx =>
    obtain ⟨t, enter, kept, -, -, -, -, rfl⟩ := h
    by_cases htid : ctx.pidTgid.toUInt32 = tid
    · rcases toldOf_here s id t enter htid with ⟨-, hsame⟩ | ⟨e, he, htold⟩
      · exact .inl hsame
      · split_ifs at htold
        · refine .inr ⟨e, ctx, ?_, ?_, if_pos htid, htid, htold⟩
          · rw [openedAt, he, Option.map_some]
          · show openedAt (sysExit ctx s.maps) tid = none
            rw [openedAt, (sysExit_enters htid).1, Option.map_none]
        · exact .inl (htold.trans (List.append_nil _))
    · exact .inl (toldOf_elsewhere s id t enter htid)
  | die id =>
    obtain ⟨t, -, rfl⟩ := h
    exact .inl rfl
  | create parent child k tgid ctx =>
    obtain ⟨p, -, -, -, -, -, -, rfl⟩ := h
    exact .inl rfl
  | exec id leader =>
    obtain ⟨t, l, enter, kept, -, -, -, -, -, -, rfl⟩ := h
    exact .inl rfl

theorem opened_self (m : Maps) (tid : UInt32) : opened m tid tid = openedAt m tid := if_pos rfl

theorem opened_some {k : UInt32} {b : ℕ} (h : opened m tid k = some b) :
    k = tid ∧ openedAt m tid = some b := by
  unfold opened at h
  split_ifs at h with hk
  exact ⟨hk, h⟩

/-- A step at or after `now`, by the clock under the tid, keeps the intervals of the tid in
order. -/
theorem Step.timed (h : Step follow s a s') {now now' : ℕ} (hle : now ≤ now')
    (hnow : ∀ n, a.now tid = some n → n.toNat = now')
    (ht : Timed (opened s.maps tid) (intervals s tid) now) :
    Timed (opened s'.maps tid) (intervals s' tid) now' := by
  have hopen (k : UInt32) (b : ℕ) (hb : opened s'.maps tid k = some b) :
      opened s.maps tid k = some b ∨ b = now' := by
    obtain ⟨rfl, hb⟩ := opened_some hb
    rw [opened_self]
    refine (h.opens hb).imp_right fun hread => ?_
    obtain ⟨n, hn, rfl⟩ := hread
    exact hnow n hn
  rcases h.tells tid with hsame | ⟨e, ctx, he, hgone, hread, htid, htold⟩
  · rw [intervals, hsame]
    exact ht.later hle hopen
  · have hself : opened s.maps tid tid = some e.ts.toNat := (opened_self ..).trans he
    have hclosed : opened s'.maps tid tid = none := (opened_self ..).trans hgone
    have hts : e.ts ≤ ctx.now := by
      rw [UInt64.le_iff_toNat_le, hnow ctx.now hread]
      exact (ht.begun _ _ hself).trans hle
    have hclose := ht.close hle hself hclosed fun k b hb => by
      obtain ⟨rfl, hb⟩ := opened_some hb
      cases hgone.symm.trans hb
    rw [intervals, htold, List.map_append, List.map_singleton, interval_recordOf hts, htid,
      hnow ctx.now hread]
    exact hclose

/-- Every time that the tables and the records hold under the tid is one of the readings `R`. -/
structure Stamped (R : List UInt64) (s : System) (tid : UInt32) : Prop where
  opened : ∀ b, openedAt s.maps tid = some b → b ∈ R.map UInt64.toNat
  closed : ∀ x ∈ intervals s tid, x.first ∈ R.map UInt64.toNat ∧ x.last ∈ R.map UInt64.toNat

theorem Stamped.mono {R R' : List UInt64} (h : Stamped R s tid) (hsub : R ⊆ R') :
    Stamped R' s tid where
  opened b hb := List.map_subset _ hsub (h.opened b hb)
  closed x hx := by
    obtain ⟨hfirst, hlast⟩ := h.closed x hx
    exact ⟨List.map_subset _ hsub hfirst, List.map_subset _ hsub hlast⟩

theorem Step.stamped (h : Step follow s a s') {R : List UInt64} {now : ℕ}
    (hR : ∀ n, a.now tid = some n → n ∈ R ∧ now ≤ n.toNat)
    (ht : Timed (opened s.maps tid) (intervals s tid) now) (hs : Stamped R s tid) :
    Stamped R s' tid := by
  refine ⟨fun b hb => ?_, fun x hx => ?_⟩
  · rcases h.opens hb with hold | ⟨n, hn, rfl⟩
    · exact hs.opened b hold
    · exact List.mem_map_of_mem (hR n hn).1
  · rcases h.tells tid with hsame | ⟨e, ctx, he, -, hread, htid, htold⟩
    · rw [intervals, hsame] at hx
      exact hs.closed x hx
    · rw [intervals, htold, List.map_append, List.map_singleton] at hx
      obtain ⟨hin, hlate⟩ := hR ctx.now hread
      have hts : e.ts ≤ ctx.now := UInt64.le_iff_toNat_le.mpr
        ((ht.begun _ _ ((opened_self ..).trans he)).trans hlate)
      rcases List.mem_append.mp hx with hx | hx
      · exact hs.closed x hx
      · obtain rfl := List.mem_singleton.mp hx
        rw [interval_recordOf hts]
        exact ⟨hs.opened _ he, List.mem_map_of_mem hin⟩

theorem readings_concat (l : List (Action × System)) (x : Action × System) :
    readings tid (l ++ [x]) = readings tid l ++ (x.1.now tid).toList := by
  cases h : x.1.now tid <;> simp [readings, h]

/-- At every time from the last reading on, what a run has told under a tid is in order and
stamped. -/
theorem timed_run (hs : Loaded s) {l : List (Action × System)} (h : IsRun (Step follow) s l)
    (hclock : (readings tid l).Pairwise (· ≤ ·)) {bound : ℕ}
    (hb : ∀ n ∈ readings tid l, n.toNat ≤ bound) :
    Timed (opened (lastState s l).maps tid) (intervals (lastState s l) tid) bound ∧
      Stamped (readings tid l) (lastState s l) tid := by
  revert bound hclock
  refine h.induction (motive := fun l => (readings tid l).Pairwise (· ≤ ·) →
    ∀ {bound : ℕ}, (∀ n ∈ readings tid l, n.toNat ≤ bound) →
      Timed (opened (lastState s l).maps tid) (intervals (lastState s l) tid) bound ∧
        Stamped (readings tid l) (lastState s l) tid) (fun _ bound _ => ?_)
    fun l x _ ih hx hc bound hb => ?_
  · obtain ⟨-, hnone, htold⟩ := hs
    have hopen : openedAt s.maps tid = none := by rw [openedAt, hnone]; rfl
    have hnil : intervals s tid = [] := by rw [intervals, toldOf, htold]; rfl
    rw [lastState_nil, hnil]
    refine ⟨.start fun k => ?_, fun b hb => ?_, fun y hy => ?_⟩
    · unfold opened
      rw [hopen, ite_self]
    · rw [hopen] at hb
      cases hb
    · rw [hnil] at hy
      cases hy
  · rw [lastState_concat]
    rw [readings_concat] at hc hb ⊢
    obtain ⟨hcl, -, hlast⟩ := List.pairwise_append.mp hc
    cases hnow : x.1.now tid with
    | none =>
      have hnot : ∀ n, x.1.now tid ≠ some n := by simp [hnow]
      obtain ⟨ht, hstamped⟩ := ih hcl fun n hn => hb n (List.mem_append_left _ hn)
      rw [Option.toList_none, List.append_nil]
      exact ⟨hx.timed le_rfl (fun n hn => absurd hn (hnot n)) ht,
        hx.stamped (fun n hn => absurd hn (hnot n)) ht hstamped⟩
    | some n =>
      rw [hnow] at hlast hb
      obtain ⟨ht, hstamped⟩ := ih hcl fun k hk =>
        UInt64.le_iff_toNat_le.mp (hlast k hk n (by simp))
      have hsub : readings tid l ⊆ readings tid l ++ [n] := List.subset_append_left _ _
      have hread (k : UInt64) (hk : x.1.now tid = some k) : k = n := by
        cases hnow.symm.trans hk
        rfl
      refine ⟨?_, hx.stamped (fun k hk => ?_) ht (hstamped.mono hsub)⟩
      · have hstep := hx.timed le_rfl (fun k hk => congrArg _ (hread k hk)) ht
        exact hstep.later (hb n (by simp)) fun _ _ => .inl
      · rw [hread k hk]
        exact ⟨by simp, le_rfl⟩

theorem recordToEvent_times {r : Record} {baseline : UInt64} (h : baseline ≤ r.tsEnterNs) :
    (EbpfTracer.recordToEvent r baseline).tsEnterNs.toNat =
        (recordInterval r).first - baseline.toNat ∧
      (EbpfTracer.recordToEvent r baseline).exitNs =
        (recordInterval r).last - baseline.toNat := by
  have hle := UInt64.le_iff_toNat_le.mp h
  unfold SyscallEvent.exitNs EbpfTracer.recordToEvent recordInterval
  dsimp only
  rw [if_pos h, UInt64.toNat_sub_of_le _ _ h]
  omega

/-- In every run in which the clock never goes back under one tid, userspace with a baseline read
before reports the calls of each tid in the order of their returns, one after the other, and each
of them from one reading of the clock under the tid to another. -/
theorem records_in_order (run : Run Loaded (Step follow)) (tid : UInt32)
    (hclock : (readings tid run.steps).Pairwise (· ≤ ·)) {baseline : UInt64}
    (hb : ∀ n ∈ readings tid run.steps, baseline ≤ n) :
    InOrder (reported baseline (lastState run.start run.steps) tid) ∧
      ∀ ev ∈ reported baseline (lastState run.start run.steps) tid, ev.tid = tid ∧
        (∃ n ∈ readings tid run.steps, n.toNat = baseline.toNat + ev.tsEnterNs.toNat) ∧
          ∃ n ∈ readings tid run.steps, n.toNat = baseline.toNat + ev.exitNs := by
  obtain ⟨ht, hs⟩ := timed_run run.starts run.valid hclock fun n _ => n.toNat_lt.le
  have hordered := List.pairwise_map.mp ht.ordered
  have stamped (r : Record) (hr : r ∈ toldOf (lastState run.start run.steps) tid) :=
    hs.closed _ (List.mem_map_of_mem (f := recordInterval) hr)
  have after (r : Record) (hr : r ∈ toldOf (lastState run.start run.steps) tid) :
      baseline ≤ r.tsEnterNs := by
    obtain ⟨n, hn, he⟩ := List.mem_map.mp (stamped r hr).1
    rw [← UInt64.toNat_inj.mp he]
    exact hb n hn
  refine ⟨List.pairwise_map.mpr (hordered.imp_of_mem fun {x y} hx hy hxy => ?_), fun ev hev => ?_⟩
  · obtain ⟨-, hlast⟩ := recordToEvent_times (after x hx)
    obtain ⟨hfirst', hlast'⟩ := recordToEvent_times (after y hy)
    rw [hlast, hlast', hfirst']
    exact ⟨Nat.sub_le_sub_right hxy.1 _, fun htid => Nat.sub_le_sub_right (hxy.2 htid) _⟩
  · obtain ⟨r, hr, rfl⟩ := List.mem_map.mp hev
    obtain ⟨hfirst, hlast⟩ := recordToEvent_times (after r hr)
    obtain ⟨hread, hread'⟩ := stamped r hr
    obtain ⟨n, hn, he⟩ := List.mem_map.mp hread
    obtain ⟨k, hk, he'⟩ := List.mem_map.mp hread'
    have hle : baseline.toNat ≤ (recordInterval r).first :=
      UInt64.le_iff_toNat_le.mp (after r hr)
    have hforward := (ht.forward _ (List.mem_map_of_mem (f := recordInterval) hr)).1
    refine ⟨of_decide_eq_true (List.mem_filter.mp hr).2, ⟨n, hn, ?_⟩, k, hk, ?_⟩
    · rw [hfirst, he, Nat.add_sub_cancel' hle]
    · rw [hlast, he', Nat.add_sub_cancel' (hle.trans hforward)]

theorem records_in_order_callRun :
    InOrder (reported 3 (lastState callRun.start callRun.steps) 7) ∧
      ∀ ev ∈ reported 3 (lastState callRun.start callRun.steps) 7, ev.tid = 7 ∧
        (∃ n ∈ readings 7 callRun.steps, n.toNat = (3 : UInt64).toNat + ev.tsEnterNs.toNat) ∧
          ∃ n ∈ readings 7 callRun.steps, n.toNat = (3 : UInt64).toNat + ev.exitNs := by
  have hread : readings 7 callRun.steps = [5, 9] := rfl
  refine records_in_order callRun 7 ?_ ?_
  · rw [hread]
    simp
  · rw [hread]
    simp

end Syren.Kernel
