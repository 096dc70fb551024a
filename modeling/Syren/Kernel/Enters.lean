import Mathlib.Data.Set.Card
import Syren.Kernel.Pairing

/-! What `ENTERS` holds over whole runs, and from it which calls of the traced tasks are recorded:
the table is shared by the calls under way and by those that will never return. -/
namespace Syren.Kernel
open Interaction Function

/-- The task is in a call whose `sys_enter` was kept. -/
def Task.Kept (t : Task) : Prop := ∃ e, t.mode = .inCall e true

/-- The tid of a living task in a kept call. -/
def Busy (s : System) (tid : UInt32) : Prop := ∃ id t, s.task id = some t ∧ t.tid = tid ∧ t.Kept

/-- `ENTERS` holds an entry for each task in a kept call and for each orphaned tid, and no tid is
both. -/
structure Held (s : System) : Prop where
  keys : ∀ tid, (s.maps.enters.get tid).isSome ↔ Busy s tid ∨ tid ∈ s.orphaned
  apart : ∀ tid, Busy s tid → tid ∉ s.orphaned

variable {follow : Bool} {s s' : System} {a : Action}

theorem not_kept_user {t : Task} (h : t.mode = .user) : ¬ t.Kept := by
  rintro ⟨e, he⟩
  cases h.symm.trans he

theorem kept_iff {t : Task} {enter : Option Enter} {kept : Bool} (h : t.mode = .inCall enter kept) :
    t.Kept ↔ kept = true := by
  constructor
  · rintro ⟨e, he⟩
    cases h.symm.trans he
    rfl
  · rintro rfl
    exact ⟨enter, h⟩

theorem mem_unanswered_iff {t : Task} {tid : UInt32} :
    tid ∈ unanswered t ↔ t.tid = tid ∧ t.Kept := by
  unfold unanswered
  split
  next e hm => simp [(kept_iff hm).mpr rfl, eq_comm]
  next hm =>
    have hnot : ¬ t.Kept := fun ⟨e, he⟩ => hm e he
    simp [hnot]

/-- With distinct tids a living task alone decides whether its tid is busy. -/
theorem busy_self (hd : DistinctTids s) {id : TaskId} {t : Task} (ht : s.task id = some t) :
    Busy s t.tid ↔ t.Kept := by
  constructor
  · rintro ⟨i, u, hu, hut, hkept⟩
    cases hd i id u t hu ht hut
    cases ht.symm.trans hu
    exact hkept
  · intro hkept
    exact ⟨id, t, ht, rfl, hkept⟩

/-- A step that leaves the tasks of a tid alone leaves alone whether it is busy. -/
theorem busy_congr {tid : UInt32}
    (h : ∀ i u, u.tid = tid → (s'.task i = some u ↔ s.task i = some u)) :
    Busy s' tid ↔ Busy s tid :=
  exists_congr fun i => exists_congr fun u => by
    constructor
    · rintro ⟨hu, hut, hk⟩
      exact ⟨(h i u hut).mp hu, hut, hk⟩
    · rintro ⟨hu, hut, hk⟩
      exact ⟨(h i u hut).mpr hu, hut, hk⟩

theorem busy_retask {id : TaskId} {t t' : Task} (ht : s.task id = some t)
    (hs : s'.task = update s.task id (some t')) (htid : t'.tid = t.tid) {tid : UInt32}
    (hne : tid ≠ t.tid) : Busy s' tid ↔ Busy s tid := by
  refine busy_congr fun i u hut => ?_
  rw [hs, update_eq_some]
  constructor
  · rintro (⟨-, hset⟩ | ⟨-, hu⟩)
    · cases hset
      exact absurd (hut.symm.trans htid) hne
    · exact hu
  · intro hu
    refine .inr ⟨?_, hu⟩
    rintro rfl
    cases ht.symm.trans hu
    exact hne hut.symm

theorem Held.entered (h : Held s) (hd : DistinctTids s) {id : TaskId} {t : Task} {raw : RawEnter}
    {ctx : EnterCtx} (ht : s.task id = some t) (hm : t.mode = .user)
    (htid : ctx.pidTgid.toUInt32 = t.tid) (hraw : ∀ r, ctx.raw = .ok r → r = raw) :
    Held (s.entered id t raw ctx) := by
  have hidle : ¬ Busy s t.tid := fun hb => not_kept_user hm ((busy_self hd ht).mp hb)
  have hother (tid : UInt32) (hne : tid ≠ t.tid) :
      Busy (s.entered id t raw ctx) tid ↔ Busy s tid := by
    have hs : (s.entered id t raw ctx).task = update s.task id _ := rfl
    exact busy_retask ht hs rfl hne
  have hself : Busy (s.entered id t raw ctx) t.tid ↔ keeps s.maps t.tid ctx = true := by
    have hd' : DistinctTids (s.entered id t raw ctx) := hd.retask ht rfl rfl
    have hnow : (s.entered id t raw ctx).task id = some { t with
        mode := .inCall (some (enterData raw ctx)) (keeps s.maps t.tid ctx) } := update_self ..
    exact (busy_self hd' hnow).trans (kept_iff rfl)
  cases hkept : keeps s.maps t.tid ctx with
  | true =>
    obtain ⟨hin, hsame⟩ := sysEnter_kept htid hraw hkept
    have horphaned : (s.entered id t raw ctx).orphaned = s.orphaned.erase t.tid := if_pos hkept
    refine ⟨fun tid => ?_, fun tid hb => ?_⟩
    · by_cases hne : tid = t.tid
      · subst hne
        show ((sysEnter ctx s.maps).enters.get t.tid).isSome ↔ _
        simp [hin, hself, hkept]
      · show ((sysEnter ctx s.maps).enters.get tid).isSome ↔ _
        rw [hsame tid hne, h.keys, hother tid hne, horphaned]
        simp [hne]
    · rw [horphaned]
      by_cases hne : tid = t.tid
      · simp [hne]
      · exact fun hin => h.apart tid ((hother tid hne).mp hb) (Finset.mem_of_mem_erase hin)
  | false =>
    have horphaned : (s.entered id t raw ctx).orphaned = s.orphaned :=
      if_neg (by simp [hkept])
    have hbusy (tid : UInt32) : Busy (s.entered id t raw ctx) tid ↔ Busy s tid := by
      by_cases hne : tid = t.tid
      · subst hne
        simp [hself, hkept, hidle]
      · exact hother tid hne
    refine ⟨fun tid => ?_, fun tid hb => ?_⟩
    · show ((sysEnter ctx s.maps).enters.get tid).isSome ↔ _
      rw [sysEnter_unkept htid hkept, h.keys, hbusy, horphaned]
    · rw [horphaned]
      exact h.apart tid ((hbusy tid).mp hb)

theorem Held.exited (h : Held s) (hd : DistinctTids s) {id : TaskId} {t : Task}
    {enter : Option Enter} {ctx : ExitCtx} (ht : s.task id = some t)
    (htid : ctx.pidTgid.toUInt32 = t.tid) : Held (s.exited id t enter ctx) := by
  obtain ⟨hgone, hsame⟩ := sysExit_enters (m := s.maps) htid
  have hd' : DistinctTids (s.exited id t enter ctx) := hd.retask ht rfl rfl
  have hself : ¬ Busy (s.exited id t enter ctx) t.tid := by
    have hnow : (s.exited id t enter ctx).task id = some { t with mode := .user } := update_self ..
    exact fun hb => not_kept_user rfl ((busy_self hd' hnow).mp hb)
  have hother (tid : UInt32) (hne : tid ≠ t.tid) :
      Busy (s.exited id t enter ctx) tid ↔ Busy s tid := by
    have hs : (s.exited id t enter ctx).task = update s.task id _ := rfl
    exact busy_retask ht hs rfl hne
  refine ⟨fun tid => ?_, fun tid hb => ?_⟩
  · show ((sysExit ctx s.maps).enters.get tid).isSome ↔ _ ∨ tid ∈ s.orphaned.erase t.tid
    by_cases hne : tid = t.tid
    · subst hne
      simp [hgone, hself]
    · rw [hsame tid hne, h.keys, hother tid hne]
      simp [hne]
  · show tid ∉ s.orphaned.erase t.tid
    by_cases hne : tid = t.tid
    · simp [hne]
    · exact fun hin => h.apart tid ((hother tid hne).mp hb) (Finset.mem_of_mem_erase hin)

theorem Held.died (h : Held s) (hd : DistinctTids s) {id : TaskId} {t : Task}
    (ht : s.task id = some t) : Held (s.died id t) := by
  have hself : ¬ Busy (s.died id t) t.tid := by
    rintro ⟨i, u, hu, hut, -⟩
    rcases update_eq_some.mp hu with ⟨-, hnone⟩ | ⟨hne, hu⟩
    · cases hnone
    · exact hne (hd i id u t hu ht hut)
  have hother (tid : UInt32) (hne : tid ≠ t.tid) : Busy (s.died id t) tid ↔ Busy s tid := by
    refine busy_congr fun i u hut => ?_
    show update s.task id none i = some u ↔ _
    rw [update_eq_some]
    constructor
    · rintro (⟨-, hnone⟩ | ⟨-, hu⟩)
      · cases hnone
      · exact hu
    · intro hu
      refine .inr ⟨?_, hu⟩
      rintro rfl
      cases ht.symm.trans hu
      exact hne hut.symm
  refine ⟨fun tid => ?_, fun tid hb => ?_⟩
  · show (s.maps.enters.get tid).isSome ↔ _ ∨ tid ∈ s.orphaned ∪ unanswered t
    rw [h.keys, Finset.mem_union, mem_unanswered_iff]
    by_cases hne : tid = t.tid
    · subst hne
      simp [busy_self hd ht, hself, or_comm]
    · simp [hother tid hne, Ne.symm hne]
  · show tid ∉ s.orphaned ∪ unanswered t
    have hne : tid ≠ t.tid := by
      rintro rfl
      exact hself hb
    rw [Finset.mem_union, mem_unanswered_iff, not_or]
    exact ⟨h.apart tid ((hother tid hne).mp hb), fun hin => hne hin.1.symm⟩

theorem created_enters (s : System) (parent child : TaskId) (tid tgid : UInt32)
    (ctx : ForkCtx) : (s.created follow parent child tid tgid ctx).maps.enters =
      s.maps.enters := by
  cases follow with
  | true => exact schedProcessFork_enters ctx
  | false => rfl

theorem Held.created (h : Held s) {parent child : TaskId} {tid tgid : UInt32} {ctx : ForkCtx}
    (hc : s.task child = none) : Held (s.created follow parent child tid tgid ctx) := by
  have hbusy (k : UInt32) : Busy (s.created follow parent child tid tgid ctx) k ↔ Busy s k := by
    constructor
    · rintro ⟨i, u, hu, hut, hk⟩
      rcases update_eq_some.mp hu with ⟨-, hnew⟩ | ⟨-, hu⟩
      · cases hnew
        exact absurd ((kept_iff rfl).mp hk) Bool.false_ne_true
      · exact ⟨i, u, hu, hut, hk⟩
    · rintro ⟨i, u, hu, hut, hk⟩
      refine ⟨i, u, update_eq_some.mpr (.inr ⟨?_, hu⟩), hut, hk⟩
      rintro rfl
      cases hc.symm.trans hu
  refine ⟨fun k => ?_, fun k hb => h.apart k ((hbusy k).mp hb)⟩
  rw [created_enters, h.keys, hbusy]
  exact Iff.rfl

theorem Held.execed (h : Held s) (hd : DistinctTids s) {id leader : TaskId} {t l : Task}
    {enter : Option Enter} (hne : id ≠ leader) (ht : s.task id = some t)
    (hl : s.task leader = some l) : Held (s.execed id leader t l enter) := by
  have living (i : TaskId) (u : Task) : (s.execed id leader t l enter).task i = some u ↔
      (i = id ∧ u = ⟨l.tid, l.tgid, .inCall enter false⟩) ∨
        (i ≠ id ∧ i ≠ leader ∧ s.task i = some u) := by
    show update (update s.task leader none) id _ i = some u ↔ _
    rw [update_eq_some, update_eq_some]
    simp [eq_comm]
  have htids : t.tid ≠ l.tid := fun he => hne (hd id leader t l ht hl he)
  -- neither the old tid of the thread nor the one it takes over is busy afterwards
  have hidle (k : UInt32) (hk : k = t.tid ∨ k = l.tid) :
      ¬ Busy (s.execed id leader t l enter) k := by
    rintro ⟨i, u, hu, hut, hkept⟩
    rcases (living i u).mp hu with ⟨-, rfl⟩ | ⟨hi, hil, hu⟩
    · exact absurd ((kept_iff rfl).mp hkept) Bool.false_ne_true
    · rcases hk with rfl | rfl
      · exact hi (hd i id u t hu ht hut)
      · exact hil (hd i leader u l hu hl hut)
  have hother (k : UInt32) (hkt : k ≠ t.tid) (hkl : k ≠ l.tid) :
      Busy (s.execed id leader t l enter) k ↔ Busy s k := by
    refine busy_congr fun i u hut => ?_
    rw [living]
    constructor
    · rintro (⟨-, rfl⟩ | ⟨-, -, hu⟩)
      · exact absurd hut.symm hkl
      · exact hu
    · intro hu
      refine .inr ⟨?_, ?_, hu⟩
      · rintro rfl
        cases ht.symm.trans hu
        exact hkt hut.symm
      · rintro rfl
        cases hl.symm.trans hu
        exact hkl hut.symm
  refine ⟨fun k => ?_, fun k hb => ?_⟩
  · show (s.maps.enters.get k).isSome ↔ _ ∨ k ∈ s.orphaned ∪ unanswered t ∪ unanswered l
    rw [h.keys, Finset.mem_union, Finset.mem_union, mem_unanswered_iff, mem_unanswered_iff]
    by_cases hkt : k = t.tid
    · subst hkt
      simp [busy_self hd ht, hidle, Ne.symm htids, or_comm]
    · by_cases hkl : k = l.tid
      · subst hkl
        simp [busy_self hd hl, hidle, htids, or_comm]
      · simp [hother k hkt hkl, Ne.symm hkt, Ne.symm hkl]
  · show k ∉ s.orphaned ∪ unanswered t ∪ unanswered l
    have hkt : k ≠ t.tid := fun he => hidle k (.inl he) hb
    have hkl : k ≠ l.tid := fun he => hidle k (.inr he) hb
    simp only [Finset.mem_union, mem_unanswered_iff, not_or]
    exact ⟨⟨h.apart k ((hother k hkt hkl).mp hb), fun hin => hkt hin.1.symm⟩,
      fun hin => hkl hin.1.symm⟩

theorem Step.held (h : Step follow s a s') (hd : DistinctTids s) (hh : Held s) : Held s' := by
  cases a with
  | enter id raw ctx =>
    obtain ⟨t, ht, hm, htid, hraw, rfl⟩ := h
    exact hh.entered hd ht hm htid hraw
  | exit id ctx =>
    obtain ⟨t, enter, kept, ht, -, htid, -, rfl⟩ := h
    exact hh.exited hd ht htid
  | die id =>
    obtain ⟨t, ht, rfl⟩ := h
    exact hh.died hd ht
  | create parent child tid tgid ctx =>
    obtain ⟨p, -, -, hc, -, -, -, rfl⟩ := h
    exact hh.created hc
  | exec id leader =>
    obtain ⟨t, l, enter, kept, hne, ht, hl, -, -, -, rfl⟩ := h
    exact hh.execed hd hne ht hl

/-- The programs have just been attached, before any task has left a call unanswered. -/
def Attached (s : System) : Prop :=
  Loaded s ∧ s.orphaned = ∅ ∧ ∀ id t, s.task id = some t → ¬ t.Kept

theorem Attached.held (h : Attached s) : Held s := by
  obtain ⟨⟨-, hnone, -⟩, horphaned, hidle⟩ := h
  have hbusy (tid : UInt32) : ¬ Busy s tid := fun ⟨id, t, ht, _, hk⟩ => hidle id t ht hk
  refine ⟨fun tid => ?_, fun tid hb => absurd hb (hbusy tid)⟩
  simp [hnone, horphaned, hbusy]

theorem held_run (hs : Attached s) {l : List (Action × System)} (h : IsRun (Step follow) s l) :
    DistinctTids (lastState s l) ∧ Held (lastState s l) :=
  h.invariant (P := fun s => DistinctTids s ∧ Held s) ⟨hs.1.1, hs.held⟩
    fun _ _ _ ⟨hd, hh⟩ hstep => ⟨hstep.distinct hd, hstep.held hd hh⟩

/-- How many entries of `ENTERS` are taken: those of the calls under way and those left behind. -/
noncomputable def occupied (s : System) : ℕ := {tid | Busy s tid}.ncard + s.orphaned.card

theorem Held.card_keys (h : Held s) : s.maps.enters.keys.card = occupied s := by
  have hunion : (s.maps.enters.keys : Set UInt32) = {tid | Busy s tid} ∪ s.orphaned := by
    ext tid
    rw [Finset.mem_coe, BoundedMap.mem_keys, h.keys]
    exact Iff.rfl
  have hfinite : {tid | Busy s tid}.Finite := by
    refine s.maps.enters.keys.finite_toSet.subset ?_
    rw [hunion]
    exact Set.subset_union_left
  have hdisjoint : Disjoint {tid | Busy s tid} (s.orphaned : Set UInt32) :=
    Set.disjoint_left.mpr fun tid hb hin => h.apart tid hb (Finset.mem_coe.mp hin)
  calc s.maps.enters.keys.card = (s.maps.enters.keys : Set UInt32).ncard :=
        (Set.ncard_coe_finset _).symm
    _ = ({tid | Busy s tid} ∪ s.orphaned : Set UInt32).ncard := by rw [hunion]
    _ = {tid | Busy s tid}.ncard + (s.orphaned : Set UInt32).ncard :=
        Set.ncard_union_eq hdisjoint hfinite s.orphaned.finite_toSet
    _ = occupied s := by rw [Set.ncard_coe_finset, occupied]

/-- There is room for the call of an idle task. -/
theorem Held.full_iff (h : Held s) {tid : UInt32} (hidle : ¬ Busy s tid) :
    ¬ s.maps.enters.Full tid ↔ tid ∈ s.orphaned ∨ occupied s < 10240 := by
  have hle : occupied s ≤ 10240 := h.card_keys ▸ s.maps.enters.bounded
  rw [BoundedMap.Full, BoundedMap.mem_keys, h.keys, h.card_keys]
  by_cases hin : tid ∈ s.orphaned
  · simp [hin]
  · simp only [hidle, hin, false_or, not_false_eq_true, true_and]
    omega

/-- What a step records. A `sys_enter` is kept for a target whose context can be read, under an
orphaned tid or while `ENTERS` has room; a `sys_exit` with room in the ring tells of the kept call
that it ends, or of the one left behind under the tid. -/
def Accounted (s : System) : Action → System → Prop
  | .enter id _ ctx, s' => s'.told = s.told ∧ ∀ t, s.task id = some t →
      ((∃ u, s'.task id = some u ∧ u.Kept) ↔ isTarget s.maps t.tid = true ∧
        ctx.raw.isOk = true ∧ (t.tid ∈ s.orphaned ∨ occupied s < 10240))
  | .exit id ctx, s' => ∃ new, s'.told = s.told ++ new ∧ new.length ≤ 1 ∧
      ∀ t, s.task id = some t →
        (new ≠ [] ↔ ctx.reserved = true ∧ (t.Kept ∨ t.tid ∈ s.orphaned))
  | _, s' => s'.told = s.told

theorem sysExit_submits (m : Maps) (ctx : ExitCtx) :
    ((sysExit ctx m).events.drop m.events.length).length ≤ 1 ∧
      ((sysExit ctx m).events.drop m.events.length ≠ [] ↔
        ctx.reserved = true ∧ (m.enters.get ctx.pidTgid.toUInt32).isSome) := by
  cases h : m.enters.get ctx.pidTgid.toUInt32 with
  | none => simp [sysExit_none h]
  | some enter =>
    rw [sysExit_some h]
    cases ctx.reserved <;> simp

theorem Step.accounted (h : Step follow s a s') (hd : DistinctTids s) (hh : Held s) :
    Accounted s a s' := by
  cases a with
  | enter id raw ctx =>
    obtain ⟨t, ht, hm, htid, hraw, rfl⟩ := h
    refine ⟨rfl, fun u hu => ?_⟩
    cases ht.symm.trans hu
    have hidle : ¬ Busy s t.tid := fun hb => not_kept_user hm ((busy_self hd ht).mp hb)
    have hnow : (s.entered id t raw ctx).task id = some { t with
        mode := .inCall (some (enterData raw ctx)) (keeps s.maps t.tid ctx) } := update_self ..
    have hkept : (∃ u, (s.entered id t raw ctx).task id = some u ∧ u.Kept) ↔
        keeps s.maps t.tid ctx = true := by
      constructor
      · rintro ⟨u, hu, hk⟩
        cases hnow.symm.trans hu
        exact (kept_iff rfl).mp hk
      · intro hk
        exact ⟨_, hnow, (kept_iff rfl).mpr hk⟩
    rw [hkept, keeps, Bool.and_eq_true, Bool.and_eq_true, Bool.not_eq_true',
      decide_eq_false_iff_not, hh.full_iff hidle, and_assoc]
  | exit id ctx =>
    obtain ⟨t, enter, kept, ht, -, htid, -, rfl⟩ := h
    obtain ⟨hlen, hnew⟩ := sysExit_submits s.maps ctx
    refine ⟨_, rfl, by simpa using hlen, fun u hu => ?_⟩
    cases ht.symm.trans hu
    rw [Ne, List.map_eq_nil_iff, ← Ne, hnew, htid, hh.keys, busy_self hd ht]
  | die id =>
    obtain ⟨t, -, rfl⟩ := h
    rfl
  | create parent child tid tgid ctx =>
    obtain ⟨p, -, -, -, -, -, -, rfl⟩ := h
    rfl
  | exec id leader =>
    obtain ⟨t, l, enter, kept, -, -, -, -, -, -, rfl⟩ := h
    rfl

theorem accounted_run (hs : Attached s) {l : List (Action × System)} (h : IsRun (Step follow) s l) :
    IsRun Accounted s l := by
  refine h.induction (motive := IsRun Accounted s) trivial fun l x hl ih hstep => ?_
  obtain ⟨hd, hh⟩ := held_run hs hl
  exact isRun_concat.mpr ⟨ih, hstep.accounted hd hh⟩

end Syren.Kernel
