import Syren.Kernel.Tasks

/-! Pairing of `sys_enter` with `sys_exit` by the in-kernel programs, over every order in which
tasks call, return, die, are created and change their tid. -/
namespace Syren.Kernel
open Interaction Function

/-- The record is that of the call that it was made for: it carries what the call's own `sys_enter`
gave, the ids of its task, and the return value and the clock of its `sys_exit`. A return value
that cannot be read is recorded as 0. -/
structure OwnCall (r : Record) (call : Return) : Prop where
  enter : ∃ e, call.enter = some e ∧ r.nr = e.nr ∧ r.args = e.args ∧ r.tsEnterNs = e.ts ∧
    r.durationNs = if e.ts ≤ call.now then call.now - e.ts else 0
  task : r.tid = call.tid ∧ r.pid = call.tgid
  ret : ∀ v, call.ret = .ok v → r.retval = v
  unread : ∀ e, call.ret = .error e → r.retval = 0

/-- No task returns from a call under a tid whose kept `sys_enter` another call has left. -/
def Clean (s : System) (a : Action) : Prop :=
  ∀ id ctx t, a = .exit id ctx → s.task id = some t → t.tid ∉ s.orphaned

theorem recordOf_own (ctx : ExitCtx) (m : Maps) (enter : Enter) :
    OwnCall (recordOf ctx m enter) ⟨ctx.pidTgid.toUInt32, (ctx.pidTgid >>> 32).toUInt32,
      some enter, ctx.ret, ctx.now⟩ := by
  obtain ⟨cap, addr, len, hrec⟩ := capturePath_eq ctx m _ enter
  rw [recordOf, hrec]
  refine ⟨⟨enter, rfl, rfl, rfl, rfl, rfl⟩, ⟨rfl, rfl⟩, fun v hv => ?_, fun e he => ?_⟩
  · dsimp only at hv ⊢
    rw [hv]
  · dsimp only at he ⊢
    rw [he]

variable {m : Maps} {tid : UInt32}

theorem sysEnter_kept {raw : RawEnter} {ctx : EnterCtx} (htid : ctx.pidTgid.toUInt32 = tid)
    (hraw : ∀ r, ctx.raw = .ok r → r = raw) (h : keeps m tid ctx = true) :
    (sysEnter ctx m).enters.get tid = some (enterData raw ctx) ∧
      ∀ k ≠ tid, (sysEnter ctx m).enters.get k = m.enters.get k := by
  unfold keeps at h
  simp only [Bool.and_eq_true, Bool.not_eq_true', decide_eq_false_iff_not] at h
  obtain ⟨⟨htarget, hok⟩, hroom⟩ := h
  cases hr : ctx.raw with
  | error e =>
    rw [hr] at hok
    cases hok
  | ok r =>
    subst htid
    cases hraw r hr
    rw [sysEnter_target hr htarget]
    exact ⟨BoundedMap.get_insert_self hroom, fun k hk => BoundedMap.get_insert_of_ne hk⟩

theorem sysEnter_unkept {ctx : EnterCtx} (htid : ctx.pidTgid.toUInt32 = tid)
    (h : keeps m tid ctx = false) : (sysEnter ctx m).enters = m.enters := by
  subst htid
  cases hr : ctx.raw with
  | error e => rw [sysEnter_unread hr]
  | ok r =>
    cases htarget : isTarget m ctx.pidTgid.toUInt32 with
    | false => rw [sysEnter_other htarget]
    | true =>
      have hfull : m.enters.Full ctx.pidTgid.toUInt32 := by
        simpa [keeps, htarget, hr, Except.isOk, Except.toBool] using h
      rw [sysEnter_target hr htarget]
      exact BoundedMap.insert_full hfull

theorem sysExit_enters {ctx : ExitCtx} (htid : ctx.pidTgid.toUInt32 = tid) :
    (sysExit ctx m).enters.get tid = none ∧
      ∀ k ≠ tid, (sysExit ctx m).enters.get k = m.enters.get k := by
  subst htid
  cases h : m.enters.get ctx.pidTgid.toUInt32 with
  | none =>
    rw [sysExit_none h]
    exact ⟨h, fun _ _ => rfl⟩
  | some enter =>
    rw [sysExit_some h]
    exact ⟨BoundedMap.get_remove_self, fun k hk => BoundedMap.get_remove_of_ne hk⟩

/-- A record of a `sys_exit` is made of the entry found under the tid. -/
theorem sysExit_records {ctx : ExitCtx} (htid : ctx.pidTgid.toUInt32 = tid) {r : Record}
    (hr : r ∈ (sysExit ctx m).events.drop m.events.length) :
    ∃ enter, m.enters.get tid = some enter ∧ r = recordOf ctx m enter := by
  subst htid
  cases h : m.enters.get ctx.pidTgid.toUInt32 with
  | none =>
    rw [sysExit_none h] at hr
    simp at hr
  | some enter =>
    rw [sysExit_some h] at hr
    refine ⟨enter, rfl, ?_⟩
    dsimp only at hr
    split_ifs at hr
    · simpa only [List.drop_left, List.mem_singleton] using hr
    · simp at hr

theorem schedProcessFork_enters (ctx : ForkCtx) :
    (schedProcessFork ctx m).enters = m.enters := by
  rw [schedProcessFork_eq]
  split_ifs <;> rfl

variable {follow : Bool} {s s' : System} {a : Action}

/-- Every entry under a tid that is not orphaned is that of the call its task is in. -/
def Owned (s : System) : Prop :=
  ∀ tid e, s.maps.enters.get tid = some e → tid ∉ s.orphaned →
    ∃ id t, s.task id = some t ∧ t.tid = tid ∧ t.mode = .inCall (some e) true

/-- An owner that the step leaves alone is still the owner. -/
theorem Owned.elsewhere (h : Owned s) {k : UInt32} {e : Enter}
    (he : s.maps.enters.get k = some e) (hk : k ∉ s.orphaned)
    (hs : ∀ i u, s.task i = some u → u.tid = k → u.mode = .inCall (some e) true →
      s'.task i = some u) :
    ∃ id t, s'.task id = some t ∧ t.tid = k ∧ t.mode = .inCall (some e) true := by
  obtain ⟨i, u, hu, hut, hum⟩ := h k e he hk
  exact ⟨i, u, hs i u hu hut hum, hut, hum⟩

theorem Owned.entered (h : Owned s) {id : TaskId} {t : Task} {raw : RawEnter} {ctx : EnterCtx}
    (ht : s.task id = some t) (hm : t.mode = .user) (htid : ctx.pidTgid.toUInt32 = t.tid)
    (hraw : ∀ r, ctx.raw = .ok r → r = raw) : Owned (s.entered id t raw ctx) := by
  intro k e he hk
  have stays (i : TaskId) (u : Task) (hu : s.task i = some u)
      (hum : u.mode = .inCall (some e) true) : (s.entered id t raw ctx).task i = some u := by
    have hne : i ≠ id := by
      rintro rfl
      cases ht.symm.trans hu
      cases hm.symm.trans hum
    exact (update_of_ne hne _ _).trans hu
  change (sysEnter ctx s.maps).enters.get k = some e at he
  change k ∉ (if keeps s.maps t.tid ctx then s.orphaned.erase t.tid else s.orphaned) at hk
  cases hkept : keeps s.maps t.tid ctx with
  | true =>
    obtain ⟨hself, hother⟩ := sysEnter_kept htid hraw hkept
    by_cases hkt : k = t.tid
    · subst hkt
      cases hself.symm.trans he
      refine ⟨id, _, update_self .., rfl, ?_⟩
      rw [hkept]
    · rw [hother k hkt] at he
      rw [hkept, if_pos rfl] at hk
      refine h.elsewhere he ?_ fun i u hu _ hum => stays i u hu hum
      exact fun hin => hk (Finset.mem_erase.mpr ⟨hkt, hin⟩)
  | false =>
    rw [sysEnter_unkept htid hkept] at he
    rw [hkept, if_neg Bool.false_ne_true] at hk
    exact h.elsewhere he hk fun i u hu _ hum => stays i u hu hum

theorem Owned.exited (h : Owned s) {id : TaskId} {t : Task} {enter : Option Enter}
    {ctx : ExitCtx} (ht : s.task id = some t) (htid : ctx.pidTgid.toUInt32 = t.tid) :
    Owned (s.exited id t enter ctx) := by
  intro k e he hk
  obtain ⟨hself, hother⟩ := sysExit_enters htid
  have hkt : k ≠ t.tid := by
    rintro rfl
    cases hself.symm.trans he
  have hsame : (s.exited id t enter ctx).maps.enters.get k = s.maps.enters.get k := hother k hkt
  rw [hsame] at he
  refine h.elsewhere he (fun hin => hk (Finset.mem_erase.mpr ⟨hkt, hin⟩)) fun i u hu hut _ => ?_
  have hne : i ≠ id := by
    rintro rfl
    cases ht.symm.trans hu
    exact hkt hut.symm
  exact (update_of_ne hne _ _).trans hu

/-- A task in a kept call leaves its tid orphaned. -/
theorem mem_unanswered {t : Task} {e : Option Enter} (h : t.mode = .inCall e true) :
    t.tid ∈ unanswered t := by
  unfold unanswered
  rw [h]
  exact Finset.mem_singleton_self _

theorem Owned.died (h : Owned s) {id : TaskId} {t : Task} (ht : s.task id = some t) :
    Owned (s.died id t) := by
  intro k e he hk
  apply h.elsewhere he (fun hin => hk (Finset.mem_union_left _ hin))
  intro i u hu hut hum
  have hne : i ≠ id := by
    rintro rfl
    cases ht.symm.trans hu
    exact hk (Finset.mem_union_right _ (hut ▸ mem_unanswered hum))
  exact (update_of_ne hne _ _).trans hu

theorem Owned.created (h : Owned s) {parent child : TaskId} {tid tgid : UInt32} {ctx : ForkCtx}
    (hc : s.task child = none) : Owned (s.created follow parent child tid tgid ctx) := by
  intro k e he hk
  have hsame : (s.created follow parent child tid tgid ctx).maps.enters = s.maps.enters := by
    unfold System.created
    cases follow with
    | true => exact schedProcessFork_enters ctx
    | false => rfl
  rw [hsame] at he
  apply h.elsewhere he hk
  intro i u hu _ _
  have hne : i ≠ child := by
    rintro rfl
    cases hc.symm.trans hu
  exact (update_of_ne hne _ _).trans hu

theorem Owned.execed (h : Owned s) {id leader : TaskId} {t l : Task} {enter : Option Enter}
    (ht : s.task id = some t) (hl : s.task leader = some l) :
    Owned (s.execed id leader t l enter) := by
  intro k e he hk
  have hk' : k ∉ s.orphaned ∪ unanswered t ∪ unanswered l := hk
  simp only [Finset.mem_union, not_or] at hk'
  obtain ⟨⟨hko, hkt⟩, hkl⟩ := hk'
  apply h.elsewhere he hko
  intro i u hu hut hum
  have hne : i ≠ id := by
    rintro rfl
    cases ht.symm.trans hu
    exact hkt (hut ▸ mem_unanswered hum)
  have hnl : i ≠ leader := by
    rintro rfl
    cases hl.symm.trans hu
    exact hkl (hut ▸ mem_unanswered hum)
  exact (update_of_ne hne _ _).trans ((update_of_ne hnl _ _).trans hu)

theorem Step.owned (h : Step follow s a s') (ho : Owned s) : Owned s' := by
  cases a with
  | enter id raw ctx =>
    obtain ⟨t, ht, hm, htid, hraw, rfl⟩ := h
    exact ho.entered ht hm htid hraw
  | exit id ctx =>
    obtain ⟨t, enter, kept, ht, -, htid, -, rfl⟩ := h
    exact ho.exited ht htid
  | die id =>
    obtain ⟨t, ht, rfl⟩ := h
    exact ho.died ht
  | create parent child tid tgid ctx =>
    obtain ⟨p, -, -, hc, -, -, -, rfl⟩ := h
    exact ho.created hc
  | exec id leader =>
    obtain ⟨t, l, enter, kept, -, ht, hl, -, -, -, rfl⟩ := h
    exact ho.execed ht hl

/-- Every submitted record is that of the call it was made for. -/
def AllOwn (s : System) : Prop := ∀ x ∈ s.told, OwnCall x.1 x.2

theorem Step.allOwn (h : Step follow s a s') (hd : DistinctTids s) (ho : Owned s)
    (hc : Clean s a) (hall : AllOwn s) : AllOwn s' := by
  cases a with
  | enter id raw ctx =>
    obtain ⟨t, -, -, -, -, rfl⟩ := h
    exact hall
  | exit id ctx =>
    obtain ⟨t, enter, kept, ht, hm, htid, htgid, rfl⟩ := h
    intro x hx
    rcases List.mem_append.mp hx with hx | hx
    · exact hall x hx
    · obtain ⟨r, hr, rfl⟩ := List.mem_map.mp hx
      obtain ⟨e, he, rfl⟩ := sysExit_records htid hr
      obtain ⟨i, u, hu, hut, hum⟩ := ho _ _ he (hc id ctx t rfl ht)
      cases hd i id u t hu ht hut
      cases ht.symm.trans hu
      cases hm.symm.trans hum
      have hown := recordOf_own ctx s.maps e
      rwa [htid, htgid] at hown
  | die id =>
    obtain ⟨t, -, rfl⟩ := h
    exact hall
  | create parent child tid tgid ctx =>
    obtain ⟨p, -, -, -, -, -, -, rfl⟩ := h
    exact hall
  | exec id leader =>
    obtain ⟨t, l, enter, kept, -, -, -, -, -, -, rfl⟩ := h
    exact hall

/-- The programs have just been attached: the tids are distinct, `ENTERS` is empty and no record
was submitted. -/
def Loaded (s : System) : Prop :=
  DistinctTids s ∧ (∀ tid, s.maps.enters.get tid = none) ∧ s.told = []

/-- In every run without a return under an orphaned tid, every record is that of the call it was
made for. -/
theorem allOwn_of_clean (run : Run Loaded (Step follow))
    (hc : IsRun (fun s a _ => Clean s a) run.start run.steps) :
    AllOwn (lastState run.start run.steps) := by
  have hall : DistinctTids (lastState run.start run.steps) ∧
      Owned (lastState run.start run.steps) ∧
      (IsRun (fun s a _ => Clean s a) run.start run.steps →
        AllOwn (lastState run.start run.steps)) := by
    refine run.valid.induction (motive := fun l => DistinctTids (lastState run.start l) ∧
      Owned (lastState run.start l) ∧ (IsRun (fun s a _ => Clean s a) run.start l →
        AllOwn (lastState run.start l))) ?_ fun l x _ ih hs => ?_
    · obtain ⟨hd, hnone, htold⟩ := run.starts
      refine ⟨hd, fun tid e he => ?_, fun _ x hx => ?_⟩
      · cases (hnone tid).symm.trans he
      · rw [lastState_nil, htold] at hx
        cases hx
    · obtain ⟨hd, ho, hrest⟩ := ih
      rw [lastState_concat]
      refine ⟨hs.distinct hd, hs.owned ho, fun hclean => ?_⟩
      obtain ⟨hl, hx⟩ := isRun_concat.mp hclean
      exact hs.allOwn hd ho hx (hrest hl)
  exact hall.2.2 hc

/-- The task 0 with the seeded tid 7 and the unrelated task 1 with the tid 8. -/
def twoTasks : System where
  maps := ⟨.empty, BoundedMap.empty.insert 7 1, Vector.replicate 512 0, []⟩
  task id := if id = 0 then some ⟨7, 7, .user⟩ else if id = 1 then some ⟨8, 8, .user⟩ else none
  told := []
  orphaned := ∅
  family := {0}
  ever := {7}

theorem twoTasks_loaded : Loaded twoTasks := by
  refine ⟨fun i j t u ht hu htu => ?_, fun _ => BoundedMap.get_empty, rfl⟩
  simp only [twoTasks] at ht hu
  split_ifs at ht hu <;> cases ht <;> cases hu <;> first | (subst_vars; rfl) | cases htu

def callRaw : RawEnter := ⟨39, Vector.replicate 6 0⟩

def enterAs (tid : UInt64) : EnterCtx := ⟨tid, .ok callRaw, 5⟩

def exitAs (tid : UInt64) : ExitCtx where
  pidTgid := tid <<< 32 ||| tid
  ret := .ok 7
  now := 9
  reserved := true
  stale := Vector.replicate 128 0
  readUserStr _ cap := (.error 0, cap)

/-- The seeded task calls and returns. -/
def callRun : Run Loaded (Step true) :=
  let s₁ := twoTasks.entered 0 ⟨7, 7, .user⟩ callRaw (enterAs 7)
  { start := twoTasks
    steps := [(.enter 0 callRaw (enterAs 7), s₁), (.exit 0 (exitAs 7), s₁.exited 0
      ⟨7, 7, .inCall (some (enterData callRaw (enterAs 7))) true⟩
      (some (enterData callRaw (enterAs 7))) (exitAs 7))]
    starts := twoTasks_loaded
    valid := by
      refine ⟨⟨_, rfl, rfl, rfl, ?_, rfl⟩, ⟨_, _, _, rfl, rfl, rfl, rfl, rfl⟩, trivial⟩
      intro r hr
      exact (Except.ok.inj hr).symm }

theorem allOwn_callRun : AllOwn (lastState callRun.start callRun.steps) := by
  refine allOwn_of_clean callRun ⟨?_, ?_, trivial⟩
  · intro id ctx t he
    cases he
  · intro id ctx t he ht
    cases he
    cases Option.some.inj ht
    exact fun h => by simp [System.entered, twoTasks] at h

def deadTask : Task := ⟨7, 7, .inCall (some (enterData callRaw (enterAs 7))) true⟩

def cloning : Mode := .inCall (some (enterData callRaw (enterAs 8))) false

/-- The seeded task dies in its call; the unrelated task then creates a task under the same tid,
which returns from its creating call. -/
def reuseRun : Run Loaded (Step true) :=
  let s₁ := twoTasks.entered 0 ⟨7, 7, .user⟩ callRaw (enterAs 7)
  let s₂ := s₁.died 0 deadTask
  let s₃ := s₂.entered 1 ⟨8, 8, .user⟩ callRaw (enterAs 8)
  let s₄ := s₃.created true 1 2 7 7 ⟨.ok 8, .ok 7⟩
  { start := twoTasks
    steps := [(.enter 0 callRaw (enterAs 7), s₁), (.die 0, s₂), (.enter 1 callRaw (enterAs 8), s₃),
      (.create 1 2 7 7 ⟨.ok 8, .ok 7⟩, s₄),
      (.exit 2 (exitAs 7), s₄.exited 2 ⟨7, 7, .inCall none false⟩ none (exitAs 7))]
    starts := twoTasks_loaded
    valid := by
      have hraw (tid : UInt64) : ∀ r, (enterAs tid).raw = .ok r → r = callRaw := by
        intro r hr
        exact (Except.ok.inj hr).symm
      have hfresh : ∀ id t, s₃.task id = some t → t.tid ≠ 7 := by
        intro id t ht
        simp only [s₃, s₂, s₁, System.entered, System.died, update_apply, twoTasks] at ht
        split_ifs at ht
        cases ht
        decide
      refine ⟨⟨_, rfl, rfl, rfl, hraw 7, rfl⟩, ⟨_, rfl, rfl⟩, ⟨_, rfl, rfl, rfl, hraw 8, rfl⟩, ?_,
        ⟨_, _, _, rfl, rfl, rfl, rfl, rfl⟩, trivial⟩
      exact ⟨⟨8, 8, cloning⟩, rfl, by simp [cloning], rfl, hfresh, rfl, rfl, rfl⟩ }

theorem reused_tid_mispairs :
    ¬ ∀ run : Run Loaded (Step true), AllOwn (lastState run.start run.steps) := by
  intro h
  have htold : (lastState reuseRun.start reuseRun.steps).told.map (·.2.enter) = [none] := by decide
  obtain ⟨x, hx, hnone⟩ := List.mem_map.mp (htold ▸ List.mem_singleton_self none)
  obtain ⟨e, he, -⟩ := (h reuseRun x hx).enter
  cases hnone.symm.trans he

end Syren.Kernel
