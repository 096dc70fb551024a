import Syren.Kernel.Tasks

/-! The set `TARGETS` against the living tasks that are seeded or descend from a seeded one, over
runs with the fork program attached in which tids are used again and threads change theirs. -/
namespace Syren.Kernel
open Interaction Function

/-- Among the living tasks the targets are the family. -/
def Exact (s : System) : Prop :=
  ∀ id t, s.task id = some t → (isTarget s.maps t.tid = true ↔ id ∈ s.family)

/-- A step that `TARGETS` can follow. The tid of a new member of the family was in it before or
there is room, and the tid of any other new task was never in it; a thread that takes over the tid
of its leader is in the family exactly if the leader is. -/
def Admits (s : System) : Action → Prop
  | .create parent _ tid _ _ =>
      if parent ∈ s.family then tid ∈ s.ever ∨ s.ever.card < 4096 else tid ∉ s.ever
  | .exec id leader => id ∈ s.family ↔ leader ∈ s.family
  | _ => True

/-- `TARGETS` holds the tids that the family has ever had, and what it holds is exact. -/
structure Tracked (s : System) : Prop where
  keys : s.maps.targets.keys = s.ever
  living : ∀ id ∈ s.family, (s.task id).isSome
  exact : Exact s

variable {s s' : System} {a : Action} {m : Maps}

theorem isTarget_iff {tid : UInt32} : isTarget m tid = true ↔ tid ∈ m.targets.keys := by
  rw [BoundedMap.mem_keys]
  rfl

/-- A step that leaves the targets and the family of the tasks alone keeps them exact. -/
theorem Exact.of_same (h : Exact s) (hm : s'.maps.targets = s.maps.targets)
    (ht : ∀ id t', s'.task id = some t' → ∃ t, s.task id = some t ∧ t.tid = t'.tid ∧
      (id ∈ s'.family ↔ id ∈ s.family)) : Exact s' := by
  intro id t' ht'
  obtain ⟨t, htask, htid, hfam⟩ := ht id t' ht'
  rw [hfam, ← htid, ← h id t htask]
  unfold isTarget
  rw [hm]

theorem Exact.retask (h : Exact s) {id : TaskId} {t t' : Task} (ht : s.task id = some t)
    (hs : s'.task = update s.task id (some t')) (htid : t.tid = t'.tid)
    (hm : s'.maps.targets = s.maps.targets) (hf : s'.family = s.family) : Exact s' := by
  apply h.of_same hm
  intro i u hu
  rw [hs] at hu
  rw [hf]
  rcases update_eq_some.mp hu with ⟨rfl, hset⟩ | ⟨-, hlived⟩
  · cases hset
    exact ⟨t, ht, htid, Iff.rfl⟩
  · exact ⟨u, hlived, rfl, Iff.rfl⟩

theorem Exact.died (h : Exact s) (id : TaskId) (t : Task) : Exact (s.died id t) := by
  refine h.of_same rfl fun i u hu => ?_
  rcases update_eq_some.mp hu with ⟨-, hset⟩ | ⟨hi, hlived⟩
  · cases hset
  · refine ⟨u, hlived, rfl, ?_⟩
    exact ⟨fun h => (Finset.mem_erase.mp h).2, fun h => Finset.mem_erase.mpr ⟨hi, h⟩⟩

/-- A new member of the family: the fork program inserts its tid unless there is no room. -/
theorem Tracked.joins (h : Tracked s) {parent child : TaskId} {p : Task} {tid tgid : UInt32}
    {ctx : ForkCtx} (hp : s.task parent = some p) (hf : parent ∈ s.family)
    (hfresh : ∀ id t, s.task id = some t → t.tid ≠ tid)
    (hparent : (orZero ctx.parent).toUInt32 = p.tid) (hchild : (orZero ctx.child).toUInt32 = tid) :
    let s' := s.created true parent child tid tgid ctx
    ((tid ∈ s.ever ∨ s.ever.card < 4096) → Tracked s') ∧
      (¬ (tid ∈ s.ever ∨ s.ever.card < 4096) → ¬ Exact s') := by
  intro s'
  have htask : s'.task = update s.task child (some ⟨tid, tgid, .inCall none false⟩) := rfl
  have hfam : s'.family = insert child s.family := if_pos hf
  have hever : s'.ever = insert tid s.ever := if_pos hf
  have htargets : s'.maps.targets = s.maps.targets.insert tid 1 := by
    have htarget : isTarget s.maps (orZero ctx.parent).toUInt32 = true := by
      rw [hparent]
      exact (h.exact parent p hp).mpr hf
    change (schedProcessFork ctx s.maps).targets = _
    rw [schedProcessFork_eq, if_pos htarget, hchild]
  constructor
  · intro hroom
    have hnot : ¬ s.maps.targets.Full tid := by
      rintro ⟨hnew, hfull⟩
      rw [h.keys] at hnew hfull
      rcases hroom with hin | hlt
      · exact hnew hin
      · omega
    have hkeys : s'.maps.targets.keys = insert tid s.maps.targets.keys := by
      rw [htargets, BoundedMap.keys_insert hnot]
    refine ⟨by rw [hkeys, h.keys, hever], fun id hid => ?_, fun id t ht => ?_⟩
    · rw [htask]
      by_cases hc : id = child
      · rw [hc, update_self]
        rfl
      · rw [update_of_ne hc]
        rw [hfam] at hid
        exact h.living id ((Finset.mem_insert.mp hid).resolve_left hc)
    · rw [htask] at ht
      rw [isTarget_iff, hkeys, hfam, Finset.mem_insert, Finset.mem_insert]
      rcases update_eq_some.mp ht with ⟨hc, hnew⟩ | ⟨hc, hlived⟩
      · cases hnew
        exact ⟨fun _ => .inl hc, fun _ => .inl rfl⟩
      · have hexact := h.exact id t hlived
        rw [isTarget_iff] at hexact
        rw [← hexact]
        exact ⟨fun h => .inr (h.resolve_left (hfresh id t hlived)),
          fun h => .inr (h.resolve_left hc)⟩
  · intro hroom hexact
    have hfull : s.maps.targets.Full tid := by
      have hle := s.maps.targets.bounded
      have hkeys := h.keys
      obtain ⟨hnew, hlarge⟩ := not_or.mp hroom
      refine ⟨hkeys ▸ hnew, ?_⟩
      change s.maps.targets.keys.card ≤ 4096 at hle
      rw [hkeys] at hle ⊢
      omega
    have hin : isTarget s'.maps tid = true := by
      apply (hexact child _ ((congrFun htask child).trans (update_self ..))).mpr
      rw [hfam]
      exact Finset.mem_insert_self _ _
    rw [isTarget_iff, htargets, BoundedMap.insert_full hfull] at hin
    exact hfull.1 hin

/-- A new task outside the family: the fork program leaves `TARGETS` alone. -/
theorem Tracked.passes (h : Tracked s) {parent child : TaskId} {p : Task} {tid tgid : UInt32}
    {ctx : ForkCtx} (hp : s.task parent = some p) (hf : parent ∉ s.family)
    (hc : s.task child = none) (hparent : (orZero ctx.parent).toUInt32 = p.tid) :
    let s' := s.created true parent child tid tgid ctx
    (tid ∉ s.ever → Tracked s') ∧ (tid ∈ s.ever → ¬ Exact s') := by
  intro s'
  have htask : s'.task = update s.task child (some ⟨tid, tgid, .inCall none false⟩) := rfl
  have hfam : s'.family = s.family := if_neg hf
  have hever : s'.ever = s.ever := if_neg hf
  have hmaps : s'.maps = s.maps := by
    have htarget : ¬ isTarget s.maps (orZero ctx.parent).toUInt32 = true := by
      rw [hparent, h.exact parent p hp]
      exact hf
    change schedProcessFork ctx s.maps = _
    rw [schedProcessFork_eq, if_neg htarget]
  have hout : child ∉ s.family := by
    intro hin
    have hlive := h.living child hin
    rw [hc] at hlive
    cases hlive
  constructor
  · intro hnew
    refine ⟨by rw [hmaps, h.keys, hever], fun id hid => ?_, fun id t ht => ?_⟩
    · rw [hfam] at hid
      have hne : id ≠ child := by
        rintro rfl
        exact hout hid
      rw [htask, update_of_ne hne]
      exact h.living id hid
    · rw [htask] at ht
      rw [hmaps, hfam]
      rcases update_eq_some.mp ht with ⟨rfl, hset⟩ | ⟨-, hlived⟩
      · cases hset
        rw [isTarget_iff, h.keys]
        exact iff_of_false hnew hout
      · exact h.exact id t hlived
  · intro hold hexact
    have hin := (hexact child _ ((congrFun htask child).trans (update_self ..))).mp (by
      rw [hmaps, isTarget_iff, h.keys]
      exact hold)
    rw [hfam] at hin
    exact hout hin

theorem Tracked.retask (h : Tracked s) {id : TaskId} {t t' : Task} (ht : s.task id = some t)
    (hs : s'.task = update s.task id (some t')) (htid : t.tid = t'.tid)
    (hm : s'.maps.targets = s.maps.targets) (hf : s'.family = s.family)
    (he : s'.ever = s.ever) : Tracked s' := by
  refine ⟨by rw [hm, h.keys, he], fun i hi => ?_, h.exact.retask ht hs htid hm hf⟩
  rw [hf] at hi
  rw [hs]
  by_cases hid : i = id
  · rw [hid, update_self]
    rfl
  · rw [update_of_ne hid]
    exact h.living i hi

theorem Tracked.died (h : Tracked s) (id : TaskId) (t : Task) : Tracked (s.died id t) := by
  refine ⟨h.keys, fun i hi => ?_, h.exact.died id t⟩
  obtain ⟨hne, hin⟩ := Finset.mem_erase.mp hi
  change (update s.task id none i).isSome
  rw [update_of_ne hne]
  exact h.living i hin

/-- A thread takes over the tid of its leader, which stays in `TARGETS` or out of it. -/
theorem Tracked.execed (h : Tracked s) {id leader : TaskId} {t l : Task} {enter : Option Enter}
    (hne : id ≠ leader) (ht : s.task id = some t) (hl : s.task leader = some l) :
    let s' := s.execed id leader t l enter
    ((id ∈ s.family ↔ leader ∈ s.family) → Tracked s') ∧
      (¬ (id ∈ s.family ↔ leader ∈ s.family) → ¬ Exact s') := by
  intro s'
  have htask : s'.task = update (update s.task leader none) id
      (some ⟨l.tid, l.tgid, .inCall enter false⟩) := rfl
  have hself : s'.task id = some ⟨l.tid, l.tgid, .inCall enter false⟩ :=
    (congrFun htask id).trans (update_self ..)
  have hfam (i : TaskId) (hi : i ≠ leader) : i ∈ s'.family ↔ i ∈ s.family := by
    change i ∈ s.family.erase leader ↔ _
    simp [hi]
  have hleader : isTarget s'.maps l.tid = true ↔ leader ∈ s.family := h.exact leader l hl
  constructor
  · intro hboth
    refine ⟨h.keys, fun i hi => ?_, fun i u hu => ?_⟩
    · obtain ⟨hil, hin⟩ := Finset.mem_erase.mp hi
      by_cases hid : i = id
      · rw [hid, hself]
        rfl
      · rw [htask, update_of_ne hid, update_of_ne hil]
        exact h.living i hin
    · rw [htask] at hu
      rcases update_eq_some.mp hu with ⟨rfl, hset⟩ | ⟨-, hu⟩
      · cases hset
        rw [hfam i hne, hboth]
        exact hleader
      · rcases update_eq_some.mp hu with ⟨-, hnone⟩ | ⟨hil, hlived⟩
        · cases hnone
        · rw [hfam i hil]
          exact h.exact i u hlived
  · intro hnot hexact
    have hid := hexact id _ hself
    rw [hfam id hne] at hid
    exact hnot (hid.symm.trans hleader)

/-- A step keeps the targets exact when it can be followed, and only then. -/
theorem Step.tracked (h : Step true s a s') (ht : Tracked s) :
    (Admits s a ∧ Tracked s') ∨ (¬ Admits s a ∧ ¬ Exact s') := by
  cases a with
  | enter id raw ctx =>
    obtain ⟨t, htask, -, -, -, rfl⟩ := h
    exact .inl ⟨trivial, ht.retask htask rfl rfl (sysEnter_targets ctx) rfl rfl⟩
  | exit id ctx =>
    obtain ⟨t, enter, kept, htask, -, -, -, rfl⟩ := h
    exact .inl ⟨trivial, ht.retask htask rfl rfl (sysExit_targets ctx) rfl rfl⟩
  | die id =>
    obtain ⟨t, -, rfl⟩ := h
    exact .inl ⟨trivial, ht.died id t⟩
  | create parent child tid tgid ctx =>
    obtain ⟨p, hp, -, hc, hfresh, hparent, hchild, rfl⟩ := h
    by_cases hf : parent ∈ s.family
    · have hadmits : Admits s (.create parent child tid tgid ctx) ↔
          (tid ∈ s.ever ∨ s.ever.card < 4096) := by simp [Admits, hf]
      obtain ⟨hyes, hno⟩ :=
        @Tracked.joins s ht parent child p tid tgid ctx hp hf hfresh hparent hchild
      rw [hadmits]
      by_cases hroom : tid ∈ s.ever ∨ s.ever.card < 4096
      · exact .inl ⟨hroom, hyes hroom⟩
      · exact .inr ⟨hroom, hno hroom⟩
    · have hadmits : Admits s (.create parent child tid tgid ctx) ↔ tid ∉ s.ever := by
        simp [Admits, hf]
      obtain ⟨hyes, hno⟩ := @Tracked.passes s ht parent child p tid tgid ctx hp hf hc hparent
      rw [hadmits]
      by_cases hnew : tid ∈ s.ever
      · exact .inr ⟨not_not.mpr hnew, hno hnew⟩
      · exact .inl ⟨hnew, hyes hnew⟩
  | exec id leader =>
    obtain ⟨t, l, enter, kept, hne, htask, hl, -, -, -, rfl⟩ := h
    obtain ⟨hyes, hno⟩ := @Tracked.execed s ht id leader t l enter hne htask hl
    by_cases hboth : id ∈ s.family ↔ leader ∈ s.family
    · exact .inl ⟨hboth, hyes hboth⟩
    · exact .inr ⟨hboth, hno hboth⟩

/-- Either every step so far could be followed and the targets were exact at every moment, or some
step could not and at some moment they were not. -/
def Followed (s : System) (l : List (Action × System)) : Prop :=
  (IsRun (fun s a _ => Admits s a) s l ∧ Tracked (lastState s l) ∧
    ∀ m, m <+: l → Exact (lastState s m)) ∨
  (¬ IsRun (fun s a _ => Admits s a) s l ∧ ∃ m, m <+: l ∧ ¬ Exact (lastState s m))

theorem followed_run {l : List (Action × System)} (h : IsRun (Step true) s l) (ht : Tracked s) :
    Followed s l := by
  refine h.induction (motive := Followed s) ?_ fun l x _ ih hs => ?_
  · refine .inl ⟨trivial, ht, fun m hm => ?_⟩
    rw [List.prefix_nil.mp hm]
    exact ht.exact
  · unfold Followed
    rw [isRun_concat, lastState_concat]
    rcases ih with ⟨hrun, ht, hex⟩ | ⟨hnot, m, hm, hne⟩
    · rcases hs.tracked ht with ⟨hadm, ht'⟩ | ⟨hadm, hne⟩
      · refine .inl ⟨⟨hrun, hadm⟩, ht', fun m hm => ?_⟩
        rcases List.prefix_concat_iff.mp hm with rfl | hm
        · rw [lastState_concat]
          exact ht'.exact
        · exact hex m hm
      · refine .inr ⟨fun hboth => hadm hboth.2, l ++ [x], List.prefix_rfl, ?_⟩
        rwa [lastState_concat]
    · exact .inr ⟨fun hboth => hnot hboth.1, m, hm.trans (List.prefix_append _ _), hne⟩

/-- The targets are exact at every moment of a run exactly when every step of the run is one that
`TARGETS` can follow. -/
theorem exact_iff_admits (run : Run Tracked (Step true)) :
    (∀ m, m <+: run.steps → Exact (lastState run.start m)) ↔
      IsRun (fun s a _ => Admits s a) run.start run.steps := by
  rcases followed_run run.valid run.starts with ⟨hrun, -, hex⟩ | ⟨hnot, m, hm, hne⟩
  · exact iff_of_true hex hrun
  · exact iff_of_false (fun h => hne (h m hm)) hnot

/-- The seeded task 0 with the tid 7 and the unrelated task 1 with the tid 8. -/
def seededTask : System where
  maps := ⟨.empty, BoundedMap.empty.insert 7 1, Vector.replicate 512 0, []⟩
  task id := if id = 0 then some ⟨7, 7, .user⟩
    else if id = 1 then some ⟨8, 8, .inCall none false⟩ else none
  told := []
  orphaned := ∅
  family := {0}
  ever := {7}

theorem seededTask_tracked : Tracked seededTask := by
  refine ⟨by decide, by decide, fun id t ht => ?_⟩
  simp only [seededTask] at ht
  split_ifs at ht with h₀ h₁
  · cases ht
    subst h₀
    decide
  · cases ht
    subst h₁
    decide

/-- The seeded task dies, and the unrelated task creates a task under its tid. -/
def recycledRun : Run Tracked (Step true) :=
  let s₁ := seededTask.died 0 ⟨7, 7, .user⟩
  let s₂ := s₁.created true 1 2 7 7 ⟨.ok 8, .ok 7⟩
  { start := seededTask
    steps := [(.die 0, s₁), (.create 1 2 7 7 ⟨.ok 8, .ok 7⟩, s₂)]
    starts := seededTask_tracked
    valid := by
      have hfresh : ∀ id t, s₁.task id = some t → t.tid ≠ 7 := by
        intro id t ht
        simp only [s₁, System.died, update_apply, seededTask] at ht
        split_ifs at ht
        cases ht
        decide
      exact ⟨⟨_, rfl, rfl⟩, ⟨⟨8, 8, .inCall none false⟩, rfl, by simp, rfl, hfresh, rfl, rfl, rfl⟩,
        trivial⟩ }

theorem recycled_tid_traced :
    ¬ ∀ run : Run Tracked (Step true),
      (∀ m, m <+: run.steps → (lastState run.start m).family.card ≤ 4096) →
      ∀ m, m <+: run.steps → Exact (lastState run.start m) := by
  intro h
  have hsmall : ∀ m, m <+: recycledRun.steps →
      (lastState recycledRun.start m).family.card ≤ 4096 := by
    intro m hm
    have hinits := (List.mem_inits m _).mpr hm
    change m ∈ [[], [_], [_, _]] at hinits
    simp only [List.mem_cons, List.not_mem_nil, or_false] at hinits
    rcases hinits with rfl | rfl | rfl <;> decide
  have hexact := h recycledRun hsmall recycledRun.steps List.prefix_rfl 2 _ rfl
  revert hexact
  decide

end Syren.Kernel
