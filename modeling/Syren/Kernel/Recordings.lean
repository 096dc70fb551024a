import Syren.Kernel.Enters

/-! What becomes of every kept `sys_enter`. A book of them is kept along a run, and it agrees with
the entries of `ENTERS` and with the submitted records. -/
namespace Syren.Kernel
open Interaction Function

/-- A kept `sys_enter` is in `ENTERS` while its call is under way, and still when the call was left
without a return. It is taken out by the `sys_exit` of its own call or of another call under its
tid, or it makes room for a later `sys_enter` under its tid. -/
inductive Fate where
  | underway
  | orphaned
  | paired
  | mispaired
  | overwritten
  deriving DecidableEq

namespace Fate

def Held (fate : Fate) : Prop := fate = .underway ∨ fate = .orphaned

instance (fate : Fate) : Decidable fate.Held :=
  inferInstanceAs (Decidable (fate = .underway ∨ fate = .orphaned))

def replaced : Fate → Fate
  | .orphaned => .overwritten
  | fate => fate

def ended : Fate → Fate
  | .underway => .paired
  | .orphaned => .mispaired
  | fate => fate

def left : Fate → Fate
  | .underway => .orphaned
  | fate => fate

end Fate

structure Recording where
  task : TaskId
  tid : UInt32
  enter : Enter
  fate : Fate

/-- The tid under which a `sys_enter` of the task is kept. -/
def keptUnder (s : System) (id : TaskId) (ctx : EnterCtx) : Option UInt32 :=
  (s.task id).bind fun t => if keeps s.maps t.tid ctx then some t.tid else none

namespace Recording

/-- What a step makes of a recording. -/
def after (s : System) (a : Action) (r : Recording) : Recording :=
  { r with fate := match a with
    | .enter id _ ctx => if keptUnder s id ctx = some r.tid then r.fate.replaced else r.fate
    | .exit _ ctx => if ctx.pidTgid.toUInt32 = r.tid then r.fate.ended else r.fate
    | .die id => if r.task = id then r.fate.left else r.fate
    | .create _ _ _ _ _ => r.fate
    | .exec id leader => if r.task = id ∨ r.task = leader then r.fate.left else r.fate }

/-- The record carries what was recorded. -/
def Carried (r : Recording) (rec : Record) : Prop :=
  rec.tid = r.tid ∧ rec.nr = r.enter.nr ∧ rec.args = r.enter.args ∧ rec.tsEnterNs = r.enter.ts

end Recording

/-- The recording that a step adds. -/
def recorded (s : System) : Action → List Recording
  | .enter id raw ctx =>
    ((keptUnder s id ctx).map fun tid => ⟨id, tid, enterData raw ctx, .underway⟩).toList
  | _ => []

/-- The book `b` after some more steps. -/
def bookFrom : System → List Recording → List (Action × System) → List Recording
  | _, b, [] => b
  | s, b, (a, s') :: rest => bookFrom s' (b.map (Recording.after s a) ++ recorded s a) rest

/-- The book agrees with the system. -/
structure Noted (s : System) (b : List Recording) : Prop where
  entries : ∀ tid e, s.maps.enters.get tid = some e ↔
    ∃ r ∈ b, r.fate.Held ∧ r.tid = tid ∧ r.enter = e
  single : b.Pairwise fun r r' => r.fate.Held → r'.fate.Held → r.tid ≠ r'.tid
  underway : ∀ r ∈ b, r.fate = .underway →
    ∃ t, s.task r.task = some t ∧ t.tid = r.tid ∧ t.mode = .inCall (some r.enter) true
  orphaned : ∀ r ∈ b, r.fate = .orphaned → r.tid ∈ s.orphaned
  told : ∀ x ∈ s.told, ∃ r ∈ b, r.Carried x.1 ∧
    (r.fate = .paired ∧ OwnCall x.1 x.2 ∧ x.2.enter = some r.enter ∨ r.fate = .mispaired)

variable {follow : Bool} {s s' : System} {a : Action} {b : List Recording} {r : Recording}

theorem bookFrom_concat (s : System) (b : List Recording) (l : List (Action × System))
    (x : Action × System) : bookFrom s b (l ++ [x]) =
      (bookFrom s b l).map (Recording.after (lastState s l) x.1) ++
        recorded (lastState s l) x.1 := by
  induction l generalizing s b with
  | nil => rfl
  | cons y l ih =>
    rw [List.cons_append, bookFrom, ih, lastState_cons]
    rfl

namespace Fate

variable {fate : Fate}

theorem held_left : fate.left.Held ↔ fate.Held := by cases fate <;> simp [Held, left]

theorem held_ended : ¬ fate.ended.Held := by cases fate <;> simp [Held, ended]

theorem held_replaced : fate.replaced.Held ↔ fate = .underway := by
  cases fate <;> simp [Held, replaced]

theorem left_underway : fate.left ≠ .underway := by cases fate <;> simp [left]

theorem held_ite_left {p : Prop} [Decidable p] (h : fate.Held) :
    (if p then fate.left else fate).Held := by
  split_ifs
  · exact held_left.mpr h
  · exact h

theorem not_of_ite_left {p : Prop} [Decidable p]
    (h : (if p then fate.left else fate) = .underway) : ¬ p := by
  intro hp
  rw [if_pos hp] at h
  exact left_underway h

theorem ended_held (h : fate.Held) : fate = .underway ∧ fate.ended = .paired ∨
    fate = .orphaned ∧ fate.ended = .mispaired := h.imp (by rintro rfl; exact ⟨rfl, rfl⟩)
  (by rintro rfl; exact ⟨rfl, rfl⟩)

end Fate

/-- A recording that has found its end keeps it. -/
theorem after_closed (h : ¬ r.fate.Held) : (r.after s a).fate = r.fate := by
  obtain ⟨task, tid, enter, fate⟩ := r
  cases fate with
  | underway => exact absurd (.inl rfl) h
  | orphaned => exact absurd (.inr rfl) h
  | paired | mispaired | overwritten =>
    cases a <;> simp only [Recording.after] <;> first | rfl | (split_ifs <;> rfl)

/-- Nothing that was not in `ENTERS` comes back. -/
theorem after_held (h : (r.after s a).fate.Held) : r.fate.Held := by
  by_contra hr
  rw [after_closed hr] at h
  exact hr h

/-- What was told of a recording stays so. -/
theorem Noted.told_after (h : Noted s b) (more : List Recording) {x : Record × Return}
    (hx : x ∈ s.told) : ∃ r ∈ b.map (Recording.after s a) ++ more, r.Carried x.1 ∧
      (r.fate = .paired ∧ OwnCall x.1 x.2 ∧ x.2.enter = some r.enter ∨ r.fate = .mispaired) := by
  obtain ⟨r, hr, hcarried, hfate⟩ := h.told x hx
  have hclosed : ¬ r.fate.Held := by
    rcases hfate with ⟨hfate, -⟩ | hfate <;> simp [hfate, Fate.Held]
  refine ⟨r.after s a, List.mem_append_left _ (List.mem_map_of_mem hr), hcarried, ?_⟩
  rw [after_closed hclosed]
  exact hfate

theorem Noted.single_after (h : Noted s b) : (b.map (Recording.after s a)).Pairwise fun r r' =>
    r.fate.Held → r'.fate.Held → r.tid ≠ r'.tid :=
  List.pairwise_map.mpr (h.single.imp fun hne hr hr' => hne (after_held hr) (after_held hr'))

/-- A call that is under way was so before. -/
theorem after_underway (h : (r.after s a).fate = .underway) : r.fate = .underway := by
  rcases after_held (.inl h) with hf | hf
  · exact hf
  · obtain ⟨task, tid, enter, fate⟩ := r
    cases hf
    cases a with
    | create => cases h
    | enter | exit | die | exec =>
      simp only [Recording.after] at h
      split_ifs at h
      cases h

/-- Where a step leaves what is held under a tid, the same is held under it. -/
theorem held_map (tid : UInt32) (e : Enter)
    (h : ∀ r ∈ b, r.tid = tid → r.fate.Held → (r.after s a).fate.Held) :
    (∃ r ∈ b.map (Recording.after s a), r.fate.Held ∧ r.tid = tid ∧ r.enter = e) ↔
      ∃ r ∈ b, r.fate.Held ∧ r.tid = tid ∧ r.enter = e := by
  constructor
  · rintro ⟨r', hr', hf, hrest⟩
    obtain ⟨r, hr, rfl⟩ := List.mem_map.mp hr'
    exact ⟨r, hr, after_held hf, hrest⟩
  · rintro ⟨r, hr, hf, htid, he⟩
    exact ⟨r.after s a, List.mem_map_of_mem hr, h r hr htid hf, htid, he⟩

/-- What makes the book agree after a step with no `sys_enter` or `sys_exit`. -/
theorem Noted.elsewhere (h : Noted s b)
    (he : ∀ tid, s'.maps.enters.get tid = s.maps.enters.get tid) (ht : s'.told = s.told)
    (hn : recorded s a = []) (hheld : ∀ r ∈ b, r.fate.Held → (r.after s a).fate.Held)
    (hu : ∀ r ∈ b, (r.after s a).fate = .underway → ∀ t, s.task r.task = some t →
      s'.task r.task = some t)
    (ho : ∀ r ∈ b, (r.after s a).fate = .orphaned → r.tid ∈ s'.orphaned) :
    Noted s' (b.map (Recording.after s a) ++ recorded s a) := by
  rw [hn, List.append_nil]
  refine ⟨fun tid e => ?_, h.single_after, fun r' hr' hfate => ?_, fun r' hr' hfate => ?_,
    fun x hx => ?_⟩
  · rw [he, h.entries, held_map tid e fun r hr _ => hheld r hr]
  · obtain ⟨r, hr, rfl⟩ := List.mem_map.mp hr'
    obtain ⟨t, htask, hrest⟩ := h.underway r hr (after_underway hfate)
    exact ⟨t, hu r hr hfate t htask, hrest⟩
  · obtain ⟨r, hr, rfl⟩ := List.mem_map.mp hr'
    exact ho r hr hfate
  · have htold := h.told_after (a := a) [] (ht ▸ hx)
    rwa [List.append_nil] at htold

/-- A recording is left behind where it was so before or its call is left now. -/
theorem left_orphaned {p : Prop} [Decidable p] {fate : Fate}
    (h : (if p then fate.left else fate) = .orphaned) :
    fate = .orphaned ∨ (p ∧ fate = .underway) := by
  split_ifs at h with hp
  · cases fate with
    | underway => exact .inr ⟨hp, rfl⟩
    | orphaned => exact .inl rfl
    | paired | mispaired | overwritten => cases h
  · exact .inl h

/-- The kept call that a task is in is unanswered when the task leaves its tid. -/
theorem Noted.left_unanswered (h : Noted s b) (hr : r ∈ b) (hf : r.fate = .underway) {id : TaskId}
    {t : Task} (htask : r.task = id) (ht : s.task id = some t) : r.tid ∈ unanswered t := by
  obtain ⟨u, hu, hut, hum⟩ := h.underway r hr hf
  rw [htask, ht] at hu
  cases hu
  exact hut ▸ mem_unanswered hum

theorem Noted.died (h : Noted s b) {id : TaskId} {t : Task} (ht : s.task id = some t) :
    Noted (s.died id t) (b.map (Recording.after s (.die id)) ++ recorded s (.die id)) := by
  refine h.elsewhere (fun _ => rfl) rfl rfl (fun r hr hf => Fate.held_ite_left hf)
    (fun r hr hf u hu => ?_) fun r hr hf => ?_
  · exact (update_of_ne (Fate.not_of_ite_left hf) _ _).trans hu
  · rcases left_orphaned hf with hf | ⟨htask, hf⟩
    · exact Finset.mem_union_left _ (h.orphaned r hr hf)
    · exact Finset.mem_union_right _ (h.left_unanswered hr hf htask ht)

theorem Noted.created (h : Noted s b) {parent child : TaskId} {tid tgid : UInt32} {ctx : ForkCtx}
    (hc : s.task child = none) : Noted (s.created follow parent child tid tgid ctx)
      (b.map (Recording.after s (.create parent child tid tgid ctx)) ++
        recorded s (.create parent child tid tgid ctx)) := by
  refine h.elsewhere (fun k => ?_) rfl rfl (fun r _ hf => hf) (fun r _ _ u hu => ?_)
    fun r hr hf => h.orphaned r hr hf
  · rw [created_enters]
  · have hne : r.task ≠ child := by
      intro he
      rw [he, hc] at hu
      cases hu
    exact (update_of_ne hne _ _).trans hu

theorem Noted.execed (h : Noted s b) {id leader : TaskId} {t l : Task} {enter : Option Enter}
    (ht : s.task id = some t) (hl : s.task leader = some l) :
    Noted (s.execed id leader t l enter)
      (b.map (Recording.after s (.exec id leader)) ++ recorded s (.exec id leader)) := by
  refine h.elsewhere (fun _ => rfl) rfl rfl (fun r hr hf => Fate.held_ite_left hf)
    (fun r hr hf u hu => ?_) fun r hr hf => ?_
  · obtain ⟨hid, hleader⟩ := not_or.mp (Fate.not_of_ite_left hf)
    exact (update_of_ne hid _ _).trans ((update_of_ne hleader _ _).trans hu)
  · show r.tid ∈ s.orphaned ∪ unanswered t ∪ unanswered l
    simp only [Finset.mem_union]
    rcases left_orphaned hf with hf | ⟨htask, hf⟩
    · exact .inl (.inl (h.orphaned r hr hf))
    · rcases htask with htask | htask
      · exact .inl (.inr (h.left_unanswered hr hf htask ht))
      · exact .inr (h.left_unanswered hr hf htask hl)

/-- A task that is not in a call has no call under way under its tid. -/
theorem Noted.not_underway (h : Noted s b) (hd : DistinctTids s) {id : TaskId} {t : Task}
    (ht : s.task id = some t) (hm : t.mode = .user) (hr : r ∈ b) (htid : r.tid = t.tid) :
    r.fate ≠ .underway := by
  intro hf
  obtain ⟨u, hu, hut, hum⟩ := h.underway r hr hf
  obtain rfl := hd _ _ u t hu ht (hut.trans htid)
  cases ht.symm.trans hu
  cases hm.symm.trans hum

/-- The task of a call that is under way is another than the one that enters a call. -/
theorem Noted.stays (h : Noted s b) {id : TaskId} {t : Task} {raw : RawEnter} {ctx : EnterCtx}
    (ht : s.task id = some t) (hm : t.mode = .user) (hr : r ∈ b) (hf : r.fate = .underway)
    {u : Task} (hu : s.task r.task = some u) :
    (s.entered id t raw ctx).task r.task = some u := by
  have hne : r.task ≠ id := by
    intro he
    obtain ⟨v, hv, -, hvm⟩ := h.underway r hr hf
    rw [he, ht] at hv
    cases hv
    cases hm.symm.trans hvm
  exact (update_of_ne hne _ _).trans hu

theorem Noted.entered_unkept (h : Noted s b) {id : TaskId} {t : Task} {raw : RawEnter}
    {ctx : EnterCtx} (ht : s.task id = some t) (hm : t.mode = .user)
    (htid : ctx.pidTgid.toUInt32 = t.tid) (hkept : keeps s.maps t.tid ctx = false) :
    Noted (s.entered id t raw ctx)
      (b.map (Recording.after s (.enter id raw ctx)) ++ recorded s (.enter id raw ctx)) := by
  have hnone : keptUnder s id ctx = none := by simp [keptUnder, ht, hkept]
  have hsame (r : Recording) : (r.after s (.enter id raw ctx)).fate = r.fate := by
    simp [Recording.after, hnone]
  have horphaned : (s.entered id t raw ctx).orphaned = s.orphaned := if_neg (by simp [hkept])
  refine h.elsewhere (fun tid => ?_) rfl (by simp [recorded, hnone]) (fun r _ hf => ?_)
    (fun r hr hf u hu => ?_) fun r hr hf => ?_
  · show (sysEnter ctx s.maps).enters.get tid = _
    rw [sysEnter_unkept htid hkept]
  · rwa [hsame]
  · exact h.stays ht hm hr (hsame r ▸ hf) hu
  · rw [horphaned]
    exact h.orphaned r hr (hsame r ▸ hf)

/-- A kept `sys_enter` leaves alone what is recorded under other tids, and takes the place of what
was left behind under its own. -/
theorem after_enter {id : TaskId} {t : Task} {raw : RawEnter} {ctx : EnterCtx}
    (hsome : keptUnder s id ctx = some t.tid) (r : Recording) :
    (r.after s (.enter id raw ctx)).fate = if r.tid = t.tid then r.fate.replaced else r.fate := by
  simp [Recording.after, hsome, eq_comm]

theorem Noted.apart (h : Noted s b) (hd : DistinctTids s) {id : TaskId} {t : Task} {raw : RawEnter}
    {ctx : EnterCtx} (ht : s.task id = some t) (hm : t.mode = .user)
    (hsome : keptUnder s id ctx = some t.tid) (hr : r ∈ b)
    (hf : (r.after s (.enter id raw ctx)).fate.Held) : r.tid ≠ t.tid := by
  intro he
  rw [after_enter hsome, if_pos he, Fate.held_replaced] at hf
  exact h.not_underway hd ht hm hr he hf

/-- `ENTERS` holds the new entry, and under the other tids what it held. -/
theorem Noted.entries_entered (h : Noted s b) (hd : DistinctTids s) {id : TaskId} {t : Task}
    {raw : RawEnter} {ctx : EnterCtx} (ht : s.task id = some t) (hm : t.mode = .user)
    (htid : ctx.pidTgid.toUInt32 = t.tid) (hraw : ∀ r, ctx.raw = .ok r → r = raw)
    (hkept : keeps s.maps t.tid ctx = true) (hsome : keptUnder s id ctx = some t.tid)
    (tid : UInt32) (e : Enter) : (sysEnter ctx s.maps).enters.get tid = some e ↔
      ∃ r ∈ b.map (Recording.after s (.enter id raw ctx)) ++
        [⟨id, t.tid, enterData raw ctx, .underway⟩], r.fate.Held ∧ r.tid = tid ∧ r.enter = e := by
  obtain ⟨hself, hother⟩ := sysEnter_kept htid hraw hkept
  by_cases he : tid = t.tid
  · subst he
    rw [hself]
    constructor
    · intro hsame
      cases hsame
      exact ⟨_, List.mem_append_right _ (List.mem_singleton_self _), .inl rfl, rfl, rfl⟩
    · rintro ⟨r', hr', hf, hrt, rfl⟩
      rcases List.mem_append.mp hr' with hr' | hr'
      · obtain ⟨r, hr, rfl⟩ := List.mem_map.mp hr'
        exact absurd hrt (h.apart (r := r) hd ht hm hsome hr hf)
      · cases List.mem_singleton.mp hr'
        rfl
  · have hsame (r : Recording) (_ : r ∈ b) (hrt : r.tid = tid) (hf : r.fate.Held) :
        (r.after s (.enter id raw ctx)).fate.Held := by
      rwa [after_enter hsome, if_neg (hrt ▸ he)]
    rw [hother tid he, h.entries, ← held_map tid e hsame]
    constructor
    · rintro ⟨r', hr', hrest⟩
      exact ⟨r', List.mem_append_left _ hr', hrest⟩
    · rintro ⟨r', hr', hf, hrt, hrest⟩
      refine ⟨r', (List.mem_append.mp hr').resolve_right fun hnow => ?_, hf, hrt, hrest⟩
      cases List.mem_singleton.mp hnow
      exact he hrt.symm

theorem Noted.entered_kept (h : Noted s b) (hd : DistinctTids s) {id : TaskId} {t : Task}
    {raw : RawEnter} {ctx : EnterCtx} (ht : s.task id = some t) (hm : t.mode = .user)
    (htid : ctx.pidTgid.toUInt32 = t.tid) (hraw : ∀ r, ctx.raw = .ok r → r = raw)
    (hkept : keeps s.maps t.tid ctx = true) : Noted (s.entered id t raw ctx)
      (b.map (Recording.after s (.enter id raw ctx)) ++ recorded s (.enter id raw ctx)) := by
  have hsome : keptUnder s id ctx = some t.tid := by simp [keptUnder, ht, hkept]
  have hnew : recorded s (.enter id raw ctx) = [⟨id, t.tid, enterData raw ctx, .underway⟩] := by
    simp [recorded, hsome]
  have horphaned : (s.entered id t raw ctx).orphaned = s.orphaned.erase t.tid := if_pos hkept
  rw [hnew]
  refine ⟨h.entries_entered hd ht hm htid hraw hkept hsome, ?_, fun r' hr' hf => ?_,
    fun r' hr' hf => ?_, fun x hx => h.told_after _ hx⟩
  · rw [List.pairwise_append]
    refine ⟨h.single_after, List.pairwise_singleton .., fun r' hr' q hq hf _ => ?_⟩
    obtain ⟨r, hr, rfl⟩ := List.mem_map.mp hr'
    cases List.mem_singleton.mp hq
    exact h.apart (r := r) hd ht hm hsome hr hf
  · rcases List.mem_append.mp hr' with hr' | hr'
    · obtain ⟨r, hr, rfl⟩ := List.mem_map.mp hr'
      have hold := after_underway hf
      obtain ⟨u, hu, hrest⟩ := h.underway r hr hold
      exact ⟨u, h.stays ht hm hr hold hu, hrest⟩
    · cases List.mem_singleton.mp hr'
      refine ⟨_, update_self .., rfl, ?_⟩
      rw [hkept]
  · rcases List.mem_append.mp hr' with hr' | hr'
    · obtain ⟨r, hr, rfl⟩ := List.mem_map.mp hr'
      have hne : r.tid ≠ t.tid := h.apart hd ht hm hsome hr (.inr hf)
      rw [after_enter hsome, if_neg hne] at hf
      rw [horphaned]
      exact Finset.mem_erase.mpr ⟨hne, h.orphaned r hr hf⟩
    · cases List.mem_singleton.mp hr'
      cases hf

theorem Noted.entered (h : Noted s b) (hd : DistinctTids s) {id : TaskId} {t : Task}
    {raw : RawEnter} {ctx : EnterCtx} (ht : s.task id = some t) (hm : t.mode = .user)
    (htid : ctx.pidTgid.toUInt32 = t.tid) (hraw : ∀ r, ctx.raw = .ok r → r = raw) :
    Noted (s.entered id t raw ctx)
      (b.map (Recording.after s (.enter id raw ctx)) ++ recorded s (.enter id raw ctx)) := by
  cases hkept : keeps s.maps t.tid ctx with
  | false => exact h.entered_unkept ht hm htid hkept
  | true => exact h.entered_kept hd ht hm htid hraw hkept

/-- The record that a `sys_exit` submits carries the recording that it takes out. -/
theorem Noted.tells (h : Noted s b) (hd : DistinctTids s) {id : TaskId} {t : Task}
    {enter : Option Enter} {kept : Bool} {ctx : ExitCtx} (ht : s.task id = some t)
    (hm : t.mode = .inCall enter kept) (htid : ctx.pidTgid.toUInt32 = t.tid)
    (htgid : (ctx.pidTgid >>> 32).toUInt32 = t.tgid) {rec : Record}
    (hrec : rec ∈ (sysExit ctx s.maps).events.drop s.maps.events.length) :
    ∃ r ∈ b, r.tid = t.tid ∧ r.Carried rec ∧
      (r.fate.ended = .paired ∧ OwnCall rec ⟨t.tid, t.tgid, enter, ctx.ret, ctx.now⟩ ∧
        enter = some r.enter ∨ r.fate.ended = .mispaired) := by
  obtain ⟨e, he, rfl⟩ := sysExit_records htid hrec
  obtain ⟨r, hr, hf, hrt, rfl⟩ := (h.entries _ _).mp he
  have hown := recordOf_own ctx s.maps r.enter
  rw [htid, htgid] at hown
  obtain ⟨e', he', hnr, hargs, hts, -⟩ := hown.enter
  cases he'
  refine ⟨r, hr, hrt, ⟨hown.task.1.trans hrt.symm, hnr, hargs, hts⟩, ?_⟩
  rcases Fate.ended_held hf with ⟨hf, hpaired⟩ | ⟨-, hmispaired⟩
  · obtain ⟨u, hu, hut, hum⟩ := h.underway r hr hf
    obtain rfl := hd _ _ u t hu ht (hut.trans hrt)
    cases ht.symm.trans hu
    cases hm.symm.trans hum
    exact .inl ⟨hpaired, hown, rfl⟩
  · exact .inr hmispaired

theorem Noted.exited (h : Noted s b) (hd : DistinctTids s) {id : TaskId} {t : Task}
    {enter : Option Enter} {kept : Bool} {ctx : ExitCtx} (ht : s.task id = some t)
    (hm : t.mode = .inCall enter kept) (htid : ctx.pidTgid.toUInt32 = t.tid)
    (htgid : (ctx.pidTgid >>> 32).toUInt32 = t.tgid) : Noted (s.exited id t enter ctx)
      (b.map (Recording.after s (.exit id ctx)) ++ recorded s (.exit id ctx)) := by
  obtain ⟨hself, hother⟩ := sysExit_enters (m := s.maps) htid
  have hsame (r : Recording) (hne : r.tid ≠ t.tid) :
      (r.after s (.exit id ctx)).fate = r.fate := by
    simp [Recording.after, htid, Ne.symm hne]
  have hended (r : Recording) (he : r.tid = t.tid) :
      (r.after s (.exit id ctx)).fate = r.fate.ended := by
    simp [Recording.after, htid, he]
  have apart (r : Recording) (hf : (r.after s (.exit id ctx)).fate.Held) : r.tid ≠ t.tid := by
    intro he
    rw [hended r he] at hf
    exact Fate.held_ended hf
  have hnone : recorded s (.exit id ctx) = [] := rfl
  rw [hnone, List.append_nil]
  refine ⟨fun tid e => ?_, h.single_after, fun r' hr' hf => ?_, fun r' hr' hf => ?_,
    fun x hx => ?_⟩
  · show (sysExit ctx s.maps).enters.get tid = some e ↔ _
    by_cases he : tid = t.tid
    · subst he
      rw [hself]
      refine iff_of_false nofun ?_
      rintro ⟨r', hr', hf, htid', -⟩
      obtain ⟨r, hr, rfl⟩ := List.mem_map.mp hr'
      exact apart r hf htid'
    · rw [hother tid he, h.entries, held_map tid e fun r _ hrt hf =>
        (hsame r (hrt ▸ he)).symm ▸ hf]
  · obtain ⟨r, hr, rfl⟩ := List.mem_map.mp hr'
    have hold := after_underway hf
    obtain ⟨u, hu, hut, hum⟩ := h.underway r hr hold
    have hne : r.task ≠ id := by
      intro he
      rw [he, ht] at hu
      cases hu
      exact apart r (.inl hf) hut.symm
    exact ⟨u, (update_of_ne hne _ _).trans hu, hut, hum⟩
  · obtain ⟨r, hr, rfl⟩ := List.mem_map.mp hr'
    have hne := apart r (.inr hf)
    rw [hsame r hne] at hf
    exact Finset.mem_erase.mpr ⟨hne, h.orphaned r hr hf⟩
  · rcases List.mem_append.mp hx with hx | hx
    · have htold := h.told_after (a := .exit id ctx) [] hx
      rwa [List.append_nil] at htold
    · obtain ⟨rec, hrec, rfl⟩ := List.mem_map.mp hx
      obtain ⟨r, hr, hrt, hcarried, hfate⟩ := h.tells hd ht hm htid htgid hrec
      refine ⟨_, List.mem_map_of_mem hr, hcarried, ?_⟩
      rwa [hended r hrt]

theorem Step.noted (h : Step follow s a s') (hd : DistinctTids s) (hn : Noted s b) :
    Noted s' (b.map (Recording.after s a) ++ recorded s a) := by
  cases a with
  | enter id raw ctx =>
    obtain ⟨t, ht, hm, htid, hraw, rfl⟩ := h
    exact hn.entered hd ht hm htid hraw
  | exit id ctx =>
    obtain ⟨t, enter, kept, ht, hm, htid, htgid, rfl⟩ := h
    exact hn.exited hd ht hm htid htgid
  | die id =>
    obtain ⟨t, ht, rfl⟩ := h
    exact hn.died ht
  | create parent child tid tgid ctx =>
    obtain ⟨p, -, -, hc, -, -, -, rfl⟩ := h
    exact hn.created hc
  | exec id leader =>
    obtain ⟨t, l, enter, kept, -, ht, hl, -, -, -, rfl⟩ := h
    exact hn.execed ht hl

/-- The book says what `ENTERS` holds: one entry for each task in a kept call and for each tid under
which one was left behind, each with the data of that very call. -/
structure Booked (s : System) (b : List Recording) : Prop extends Noted s b where
  calls : ∀ id t enter, s.task id = some t → t.mode = .inCall enter true →
    ∃ e, enter = some e ∧ ⟨id, t.tid, e, .underway⟩ ∈ b
  abandoned : ∀ tid ∈ s.orphaned, ∃ r ∈ b, r.tid = tid ∧ r.fate = .orphaned
  count : s.maps.enters.keys.card =
    b.countP (·.fate = .underway) + b.countP (·.fate = .orphaned)

theorem countP_held (b : List Recording) : b.countP (·.fate.Held) =
    b.countP (·.fate = .underway) + b.countP (·.fate = .orphaned) := by
  induction b with
  | nil => rfl
  | cons r b ih =>
    rw [List.countP_cons, List.countP_cons, List.countP_cons, ih]
    cases r.fate <;> simp [Fate.Held] <;> omega

theorem Noted.card_keys (h : Noted s b) : s.maps.enters.keys.card =
    b.countP (·.fate = .underway) + b.countP (·.fate = .orphaned) := by
  let held := (b.filter (·.fate.Held)).map Recording.tid
  have hkeys : s.maps.enters.keys = held.toFinset := by
    ext tid
    simp only [BoundedMap.mem_keys, Option.isSome_iff_exists, h.entries, held, List.mem_toFinset,
      List.mem_map, List.mem_filter, decide_eq_true_eq]
    constructor
    · rintro ⟨e, r, hr, hf, rfl, -⟩
      exact ⟨r, ⟨hr, hf⟩, rfl⟩
    · rintro ⟨r, ⟨hr, hf⟩, rfl⟩
      exact ⟨_, r, hr, hf, rfl, rfl⟩
  have hnodup : held.Nodup := by
    refine List.pairwise_map.mpr ((h.single.filter _).imp_of_mem fun hr hr' hne => ?_)
    exact hne (of_decide_eq_true (List.mem_filter.mp hr).2)
      (of_decide_eq_true (List.mem_filter.mp hr').2)
  rw [hkeys, List.toFinset_card_of_nodup hnodup, List.length_map, ← List.countP_eq_length_filter,
    countP_held]

theorem Noted.booked (h : Noted s b) (hd : DistinctTids s) (ho : Owned s) (hh : Held s) :
    Booked s b := by
  refine ⟨h, fun id t enter ht hm => ?_, fun tid hin => ?_, h.card_keys⟩
  · have hbusy : Busy s t.tid := (busy_self hd ht).mpr ⟨enter, hm⟩
    obtain ⟨e, he⟩ := Option.isSome_iff_exists.mp ((hh.keys t.tid).mpr (.inl hbusy))
    obtain ⟨i, u, hu, hut, hum⟩ := ho t.tid e he (hh.apart t.tid hbusy)
    obtain rfl := hd i id u t hu ht hut
    cases ht.symm.trans hu
    cases hm.symm.trans hum
    obtain ⟨⟨task, tid, e, fate⟩, hr, hf, rfl, rfl⟩ := (h.entries _ _).mp he
    rcases hf with rfl | rfl
    · obtain ⟨v, hv, hvt, -⟩ := h.underway _ hr rfl
      obtain rfl := hd task i v t hv ht hvt
      exact ⟨e, rfl, hr⟩
    · exact absurd (h.orphaned _ hr rfl) (hh.apart _ hbusy)
  · obtain ⟨e, he⟩ := Option.isSome_iff_exists.mp ((hh.keys tid).mpr (.inr hin))
    obtain ⟨r, hr, hf, rfl, -⟩ := (h.entries _ _).mp he
    rcases hf with hf | hf
    · obtain ⟨u, hu, hut, hum⟩ := h.underway r hr hf
      exact absurd hin (hh.apart _ ⟨r.task, u, hu, hut, _, hum⟩)
    · exact ⟨r, hr, rfl, hf⟩

theorem noted_run (hs : Attached s) {l : List (Action × System)} (h : IsRun (Step follow) s l) :
    DistinctTids (lastState s l) ∧ Owned (lastState s l) ∧
      Noted (lastState s l) (bookFrom s [] l) := by
  refine h.induction (motive := fun l => DistinctTids (lastState s l) ∧ Owned (lastState s l) ∧
    Noted (lastState s l) (bookFrom s [] l)) ?_ fun l x _ ih hstep => ?_
  · obtain ⟨⟨hd, hnone, htold⟩, -, -⟩ := hs
    refine ⟨hd, fun tid e he => ?_, fun tid e => ?_, .nil, ?_, ?_, fun x hx => ?_⟩
    · cases (hnone tid).symm.trans he
    · rw [lastState_nil, hnone]
      exact iff_of_false nofun fun ⟨r, hr, _⟩ => List.not_mem_nil hr
    · exact fun r hr => absurd hr List.not_mem_nil
    · exact fun r hr => absurd hr List.not_mem_nil
    · rw [lastState_nil, htold] at hx
      cases hx
  · obtain ⟨hd, ho, hn⟩ := ih
    rw [lastState_concat, bookFrom_concat]
    exact ⟨hstep.distinct hd, hstep.owned ho, hstep.noted hd hn⟩

/-- In every run each kept `sys_enter` has one fate: `ENTERS` holds the entries of the calls under
way and of those left behind, and no others, with the data of their own `sys_enter`; every record
carries a recording that its own `sys_exit` has taken out, or one left behind under the tid; and
every step records what this leaves room for. -/
theorem recording_accounted (run : Run Attached (Step follow)) :
    IsRun Accounted run.start run.steps ∧
      Booked (lastState run.start run.steps) (bookFrom run.start [] run.steps) := by
  obtain ⟨hd, ho, hn⟩ := noted_run run.starts run.valid
  exact ⟨accounted_run run.starts run.valid,
    hn.booked hd ho (held_run run.starts run.valid).2⟩

theorem twoTasks_attached : Attached twoTasks := by
  refine ⟨twoTasks_loaded, rfl, fun id t ht => not_kept_user ?_⟩
  simp only [twoTasks] at ht
  split_ifs at ht <;> cases ht <;> rfl

/-- The seeded task dies in its call, and a task that is given its tid returns from the call that
created it: the recording is taken out by a call that is not its own. -/
theorem recording_accounted_reuse :
    IsRun Accounted twoTasks reuseRun.steps ∧
      Booked (lastState twoTasks reuseRun.steps) (bookFrom twoTasks [] reuseRun.steps) ∧
      (bookFrom twoTasks [] reuseRun.steps).map Recording.fate = [.mispaired] := by
  obtain ⟨haccounted, hbooked⟩ :=
    recording_accounted ⟨twoTasks, reuseRun.steps, twoTasks_attached, reuseRun.valid⟩
  exact ⟨haccounted, hbooked, by decide⟩

end Syren.Kernel
