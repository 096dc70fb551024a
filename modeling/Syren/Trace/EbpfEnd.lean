import Mathlib.Data.Finset.Basic
import Syren.Interaction.Run
import Syren.Trace.EbpfCases
import Syren.Trace.EbpfSetup

/-! The end of a trace by the eBPF backend, which asks only for the seeded processes, against a
machine on which the traced tasks are created and die at any moment. -/
namespace Syren.EbpfTracer
open Interaction Interaction.Method Relation

/-- One pass of the loop in `next_event`, however many items the ring gives. -/
def passStep {σ : Type} (env : Kernel σ) (a : EbpfTracer × σ) (o : Outcome) (b : EbpfTracer × σ) :
    Prop := ∃ fuel, Runs env (nextEventPass fuel) a.1 a.2 o b.1 b.2

theorem passStep_iff {σ : Type} {env : Kernel σ} {a b : EbpfTracer × σ} {o : Outcome} :
    passStep env a o b ↔ ∃ fuel, Pass env fuel a.1 a.2 o b.1 b.2 :=
  exists_congr fun _ => runs_nextEventPass

/-- A call of `next_event` is a run of passes that all go round but the last, which returns. -/
theorem runs_nextEvent_iff {σ : Type} {env : Kernel σ} {t t' : EbpfTracer} {s s' : σ}
    {r : Except TraceError (Option Event)} :
    (∃ fuels, Runs env (nextEvent fuels) t s r t' s') ↔
      ∃ l o, IsRun (passStep env) (t, s) (l ++ [(o, (t', s'))]) ∧ (∀ x ∈ l, x.1 = .ok none) ∧
        returned o = some r := runs_loop_iff fun _ _ _ => Iff.rfl

structure Descent where
  /-- The living traced tasks. -/
  alive : Finset ℕ
  /-- The seeded processes that the process table still has. -/
  standing : Finset ℕ
  /-- A seeded process was found gone when none stood any more but a traced task was alive. -/
  abandoned : Bool
  deriving DecidableEq

/-- How tasks belong to processes, and the pids of the processes. -/
structure Belonging where
  home : ℕ → ℕ
  pid : ℕ → UInt32

namespace Descent

/-- A check has found a seeded process gone. -/
def checked (k : Descent) : Descent :=
  { k with abandoned := k.abandoned || (k.standing = ∅ && k.alive ≠ ∅) }

/-- A traced task creates a traced task only where forks are followed. A process goes when none of
its tasks is alive, at once or when its parent waits for it. -/
inductive Moves (follow : Bool) (b : Belonging) : Descent → Descent → Prop where
  | creates {k : Descent} {parent child : ℕ} (hf : follow = true) (hp : parent ∈ k.alive)
      (hc : child ∉ k.alive) (hh : b.home child = b.home parent ∨ b.home child ∉ k.standing) :
      Moves follow b k { k with alive := insert child k.alive }
  | dies {k : Descent} {id : ℕ} (hd : id ∈ k.alive) :
      Moves follow b k { k with alive := k.alive.erase id }
  | goes {k : Descent} {p : ℕ} (hp : p ∈ k.standing) (hd : ∀ id ∈ k.alive, b.home id ≠ p) :
      Moves follow b k { k with standing := k.standing.erase p }

/-- No seeded process has the pid. -/
def Gone (b : Belonging) (k : Descent) (pid : UInt32) : Prop := ∀ p ∈ k.standing, b.pid p ≠ pid

/-- A process is reported dead, or unknown, only when it is gone. -/
def Answers (b : Belonging) (k : Descent) : (c : Call) → c.Answer → Descent → Prop
  | .waitNohang child, .ok st, k' =>
      if st.death.isSome then k.Gone b child.toU32 ∧ k' = k.checked else k' = k
  | .waitNohang child, .error _, k' => k.Gone b child.toU32 ∧ k' = k.checked
  | .kill pid _, .error e, k' => if e = .EPERM then k' = k else k.Gone b pid ∧ k' = k.checked
  | _, _, k' => k' = k

/-- No seeded process is left, and when that was found no traced task was alive, unless it is
noted. -/
def Over (k : Descent) : Prop := k.standing = ∅ ∧ (k.abandoned = true ∨ k.alive = ∅)

end Descent

/-- The tasks may do anything before a call is answered. -/
def descentKernel (follow : Bool) (b : Belonging) : Kernel Descent :=
  moving (Descent.Moves follow b) (Descent.Answers b)

/-- No call of `next_event` returned `None` while a traced task was alive. -/
def NotEarly (l : List (Outcome × (EbpfTracer × Descent))) : Prop :=
  ∀ x ∈ l, x.1 = .ok (some none) → x.2.2.alive = ∅

/-- Where forks are not followed the traced tasks are those of the seeded processes. -/
def Own (follow : Bool) (b : Belonging) (k : Descent) : Prop :=
  follow = false → ∀ id ∈ k.alive, b.home id ∈ k.standing

/-- What does not change for the better while time passes. -/
structure Ages (follow : Bool) (b : Belonging) (k k' : Descent) : Prop where
  standing : k'.standing ⊆ k.standing
  abandoned : k.abandoned = true → k'.abandoned = true
  ended : k.Over → k'.Over
  own : Own follow b k → Own follow b k'

variable {follow : Bool} {b : Belonging} {k k' : Descent} {t t' : EbpfTracer}

theorem Ages.refl (k : Descent) : Ages follow b k k := ⟨subset_rfl, id, id, id⟩

theorem Ages.trans {k₁ : Descent} (h : Ages follow b k k₁) (h' : Ages follow b k₁ k') :
    Ages follow b k k' :=
  ⟨h'.standing.trans h.standing, h'.abandoned ∘ h.abandoned, h'.ended ∘ h.ended, h'.own ∘ h.own⟩

theorem Descent.Moves.ages (h : Descent.Moves follow b k k') : Ages follow b k k' := by
  cases h with
  | creates hf hp hc hh =>
    refine ⟨subset_rfl, id, fun ho => ⟨ho.1, ?_⟩, fun _ hff => ?_⟩
    · rcases ho.2 with ha | ha
      · exact .inl ha
      · rw [ha] at hp
        exact absurd hp (Finset.notMem_empty _)
    · rw [hf] at hff
      cases hff
  | dies hd =>
    refine ⟨subset_rfl, id, fun ho => ⟨ho.1, ?_⟩, fun ho hf id hid => ?_⟩
    · rcases ho.2 with ha | ha
      · exact .inl ha
      · exact .inr (by simp [ha])
    · exact ho hf id (Finset.mem_of_mem_erase hid)
  | goes hp hd =>
    refine ⟨Finset.erase_subset _ _, id, fun ho => ⟨by simp [ho.1], ho.2⟩, fun ho hf id hid => ?_⟩
    exact Finset.mem_erase.mpr ⟨hd id hid, ho hf id hid⟩

theorem Descent.checked_ages (k : Descent) : Ages follow b k k.checked := by
  refine ⟨subset_rfl, fun ha => ?_, fun ho => ⟨ho.1, ?_⟩, id⟩
  · simp [Descent.checked, ha]
  · rcases ho.2 with ha | ha
    · left
      simp [Descent.checked, ha]
    · exact .inr ha

theorem Descent.checked_over (h : k.standing = ∅) : k.checked.Over := by
  refine ⟨h, ?_⟩
  by_cases ha : k.alive = ∅
  · exact .inr ha
  · left
    simp [Descent.checked, h, ha]

theorem Descent.Answers.ages {c : Call} {a : c.Answer} (h : k.Answers b c a k') :
    Ages follow b k k' := by
  unfold Descent.Answers at h
  split at h
  · split_ifs at h
    · exact h.2 ▸ k.checked_ages
    · exact h ▸ .refl _
  · exact h.2 ▸ k.checked_ages
  · split_ifs at h
    · exact h ▸ .refl _
    · exact h.2 ▸ k.checked_ages
  · exact h ▸ .refl _

theorem asked_ages {c : Call} {a : c.Answer} (h : descentKernel follow b k c a k') :
    Ages follow b k k' :=
  moving_keeps h (fun _ _ hstep hk => hk.trans hstep.ages) (fun _ ha hk => hk.trans ha.ages)
    (.refl k)

/-- Whatever a method asks of the machine, time only passes. -/
theorem runs_ages {α : Type} {m : Polling α} {r : Except TraceError α}
    (h : Runs (descentKernel follow b) m t k r t' k') : Ages follow b k k' :=
  Program.Exec.keeps (P := fun k₁ : Descent => Ages follow b k k₁)
    (fun _ _ _ _ ha hk => hk.trans (asked_ages ha)) h (.refl k)

theorem Drains.ages {fuel : ℕ} {items : List (List UInt8)}
    (h : Drains (descentKernel follow b) fuel k items k') : Ages follow b k k' := by
  induction h with
  | empty ha => exact asked_ages ha
  | item ha _ ih => exact (asked_ages ha).trans ih

theorem AllGone.ages {pids : List UInt32} {gone : Bool}
    (h : AllGone (descentKernel follow b) pids k gone k') : Ages follow b k k' := by
  induction h with
  | none => exact .refl _
  | alive ha => exact asked_ages ha
  | gone ha _ _ ih => exact (asked_ages ha).trans ih

theorem Descent.Gone.mono {pid : UInt32} (h : k.Gone b pid) (hs : k'.standing ⊆ k.standing) :
    k'.Gone b pid := fun p hp => h p (hs hp)

/-- A check has just found the pid gone: if no other process stands either, that is noted. -/
def FoundGone (b : Belonging) (k : Descent) (pid : UInt32) : Prop :=
  k.Gone b pid ∧ (k.standing = ∅ → k.Over)

theorem foundGone_checked {pid : UInt32} (h : k.Gone b pid) : FoundGone b k.checked pid :=
  ⟨h, fun hs => Descent.checked_over hs⟩

/-- The pids that decide about the end are the same. -/
def SamePoll (t t' : EbpfTracer) : Prop := t'.child = t.child ∧ t'.watch = t.watch

theorem SamePoll.polled (h : SamePoll t t') : t'.polled = t.polled := by
  unfold EbpfTracer.polled
  rw [h.1, h.2]

theorem foundGone_of_kill {pid : UInt32} {a : Except Errno Unit}
    (ha : descentKernel follow b k (.kill pid 0) a k') (h : isAlive a = false) :
    FoundGone b k' pid := by
  obtain ⟨k₁, -, ha⟩ := ha
  obtain e | _ := a
  · simp only [Descent.Answers, if_neg (of_decide_eq_false h)] at ha
    obtain ⟨hgone, rfl⟩ := ha
    exact foundGone_checked hgone
  · cases h

/-- The checks of a watch list, the last of which notes what it finds. -/
theorem AllGone.found {pids : List UInt32} (h : AllGone (descentKernel follow b) pids k true k') :
    (∀ pid ∈ pids, k'.Gone b pid) ∧ (pids ≠ [] → k'.standing = ∅ → k'.Over) := by
  generalize hgone : true = gone at h
  induction h with
  | none => exact ⟨nofun, fun hne => absurd rfl hne⟩
  | alive => cases hgone
  | @gone pid pids _ _ _ _ _ ha halive hrest ih =>
    obtain ⟨hfirst, hover⟩ := foundGone_of_kill ha halive
    obtain ⟨hall, hlast⟩ := ih hgone
    refine ⟨fun p hp => ?_, fun _ => ?_⟩
    · rcases List.mem_cons.mp hp with rfl | hp
      · exact hfirst.mono hrest.ages.standing
      · exact hall p hp
    · cases pids with
      | nil =>
        cases hrest
        exact hover
      | cons => exact hlast (List.cons_ne_nil _ _)

/-- Every seeded process that stands is polled. -/
def Covered (b : Belonging) (t : EbpfTracer) (k : Descent) : Prop :=
  ∀ p ∈ k.standing, b.pid p ∈ t.polled

theorem Covered.none_standing (h : Covered b t k) (hg : ∀ pid ∈ t.polled, k.Gone b pid) :
    k.standing = ∅ := Finset.eq_empty_of_forall_notMem fun p hp => hg _ (h p hp) p hp rfl

/-- What a part of a pass does about the end: it polls as before, and it decides for the end only
where no seeded process stands. -/
def Decides (t t' : EbpfTracer) (k' : Descent) : Prop :=
  SamePoll t t' ∧ (t'.finished = true → t.finished = true ∨ k'.Over)

theorem Covered.ages (h : Covered b t k) (ha : Ages follow b k k') : Covered b t k' :=
  fun p hp => h p (ha.standing hp)

theorem decides_same : Decides t t k := ⟨⟨rfl, rfl⟩, .inl⟩

/-- A child that is reported dead stands no more, and if no other process does, that is noted. -/
theorem foundGone_of_wait {child : Pid} {a : Except Errno WaitStatus} {code : Int32}
    (ha : descentKernel follow b k (.waitNohang child) a k') (h : endCode a = some code) :
    FoundGone b k' child.toU32 := by
  obtain ⟨k₁, -, ha⟩ := ha
  have hgone : k₁.Gone b child.toU32 ∧ k' = k₁.checked := by
    obtain e | st := a
    · exact ha
    · cases st with
      | exited | signaled => exact ha
      | stopped | ptraceEvent | ptraceSyscall | continued | stillAlive => cases h
  obtain ⟨hgone, rfl⟩ := hgone
  exact foundGone_checked hgone

/-- The end is decided for only after all that is polled was found gone. -/
theorem Liveness.decides {fuel : ℕ} {ended : Bool} (hc : Covered b t k)
    (h : Liveness (descentKernel follow b) fuel t k ended t' k') : Decides t t' k' := by
  have finish {items : List (List UInt8)} {k₁ : Descent} (hover : k₁.standing = ∅ → k₁.Over)
      (hgone : ∀ pid ∈ t.polled, k₁.Gone b pid) (hage : Ages follow b k k₁)
      (hi : Drains (descentKernel follow b) fuel k₁ items k') : k'.Over :=
    hi.ages.ended (hover ((hc.ages hage).none_standing hgone))
  cases h with
  | dead hchild ha he hi =>
    obtain ⟨hgone, hover⟩ := foundGone_of_wait ha he
    refine ⟨⟨rfl, rfl⟩, fun _ => .inr (finish hover (fun pid hp => ?_) (asked_ages ha) hi)⟩
    rw [polled, hchild, List.mem_singleton] at hp
    exact hp ▸ hgone
  | allGone hchild hw hg hi =>
    obtain ⟨hgone, hover⟩ := hg.found
    refine ⟨⟨rfl, rfl⟩, fun _ => .inr (finish (hover hw) (fun pid hp => ?_) hg.ages hi)⟩
    rw [polled, hchild] at hp
    exact hgone pid hp
  | alive | unwatched | someAlive => exact decides_same

/-- A pass decides as the check of the seeded processes does, and `None` is returned only after the
decision. -/
theorem Pass.decides {fuel : ℕ} {o : Outcome} (hc : Covered b t k)
    (h : Pass (descentKernel follow b) fuel t k o t' k') :
    Decides t t' k' ∧ (o = .ok (some none) → t'.finished = true) := by
  cases h with
  | pops | fills => exact ⟨⟨⟨rfl, rfl⟩, .inl⟩, nofun⟩
  | ends _ _ _ hf => exact ⟨decides_same, fun _ => hf⟩
  | finishes _ hi _ _ hl => exact ⟨hl.decides (hc.ages hi.ages), nofun⟩
  | polls _ hi _ _ hl hp =>
    obtain ⟨hsame, hend⟩ := hl.decides (hc.ages hi.ages)
    exact ⟨⟨hsame, fun he => (hend he).imp id (asked_ages hp).ended⟩, nofun⟩

/-- The invariant: every seeded process that still stands is polled, and the tracer has decided for
the end only where none does. -/
structure Watching (follow : Bool) (b : Belonging) (t : EbpfTracer) (k : Descent) : Prop where
  covered : Covered b t k
  ended : t.finished = true → k.Over
  own : Own follow b k

theorem Watching.pass {a c : EbpfTracer × Descent} {o : Outcome} (h : Watching follow b a.1 a.2)
    (hs : passStep (descentKernel follow b) a o c) : Watching follow b c.1 c.2 := by
  obtain ⟨fuel, hr⟩ := hs
  have hages := runs_ages hr
  obtain ⟨⟨hsame, hend⟩, -⟩ := (runs_nextEventPass.mp hr).decides h.covered
  refine ⟨fun p hp => ?_, fun he => ?_, hages.own h.own⟩
  · rw [hsame.polled]
    exact h.covered p (hages.standing hp)
  · rcases hend he with hf | ho
    · exact hages.ended (h.ended hf)
    · exact ho

/-- The tracer has been handed out, and the traced tasks are those whose processes it has seeded. -/
def Starts (follow : Bool) (b : Belonging) (a : EbpfTracer × Descent) : Prop :=
  ∃ seeds, Built follow a.1 seeds ∧ (∀ p ∈ a.2.standing, b.pid p ∈ seeds) ∧
    (∀ id ∈ a.2.alive, b.home id ∈ a.2.standing) ∧ a.2.abandoned = false

theorem Starts.watching {a : EbpfTracer × Descent} (h : Starts follow b a) :
    Watching follow b a.1 a.2 := by
  obtain ⟨seeds, hb, hstanding, halive, -⟩ := h
  obtain ⟨hfinished, hseeds⟩ := hb.ready
  refine ⟨fun p hp => hseeds (hstanding p hp), fun he => ?_, fun _ => halive⟩
  rw [hfinished] at he
  cases he

/-- Runs of the tracer: successive passes of `next_event`. -/
abbrev PollRun (follow : Bool) (b : Belonging) :=
  Run (Starts follow b) (passStep (descentKernel follow b))

/-- Where the tracer has decided for the end and abandoned nobody, no traced task is alive. -/
theorem Watching.none_alive (h : Watching follow b t k) (hf : t.finished = true)
    (hk : follow = true → k.abandoned = false) : k.alive = ∅ := by
  obtain ⟨hnone, hover⟩ := h.ended hf
  cases hfollow : follow with
  | true =>
    rcases hover with hab | halive
    · rw [hk hfollow] at hab
      cases hab
    · exact halive
  | false =>
    apply Finset.eq_empty_of_forall_notMem
    intro id hid
    have hhome := h.own hfollow id hid
    rw [hnone] at hhome
    exact absurd hhome (Finset.notMem_empty _)

/-- Without follow, and with follow in every run in which no check of the seeded processes finds
the last of them gone while a traced task is alive, `None` is returned only after every traced task
has died. -/
theorem not_early_of_none_abandoned (run : PollRun follow b)
    (h : follow = true → (lastState run.start run.steps).2.abandoned = false) :
    NotEarly run.steps := by
  have hend : ¬ (follow = true ∧ (lastState run.start run.steps).2.abandoned = true) := by
    rintro ⟨hf, hab⟩
    rw [h hf] at hab
    cases hab
  refine run.valid.faultless (I := fun a => Watching follow b a.1 a.2)
    (F := fun a => follow = true ∧ a.2.abandoned = true)
    (Q := fun o a => o = .ok (some none) → a.2.alive = ∅) run.starts.watching
    (fun _ _ _ hw hs => hw.pass hs) ?_ ?_ hend
  · rintro a o c ⟨fuel, hr⟩ ⟨hf, hab⟩
    exact ⟨hf, (runs_ages hr).abandoned hab⟩
  · intro a o c hw hs hkept ho
    obtain ⟨fuel, hr⟩ := hs
    have hfinished := ((runs_nextEventPass.mp hr).decides hw.covered).2 ho
    refine (hw.pass ⟨fuel, hr⟩).none_alive hfinished fun hf => ?_
    simpa [hf] using hkept

/-- The tracer of a spawned program with the pid 100. -/
def spawned : EbpfTracer where
  leader := some 100
  baselineNs := 0
  child := some ⟨100⟩
  watch := []
  queue := []
  current := none
  finished := false

def seeding (k : List UInt32) (c : Call) : Option (c.Answer × List UInt32) :=
  (granted c).map fun a => (a, match c with
    | .targetsInsert tid => tid :: k
    | _ => k)

theorem seedKernel_seeding (k : List UInt32) (c : Call) (a : c.Answer) (k' : List UInt32)
    (h : seeding k c = some (a, k')) : seedKernel k c a k' := by
  cases c <;> cases h <;> rfl

theorem built_spawned : Built true spawned [100] := by
  refine ⟨[], .spawn [47] [], ?_⟩
  exact Program.exec_of_play seedKernel_seeding rfl

/-- Each task is a process of its own, and the first has the pid 100. -/
def numbered : Belonging := ⟨fun id => id, fun p => UInt32.ofNat (100 + p)⟩

def first : Descent := ⟨{0}, {0}, false⟩

/-- The child is found to have exited when only `alive` is left; its exit is returned and then
`None`. -/
def exitRun (alive : Finset ℕ)
    (hm : ReflTransGen (Descent.Moves true numbered) first ⟨alive, ∅, false⟩) :
    PollRun true numbered :=
  let k : Descent := ⟨alive, ∅, false⟩
  let t₁ : EbpfTracer := { spawned with queue := [(.processExit 100 0, none)], finished := true }
  let t₂ : EbpfTracer := { spawned with finished := true }
  { start := (spawned, first)
    steps := [(.ok none, (t₁, k.checked)),
      (.ok (some (some (.processExit 100 0))), (t₂, k.checked)),
      (.ok (some none), (t₂, k.checked))]
    starts := ⟨[100], built_spawned, by decide, by decide, rfl⟩
    valid := by
      have drained {t : EbpfTracer} {k₀ k₁ : Descent}
          (hm : ReflTransGen (Descent.Moves true numbered) k₀ k₁) :
          Runs (descentKernel true numbered) (drainRing 1) t k₀ (.ok ()) t k₁ :=
        runs_ask_bind.mpr ⟨none, k₁, ⟨k₁, hm, rfl⟩, runs_pure.mpr ⟨rfl, rfl, rfl⟩⟩
      have hgone : k.Gone numbered 100 := by simp [Descent.Gone, k]
      refine ⟨⟨1, ?_⟩, ⟨1, runs_pure.mpr ⟨rfl, rfl, rfl⟩⟩, ⟨1, ?_⟩, trivial⟩
      · refine runs_get_bind.mpr (runs_bind.mpr (.inl ⟨(), spawned, k, drained hm, ?_⟩))
        refine runs_get_bind.mpr (runs_get_bind.mpr ?_)
        refine runs_bind.mpr (.inl ⟨true, t₁, k.checked, ?_, runs_pure.mpr ⟨rfl, rfl, rfl⟩⟩)
        refine runs_ask_bind.mpr ⟨.ok (.exited ⟨100⟩ 0), k.checked, ⟨k, .refl, hgone, rfl⟩, ?_⟩
        refine runs_bind.mpr (.inl ⟨(), t₁, k.checked, ?_, runs_pure.mpr ⟨rfl, rfl, rfl⟩⟩)
        exact runs_bind.mpr (.inl ⟨(), spawned, k.checked, drained .refl,
          runs_modify.mpr ⟨rfl, rfl, rfl⟩⟩)
      · exact runs_get_bind.mpr (runs_bind.mpr (.inl ⟨(), t₂, k.checked, drained .refl,
          runs_pure.mpr ⟨rfl, rfl, rfl⟩⟩)) }

theorem creates_first : Descent.Moves true numbered first ⟨{1, 0}, {0}, false⟩ :=
  @Descent.Moves.creates true numbered first 0 1 rfl (by decide) (by decide) (.inr (by decide))

/-- The child has created a process that exits before it. -/
theorem not_early_exit_after_child :
    ∃ run : PollRun true numbered, run.steps.length = 3 ∧ NotEarly run.steps := by
  have hexits : Descent.Moves true numbered ⟨{1, 0}, {0}, false⟩ ⟨{0}, {0}, false⟩ :=
    @Descent.Moves.dies true numbered ⟨{1, 0}, {0}, false⟩ 1 (by decide)
  have hdies : Descent.Moves true numbered ⟨{0}, {0}, false⟩ ⟨∅, {0}, false⟩ :=
    @Descent.Moves.dies true numbered ⟨{0}, {0}, false⟩ 0 (by decide)
  have hgoes : Descent.Moves true numbered ⟨∅, {0}, false⟩ ⟨∅, ∅, false⟩ :=
    @Descent.Moves.goes true numbered ⟨∅, {0}, false⟩ 0 (by decide) (by decide)
  have hm := ReflTransGen.tail (.tail (.tail (.single creates_first) hexits) hdies) hgoes
  exact ⟨exitRun ∅ hm, rfl, not_early_of_none_abandoned _ fun _ => rfl⟩

/-- The child has created a process and exits: that process outlives the trace. -/
theorem ends_with_descendant_alive :
    ¬ ∀ run : PollRun true numbered, NotEarly run.steps := by
  intro h
  have hdies : Descent.Moves true numbered ⟨{1, 0}, {0}, false⟩ ⟨{1}, {0}, false⟩ :=
    @Descent.Moves.dies true numbered ⟨{1, 0}, {0}, false⟩ 0 (by decide)
  have hgoes : Descent.Moves true numbered ⟨{1}, {0}, false⟩ ⟨{1}, ∅, false⟩ :=
    @Descent.Moves.goes true numbered ⟨{1}, {0}, false⟩ 0 (by decide) (by decide)
  have hm := ReflTransGen.tail (.tail (.single creates_first) hdies) hgoes
  have halive := h (exitRun {1} hm) _ (List.mem_of_mem_getLast? rfl) rfl
  exact absurd halive (by decide)

end Syren.EbpfTracer
