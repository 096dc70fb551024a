import Syren.Kernel.RoundTrip
import Syren.Trace.EbpfEnd
import Syren.Trace.Memory

/-! The queue between the ring and the callers of `next_event`, against a kernel that pushes items
to the ring at any moment and answers the checks of the target in any way. -/
namespace Syren.EbpfTracer
open Interaction Interaction.Method Relation

structure Ring where
  /-- The items that were taken out of the ring, and those still in it. -/
  taken : List (List UInt8)
  waiting : List (List UInt8)
  /-- The pids reported gone since a pid was last reported alive. -/
  gone : List UInt32
  /-- The items pushed before a pid was last reported gone. -/
  before : List (List UInt8)

namespace Ring

/-- The items ever pushed. -/
def pushed (k : Ring) : List (List UInt8) := k.taken ++ k.waiting

def reports (k : Ring) (pid : UInt32) : Ring :=
  { k with gone := pid :: k.gone, before := k.pushed }

def hears (k : Ring) : Ring := { k with gone := [] }

inductive Pushes : Ring → Ring → Prop where
  | push (k : Ring) (item : List UInt8) : Pushes k { k with waiting := k.waiting ++ [item] }

def Answers : Ring → (c : Call) → c.Answer → Ring → Prop
  | k, .ringNext, some item, k' => ∃ rest, k.waiting = item :: rest ∧
      k' = { k with taken := k.taken ++ [item], waiting := rest }
  | k, .ringNext, none, k' => k.waiting = [] ∧ k' = k
  | k, .waitNohang child, .ok st, k' =>
      k' = if st.death.isSome then k.reports child.toU32 else k.hears
  | k, .waitNohang child, .error _, k' => k' = k.reports child.toU32
  | k, .kill _ _, .ok (), k' => k' = k.hears
  | k, .kill pid _, .error e, k' => k' = if e = .EPERM then k.hears else k.reports pid
  | k, _, _, k' => k' = k

end Ring

/-- Items may be pushed before any call is answered. -/
def ringKernel : Kernel Ring := moving Ring.Pushes Ring.Answers

/-- The whole target was found dead by the last checks. -/
def Found (t : EbpfTracer) (k : Ring) : Prop := t.polled ≠ [] ∧ ∀ pid ∈ t.polled, pid ∈ k.gone

/-- The records that the items of the ring hold: the items that are too short hold none. -/
def recordsOf (items : List (List UInt8)) : List Record := items.filterMap Record.fromBytes

/-- What a record is to be returned as: its event, with its capture if it has one. -/
def told (baseline : UInt64) (rec : Record) : Event × Option Capture :=
  (.syscall (recordToEvent rec baseline),
    if rec.capLen = 0 then none else some ⟨rec.capAddr, rec.captured⟩)

def toldAll (t : EbpfTracer) (items : List (List UInt8)) : List (Event × Option Capture) :=
  (recordsOf items).map (told t.baselineNs)

/-- The exit that goes into the queue when the target has been found dead. -/
def exitOf (t : EbpfTracer) (code : Int32) : List (Event × Option Capture) :=
  (t.leader.map fun pid => (Event.processExit pid code, none)).toList

/-- The entry is made of the item: it is the event of the item's record, and its memory is the
leading part of the item's buffer, if there is a capture. -/
def MadeOf (baseline : UInt64) (item : List UInt8) (x : Event × Option Capture) : Prop :=
  ∃ rec, Record.fromBytes item = some rec ∧ x.1 = .syscall (recordToEvent rec baseline) ∧
    (rec.capLen = 0 → x.2 = none) ∧ (rec.capLen ≠ 0 →
      x.2 = some ⟨rec.capAddr, (item.drop 104).take (min rec.capLen.toNat CAP_BYTES)⟩)

/-- What changes the ring but by its pushes. -/
structure Grown (k k' : Ring) (items : List (List UInt8)) : Prop where
  taken : k'.taken = k.taken ++ items
  pushed : k.pushed <+: k'.pushed
  gone : k'.gone = k.gone
  before : k'.before = k.before

variable {k k' k₁ : Ring} {t t' : EbpfTracer}

theorem Grown.refl (k : Ring) : Grown k k [] := ⟨by simp, List.prefix_rfl, rfl, rfl⟩

theorem Grown.trans {l m : List (List UInt8)} (h : Grown k k₁ l) (h' : Grown k₁ k' m) :
    Grown k k' (l ++ m) :=
  ⟨by rw [h'.taken, h.taken, List.append_assoc], h.pushed.trans h'.pushed, h'.gone.trans h.gone,
    h'.before.trans h.before⟩

theorem moved_grown (h : ReflTransGen Ring.Pushes k k') : Grown k k' [] := by
  refine moved_keeps h (P := fun k₁ => Grown k k₁ []) (fun k₁ k₂ hstep hk => ?_) (.refl k)
  cases hstep with
  | push item => exact hk.trans ⟨by simp, ⟨[item], by simp [Ring.pushed]⟩, rfl, rfl⟩

theorem recordsOf_toBytes (records : List Record) :
    recordsOf (records.map Record.toBytes) = records := by
  rw [recordsOf, List.filterMap_map]
  refine (List.filterMap_congr fun r _ => ?_).trans List.filterMap_some
  rw [Function.comp_apply, ← List.append_nil r.toBytes, Record.fromBytes_toBytes]

theorem toldAll_append (l m : List (List UInt8)) :
    toldAll t (l ++ m) = toldAll t l ++ toldAll t m := by
  simp [toldAll, recordsOf]

theorem madeOf_told {baseline : UInt64} {item : List UInt8} {rec : Record}
    (h : Record.fromBytes item = some rec) : MadeOf baseline item (told baseline rec) := by
  refine ⟨rec, h, rfl, fun hlen => ?_, fun hlen => ?_⟩
  · rw [told, if_pos hlen]
  · rw [told, if_neg hlen, Record.captured_fromBytes h]

theorem mem_toldAll {items : List (List UInt8)} {x : Event × Option Capture}
    (h : x ∈ toldAll t items) : ∃ item ∈ items, MadeOf t.baselineNs item x := by
  obtain ⟨rec, hrec, rfl⟩ := List.mem_map.mp h
  obtain ⟨item, hitem, hbytes⟩ := List.mem_filterMap.mp hrec
  exact ⟨item, hitem, madeOf_told hbytes⟩

theorem mem_exitOf {code : Int32} {x : Event × Option Capture} (h : x ∈ exitOf t code) :
    ∃ pid, t.leader = some pid ∧ x = (.processExit pid code, none) := by
  cases hl : t.leader with
  | none => simp [exitOf, hl] at h
  | some pid =>
    refine ⟨pid, rfl, ?_⟩
    simpa [exitOf, hl] using h

theorem queued_told (baseline : UInt64) (item : List UInt8) :
    queued baseline item = (Record.fromBytes item).map (told baseline) := by
  unfold queued told
  congr 1
  funext rec
  by_cases hlen : rec.capLen = 0
  · simp [hlen]
  · rw [if_neg hlen, if_pos (UInt32.pos_iff_ne_zero.mpr hlen)]

theorem filterMap_queued (t : EbpfTracer) (items : List (List UInt8)) :
    items.filterMap (queued t.baselineNs) = toldAll t items := by
  rw [toldAll, recordsOf, List.map_filterMap]
  exact List.filterMap_congr fun item _ => queued_told t.baselineNs item

/-- Everything in the ring is taken out of it, in order. -/
theorem Drains.grown {fuel : ℕ} {items : List (List UInt8)}
    (h : Drains ringKernel fuel k items k') : k'.waiting = [] ∧ Grown k k' items := by
  induction h with
  | empty ha =>
    obtain ⟨k₁, hmoved, hnone, rfl⟩ := ha
    exact ⟨hnone, moved_grown hmoved⟩
  | @item _ item items _ _ _ ha _ ih =>
    obtain ⟨k₁, hmoved, rest, hwait, rfl⟩ := ha
    obtain ⟨hnone, hgrown⟩ := ih
    have hone : Grown k₁ { k₁ with taken := k₁.taken ++ [item], waiting := rest } [item] :=
      ⟨rfl, by simp [Ring.pushed, hwait], rfl, rfl⟩
    exact ⟨hnone, ((moved_grown hmoved).trans hone).trans hgrown⟩

/-- What a check of one pid does to the ring: nothing but to note the answer. -/
structure Checked (k k' : Ring) : Prop where
  taken : k'.taken = k.taken
  pushed : k.pushed <+: k'.pushed
  before : k.before <+: k.pushed → k'.before <+: k'.pushed

theorem Checked.refl (k : Ring) : Checked k k := ⟨rfl, List.prefix_rfl, id⟩

theorem Checked.trans (h : Checked k k₁) (h' : Checked k₁ k') : Checked k k' :=
  ⟨h'.taken.trans h.taken, h.pushed.trans h'.pushed, h'.before ∘ h.before⟩

theorem Grown.checked (h : Grown k k' []) : Checked k k' :=
  ⟨by simpa using h.taken, h.pushed, fun hb => h.before ▸ hb.trans h.pushed⟩

theorem checked_reports (k : Ring) (pid : UInt32) : Checked k (k.reports pid) :=
  ⟨rfl, List.prefix_rfl, fun _ => List.prefix_rfl⟩

theorem checked_hears (k : Ring) : Checked k k.hears := ⟨rfl, List.prefix_rfl, id⟩

theorem asked_alive {pid : UInt32} {a : Except Errno Unit}
    (ha : ringKernel k (.kill pid 0) a k') (h : isAlive a = true) :
    Checked k k' ∧ k'.gone = [] := by
  obtain ⟨k₁, hmoved, ha⟩ := ha
  have hk : k' = k₁.hears := by
    obtain e | _ := a
    · exact ha.trans (if_pos (of_decide_eq_true h))
    · exact ha
  exact hk ▸ ⟨(moved_grown hmoved).checked.trans (checked_hears k₁), rfl⟩

theorem asked_gone {pid : UInt32} {a : Except Errno Unit}
    (ha : ringKernel k (.kill pid 0) a k') (h : isAlive a = false) :
    Checked k k' ∧ k'.gone = pid :: k.gone := by
  obtain ⟨k₁, hmoved, ha⟩ := ha
  have hgrown := moved_grown hmoved
  have hk : k' = k₁.reports pid := by
    obtain e | _ := a
    · exact ha.trans (if_neg (of_decide_eq_false h))
    · cases h
  exact hk ▸ ⟨hgrown.checked.trans (checked_reports k₁ pid), congrArg (pid :: ·) hgrown.gone⟩

theorem AllGone.checked {pids : List UInt32} {b : Bool} (h : AllGone ringKernel pids k b k') :
    Checked k k' := by
  induction h with
  | none => exact .refl _
  | alive ha h => exact (asked_alive ha h).1
  | gone ha h _ ih => exact (asked_gone ha h).1.trans ih

theorem AllGone.reported {pids : List UInt32} (h : AllGone ringKernel pids k true k') :
    k.gone ⊆ k'.gone ∧ pids ⊆ k'.gone := by
  generalize hb : true = b at h
  induction h with
  | none => exact ⟨List.Subset.refl _, List.nil_subset _⟩
  | alive => cases hb
  | gone ha h _ ih =>
    obtain ⟨hsub, hall⟩ := ih hb
    rw [(asked_gone ha h).2] at hsub
    obtain ⟨hpid, hkept⟩ := List.cons_subset.mp hsub
    exact ⟨hkept, List.cons_subset.mpr ⟨hpid, hall⟩⟩

theorem AllGone.unreported {pids : List UInt32} (h : AllGone ringKernel pids k false k') :
    k'.gone = [] := by
  generalize hb : false = b at h
  induction h with
  | none => cases hb
  | alive ha h => exact (asked_alive ha h).2
  | gone _ _ _ ih => exact ih hb

theorem Found.grown {items : List (List UInt8)} (h : Found t k) (hg : Grown k k' items) :
    Found t k' := ⟨h.1, fun pid hp => hg.gone ▸ h.2 pid hp⟩

/-- What a check of the whole target comes to: the target was not found dead and the tracer is as
before, or it was found dead and its exit is in the queue after everything pushed until then. -/
inductive Ended (t : EbpfTracer) (k : Ring) (t' : EbpfTracer) (k' : Ring) : Prop where
  | goesOn (hc : Checked k k') (ht : t' = t) (hf : ¬ Found t k')
  | found (items : List (List UInt8)) (code : Int32) (hf : Found t k')
      (htaken : k'.taken = k.taken ++ items) (hpushed : k.pushed <+: k'.pushed)
      (hbefore : k.before <+: k.pushed → k'.before <+: k'.taken)
      (ht : t' = { t with queue := t.queue ++ toldAll t items ++ exitOf t code, finished := true })

/-- The exit goes into the queue after everything that was in the ring. -/
theorem Ended.ofDrains {fuel : ℕ} {items : List (List UInt8)} (code : Int32) (hc : Checked k k₁)
    (hf : Found t k₁) (hi : Drains ringKernel fuel k₁ items k') :
    Ended t k ((t.takes items).finds code) k' := by
  obtain ⟨hnone, hgrown⟩ := hi.grown
  refine .found items code (hf.grown hgrown) ?_ (hc.pushed.trans hgrown.pushed) (fun hb => ?_) ?_
  · rw [hgrown.taken, hc.taken]
  · have hall : k'.pushed = k'.taken := by rw [Ring.pushed, hnone, List.append_nil]
    rw [hgrown.before, ← hall]
    exact (hc.before hb).trans hgrown.pushed
  · rw [← filterMap_queued]
    rfl

theorem Liveness.ended {fuel : ℕ} {b : Bool} (h : Liveness ringKernel fuel t k b t' k') :
    Ended t k t' k' := by
  cases h with
  | @dead child a code items k₁ _ hc ha he hi =>
    obtain ⟨k₂, hmoved, ha⟩ := ha
    have hdead : k₁ = k₂.reports child.toU32 := by
      obtain e | st := a
      · exact ha
      · cases st with
        | exited | signaled => exact ha
        | stopped | ptraceEvent | ptraceSyscall | continued | stillAlive => cases he
    subst hdead
    have hfound : Found t (k₂.reports child.toU32) := by simp [Found, polled, hc, Ring.reports]
    exact .ofDrains code ((moved_grown hmoved).checked.trans (checked_reports ..)) hfound hi
  | @alive child a _ hc ha he =>
    obtain ⟨k₂, hmoved, ha⟩ := ha
    have halive : k' = k₂.hears := by
      obtain e | st := a
      · cases he
      · cases st with
        | exited | signaled => cases he
        | stopped | ptraceEvent | ptraceSyscall | continued | stillAlive => exact ha
    subst halive
    refine .goesOn ((moved_grown hmoved).checked.trans (checked_hears _)) rfl ?_
    simp [Found, polled, hc, Ring.hears]
  | unwatched hc hw =>
    refine .goesOn (.refl _) rfl fun hf => hf.1 ?_
    rw [polled, hc, hw]
  | allGone hc hw hg hi =>
    have hpolled : t.polled = t.watch := by rw [polled, hc]
    refine .ofDrains 0 hg.checked ⟨hpolled ▸ hw, fun pid hp => ?_⟩ hi
    exact hg.reported.2 (hpolled ▸ hp)
  | someAlive _ _ hg =>
    refine .goesOn hg.checked rfl fun hf => ?_
    obtain ⟨pid, hp⟩ := List.exists_mem_of_ne_nil _ hf.1
    exact absurd (hf.2 pid hp) (by simp [hg.unreported])

theorem Ended.later (h : Ended t k t' k₁) (hg : Grown k₁ k' []) : Ended t k t' k' := by
  cases h with
  | goesOn hc ht hf =>
    refine .goesOn (hc.trans hg.checked) ht fun hf' => hf ⟨hf'.1, fun pid hp => ?_⟩
    exact hg.gone ▸ hf'.2 pid hp
  | found items code hf htaken hpushed hbefore ht =>
    have hsame : k'.taken = k₁.taken := by simpa using hg.taken
    exact .found items code (hf.grown hg) (hsame.trans htaken) (hpushed.trans hg.pushed)
      (fun hb => by rw [hg.before, hsame]; exact hbefore hb) ht

/-- What one pass of `next_event` can do. -/
inductive Passed (t : EbpfTracer) (k : Ring) : Outcome → EbpfTracer → Ring → Prop where
  | pops {event : Event} {cap : Option Capture} {queue : List (Event × Option Capture)}
      (hq : t.queue = (event, cap) :: queue) :
      Passed t k (.ok (some (some event))) { t with queue := queue, current := cap } k
  | drains {items : List (List UInt8)} {k' : Ring} (hq : t.queue = []) (hg : Grown k k' items)
      (hw : k'.waiting = []) (hsome : toldAll t items ≠ []) :
      Passed t k (.ok none) { t with queue := toldAll t items } k'
  | ends {items : List (List UInt8)} {k' : Ring} (hq : t.queue = []) (hg : Grown k k' items)
      (hnone : toldAll t items = []) (hw : k'.waiting = []) (hf : t.finished = true) :
      Passed t k (.ok (some none)) t k'
  | checks {items : List (List UInt8)} {k₁ k' : Ring} {t' : EbpfTracer} (hq : t.queue = [])
      (hg : Grown k k₁ items) (hw : k₁.waiting = []) (hnone : toldAll t items = [])
      (hf : t.finished = false) (he : Ended t k₁ t' k') : Passed t k (.ok none) t' k'

theorem Pass.passed {fuel : ℕ} {o : Outcome} (h : Pass ringKernel fuel t k o t' k') :
    Passed t k o t' k' := by
  have empty {items : List (List UInt8)} (hq : t.queue = []) (hn : t.takes items = t) :
      toldAll t items = [] := by
    rw [← filterMap_queued]
    simpa [takes, hq] using congrArg EbpfTracer.queue hn
  cases h with
  | pops hq => exact .pops hq
  | @fills items _ hq hi hn =>
    have ht : t.takes items = { t with queue := toldAll t items } := by
      rw [takes, hq, filterMap_queued, List.nil_append]
    have hsome : toldAll t items ≠ [] := by rwa [ht] at hn
    exact ht ▸ .drains hq hi.grown.2 hi.grown.1 hsome
  | ends hq hi hn hf => exact .ends hq hi.grown.2 (empty hq hn) hi.grown.1 hf
  | finishes hq hi hn hf hl => exact .checks hq hi.grown.2 hi.grown.1 (empty hq hn) hf hl.ended
  | polls hq hi hn hf hl hp =>
    obtain ⟨k₁, hmoved, rfl⟩ := hp
    exact .checks hq hi.grown.2 hi.grown.1 (empty hq hn) hf (hl.ended.later (moved_grown hmoved))

/-- A pass goes round with an empty queue, after it has taken out of the ring everything that was
in it; where it has found no record, the target was not yet known to be dead. -/
theorem Passed.rounds (h : Passed t k (.ok none) t' k') :
    t.queue = [] ∧ k.pushed <+: k'.taken ∧ (t'.queue = [] → t.finished = false) := by
  have drained {items : List (List UInt8)} {k₁ : Ring} (hg : Grown k k₁ items)
      (hw : k₁.waiting = []) : k.pushed <+: k₁.taken := by
    have hall : k₁.pushed = k₁.taken := by rw [Ring.pushed, hw, List.append_nil]
    exact hall ▸ hg.pushed
  cases h with
  | drains hq hg hw hsome => exact ⟨hq, drained hg hw, fun hn => absurd hn hsome⟩
  | checks hq hg hw _ hf he =>
    refine ⟨hq, (drained hg hw).trans ?_, fun _ => hf⟩
    cases he with
    | goesOn hc => exact hc.taken ▸ List.prefix_rfl
    | found items code _ htaken => exact htaken ▸ List.prefix_append _ _

/-- The event that a pass returns, with the capture that the memory for it serves. -/
def handedOf : Outcome → EbpfTracer → Option (Event × Option Capture)
  | .ok (some (some (.syscall ev))), t => some (.syscall ev, (t.memory ev).capture)
  | .ok (some (some event)), t => some (event, t.current)
  | _, _ => none

/-- The events returned so far. -/
def handed (steps : List (Outcome × (EbpfTracer × Ring))) : List (Event × Option Capture) :=
  steps.filterMap fun x => handedOf x.1 x.2.1

section Constructor
open Interaction.Attempt

variable {σ : Type} {env : Kernel σ} {s s' : σ} {options : TraceOptions} {table : List SyscallInfo}

/-- What the constructor hands out before the target is set up. -/
def Blank (t : EbpfTracer) : Prop := t.queue = [] ∧ t.finished = false

theorem load_blank (h : Ends env (load table options) s (.ok t) s') : Blank t := by
  obtain ⟨baseline, rfl⟩ := load_ok h
  exact ⟨rfl, rfl⟩

/-- The tracers that the constructor hands out have returned nothing. -/
theorem new_blank {target : Target} (h : Ends env (new table target options) s (.ok t) s') :
    Blank t := by
  obtain ⟨t₀, s₁, hload, h⟩ := ends_ok_bind h
  have hblank := load_blank hload
  cases target with
  | spawn program args =>
    have hspawn : Ends env (spawn t₀ program args) s₁ (.ok t) s' := h
    obtain ⟨child, rfl⟩ := spawn_ok hspawn
    exact hblank
  | attach pids =>
    have hattach : Ends env (attach t₀ pids) s₁ (.ok t) s' := h
    obtain rfl := attach_ok hattach
    exact hblank

end Constructor

/-- The target is set up, nothing has been returned and nothing taken out of the ring. -/
def Unused (a : EbpfTracer × Ring) : Prop :=
  Blank a.1 ∧ a.2.taken = [] ∧ a.2.gone = [] ∧ a.2.before = []

abbrev RingRun := Run Unused (passStep ringKernel)

/-- What does not change while a tracer is used. -/
structure SameTarget (t t' : EbpfTracer) : Prop where
  baseline : t'.baselineNs = t.baselineNs
  leader : t'.leader = t.leader
  child : t'.child = t.child
  watch : t'.watch = t.watch

/-- The invariant, on what was returned and what the queue still has: together they are the records
taken out of the ring, and once the target was found dead its exit among them, after everything
that was pushed before. -/
structure Accounted (t₀ : EbpfTracer) (out : List (Event × Option Capture)) (t : EbpfTracer)
    (k : Ring) : Prop where
  same : SameTarget t₀ t
  before : k.before <+: k.pushed
  found : t.finished = true ↔ Found t k
  early : t.finished = false → out ++ t.queue = toldAll t₀ k.taken
  late : t.finished = true → ∃ l m code, k.taken = l ++ m ∧ k.before <+: l ∧
    out ++ t.queue = toldAll t₀ l ++ exitOf t₀ code ++ toldAll t₀ m

theorem SameTarget.toldAll (h : SameTarget t t') (items : List (List UInt8)) :
    toldAll t' items = toldAll t items := by
  rw [EbpfTracer.toldAll, EbpfTracer.toldAll, h.baseline]

theorem SameTarget.exitOf (h : SameTarget t t') (code : Int32) :
    exitOf t' code = exitOf t code := by
  rw [EbpfTracer.exitOf, EbpfTracer.exitOf, h.leader]

theorem SameTarget.found (h : SameTarget t t') : Found t' k ↔ Found t k := by
  have hpolled : t'.polled = t.polled := by rw [polled, polled, h.child, h.watch]
  rw [Found, Found, hpolled]

theorem SameTarget.trans {t₁ : EbpfTracer} (h : SameTarget t t₁) (h' : SameTarget t₁ t') :
    SameTarget t t' :=
  ⟨h'.baseline.trans h.baseline, h'.leader.trans h.leader, h'.child.trans h.child,
    h'.watch.trans h.watch⟩

theorem Grown.found_iff {items : List (List UInt8)} (h : Grown k k' items) :
    Found t k' ↔ Found t k := by
  rw [Found, Found, h.gone]

theorem Passed.same {o : Outcome} (h : Passed t k o t' k') : SameTarget t t' := by
  cases h with
  | pops | drains | ends => exact ⟨rfl, rfl, rfl, rfl⟩
  | checks _ _ _ _ _ he =>
    cases he with
    | goesOn _ ht => exact ht ▸ ⟨rfl, rfl, rfl, rfl⟩
    | found _ _ _ _ _ _ ht => exact ht ▸ ⟨rfl, rfl, rfl, rfl⟩

variable {t₀ : EbpfTracer} {out : List (Event × Option Capture)}

/-- Items taken out of the ring are accounted for by what the queue gains. -/
theorem Accounted.grow {items : List (List UInt8)} (h : Accounted t₀ out t k)
    (hg : Grown k k' items) (hq : t.queue = []) :
    Accounted t₀ out { t with queue := toldAll t items } k' := by
  have hsame := h.same
  refine ⟨hsame.trans ⟨rfl, rfl, rfl, rfl⟩, hg.before ▸ h.before.trans hg.pushed,
    h.found.trans hg.found_iff.symm, fun hf => ?_, fun hf => ?_⟩
  · have hall := h.early hf
    rw [hq, List.append_nil] at hall
    rw [hall, hg.taken, toldAll_append, hsame.toldAll]
  · obtain ⟨l, m, code, htaken, hbefore, hall⟩ := h.late hf
    rw [hq, List.append_nil] at hall
    refine ⟨l, m ++ items, code, ?_, hg.before ▸ hbefore, ?_⟩
    · rw [hg.taken, htaken, List.append_assoc]
    · rw [hall, toldAll_append, hsame.toldAll, List.append_assoc]

theorem Accounted.unqueued {items : List (List UInt8)} (h : Accounted t₀ out t k)
    (hg : Grown k k' items) (hq : t.queue = []) (hnone : toldAll t items = []) :
    Accounted t₀ out t k' := by
  have hgrown := h.grow hg hq
  rw [hnone, ← hq] at hgrown
  exact hgrown

theorem Accounted.ended (h : Accounted t₀ out t k) (hq : t.queue = []) (hf : t.finished = false)
    (he : Ended t k t' k') : Accounted t₀ out t' k' := by
  have hall := h.early hf
  rw [hq, List.append_nil] at hall
  cases he with
  | goesOn hc ht hnot =>
    subst ht
    refine ⟨h.same, hc.before h.before, ?_, fun _ => ?_, fun hf' => ?_⟩
    · rw [hf]
      exact ⟨nofun, fun hff => absurd hff hnot⟩
    · rw [hq, List.append_nil, hc.taken, hall]
    · rw [hf] at hf'
      cases hf'
  | found items code hfound htaken hpushed hbefore ht =>
    subst ht
    have hlast := hbefore h.before
    refine ⟨h.same.trans ⟨rfl, rfl, rfl, rfl⟩, hlast.trans (List.prefix_append _ _),
      ⟨fun _ => hfound, fun _ => rfl⟩, nofun, fun _ => ⟨k'.taken, [], code, by simp, hlast, ?_⟩⟩
    change out ++ (t.queue ++ _ ++ _) = _
    rw [hq, List.nil_append, h.same.toldAll, h.same.exitOf, ← List.append_assoc, hall, htaken,
      toldAll_append]
    simp [EbpfTracer.toldAll, recordsOf]

/-- One pass keeps the account: what it returns leaves the queue. -/
theorem Accounted.pass {o : Outcome} (h : Accounted t₀ out t k) (hp : Passed t k o t' k') :
    Accounted t₀ (out ++ (handedOf o t').toList) t' k' := by
  cases hp with
  | @pops event cap queue hq =>
    have hhanded (t' : EbpfTracer) : t'.current = cap →
        handedOf (.ok (some (some event))) t' = some (event, cap) := by
      rintro rfl
      cases event <;> rfl
    rw [hhanded _ rfl]
    have hshift : out ++ [(event, cap)] ++ queue = out ++ t.queue := by simp [hq]
    refine ⟨h.same.trans ⟨rfl, rfl, rfl, rfl⟩, h.before, h.found, fun hf => ?_, fun hf => ?_⟩
    · exact hshift.trans (h.early hf)
    · obtain ⟨l, m, code, htaken, hbefore, hall⟩ := h.late hf
      exact ⟨l, m, code, htaken, hbefore, hshift.trans hall⟩
  | drains hq hg => simpa [handedOf] using h.grow hg hq
  | ends hq hg hnone => simpa [handedOf] using h.unqueued hg hq hnone
  | checks hq hg _ hnone hf he =>
    simpa [handedOf] using (h.unqueued hg hq hnone).ended hq hf he

theorem handed_concat (l : List (Outcome × (EbpfTracer × Ring)))
    (x : Outcome × (EbpfTracer × Ring)) :
    handed (l ++ [x]) = handed l ++ (handedOf x.1 x.2.1).toList := by
  cases h : handedOf x.1 x.2.1 <;> simp [handed, h]

theorem handed_append (l m : List (Outcome × (EbpfTracer × Ring))) :
    handed (l ++ m) = handed l ++ handed m := List.filterMap_append ..

theorem passStep_ring {a b : EbpfTracer × Ring} {o : Outcome} (h : passStep ringKernel a o b) :
    Passed a.1 a.2 o b.1 b.2 := by
  obtain ⟨fuel, hr⟩ := h
  exact (runs_nextEventPass.mp hr).passed

variable {a : EbpfTracer × Ring} {steps : List (Outcome × (EbpfTracer × Ring))}

theorem accounted_run (hu : Unused a) (h : IsRun (passStep ringKernel) a steps) :
    Accounted a.1 (handed steps) (lastState a steps).1 (lastState a steps).2 := by
  refine h.induction (motive := fun l =>
    Accounted a.1 (handed l) (lastState a l).1 (lastState a l).2) ?_ fun l x _ hl hstep => ?_
  · obtain ⟨⟨hq, hf⟩, htaken, hgone, hbefore⟩ := hu
    refine ⟨⟨rfl, rfl, rfl, rfl⟩, ?_, ?_, fun _ => ?_, fun hff => ?_⟩
    · exact hbefore ▸ List.nil_prefix
    · refine ⟨fun hff => ?_, fun hff => ?_⟩
      · rw [lastState_nil, hf] at hff
        cases hff
      · obtain ⟨pid, hp⟩ := List.exists_mem_of_ne_nil _ hff.1
        have hin := hff.2 pid hp
        rw [lastState_nil, hgone] at hin
        cases hin
    · simp [handed, hq, htaken, toldAll, recordsOf]
    · rw [lastState_nil, hf] at hff
      cases hff
  · rw [handed_concat, lastState_concat]
    exact hl.pass (passStep_ring hstep)

/-- Where `None` is returned, everything pushed has been returned. -/
theorem returned_all {x : Outcome × (EbpfTracer × Ring)} (hu : Unused a)
    (h : IsRun (passStep ringKernel) a (steps ++ [x])) (hx : x.1 = .ok (some none)) :
    Found x.2.1 x.2.2 ∧ x.2.1.queue = [] ∧ x.2.2.waiting = [] ∧ ∃ l m code,
      x.2.2.pushed = l ++ m ∧ x.2.2.before <+: l ∧
      handed (steps ++ [x]) = toldAll a.1 l ++ exitOf a.1 code ++ toldAll a.1 m := by
  have hacc := accounted_run hu h
  obtain ⟨-, hstep⟩ := isRun_concat.mp h
  obtain ⟨o, t', k'⟩ := x
  cases hx
  cases passStep_ring hstep with
  | @ends items _ hq hg hnone hw hfin =>
    rw [lastState_concat] at hacc
    obtain ⟨l, m, code, htaken, hbefore, hall⟩ := hacc.late hfin
    refine ⟨hacc.found.mp hfin, hq, hw, l, m, code, ?_, hbefore, ?_⟩
    · rw [Ring.pushed, hw, List.append_nil, htaken]
    · rw [← hall, hq, List.append_nil]

/-- Passes return what is in the queue before anything else. -/
theorem handed_queue (h : IsRun (passStep ringKernel) a steps)
    (hlen : a.1.queue.length ≤ steps.length) : a.1.queue <+: handed steps := by
  induction steps generalizing a with
  | nil =>
    rw [List.eq_nil_of_length_eq_zero (Nat.le_zero.mp hlen)]
    exact List.nil_prefix
  | cons x steps ih =>
    obtain ⟨o, t', k'⟩ := x
    obtain ⟨hstep, hrun⟩ := h
    cases hq : a.1.queue with
    | nil => exact List.nil_prefix
    | cons e queue =>
      cases passStep_ring hstep with
      | @pops event cap rest hq' =>
        cases hq.symm.trans hq'
        rw [hq, List.length_cons, List.length_cons] at hlen
        have hrest := ih hrun (Nat.le_of_succ_le_succ hlen)
        have hout : handed ((.ok (some (some event)),
            { a.1 with queue := queue, current := cap }, a.2) :: steps) =
            (event, cap) :: handed steps := by
          cases event <;> rfl
        rw [hout]
        exact (List.prefix_cons_inj _).mpr hrest
      | drains hn | ends hn | checks hn => cases hq.symm.trans hn

/-- What was returned or waits in the queue comes from the ring, but for the exit. -/
theorem Accounted.served (h : Accounted t₀ out t k) {x : Event × Option Capture}
    (hx : x ∈ out ++ t.queue) : (∃ item ∈ k.taken, MadeOf t₀.baselineNs item x) ∨
      ∃ pid code, t₀.leader = some pid ∧ x = (.processExit pid code, none) := by
  cases hf : t.finished with
  | false => exact .inl (mem_toldAll (h.early hf ▸ hx))
  | true =>
    obtain ⟨l, m, code, htaken, -, hall⟩ := h.late hf
    rw [hall] at hx
    rcases List.mem_append.mp hx with hx | hx
    · rcases List.mem_append.mp hx with hx | hx
      · obtain ⟨item, hitem, hmade⟩ := mem_toldAll hx
        exact .inl ⟨item, htaken ▸ List.mem_append_left _ hitem, hmade⟩
      · obtain ⟨pid, hpid, rfl⟩ := mem_exitOf hx
        exact .inr ⟨pid, code, hpid, rfl⟩
    · obtain ⟨item, hitem, hmade⟩ := mem_toldAll hx
      exact .inl ⟨item, htaken ▸ List.mem_append_right _ hitem, hmade⟩

/-- What the calls of `next_event` in a run have returned. -/
structure Delivered (a : EbpfTracer × Ring) (steps : List (Outcome × (EbpfTracer × Ring))) :
    Prop where
  /-- No call fails. -/
  ok : ∀ x ∈ steps, ∃ q, x.1 = .ok q
  /-- Only the items that are too short hold no record. -/
  decoded : ∀ item, Record.fromBytes item = none ↔ item.length < Record.SIZE
  /-- Each event is that of the record of an item, with the bytes captured in the item as its
  memory and with none if there are none, or it is the exit of the leader, with none. -/
  served : ∀ x ∈ handed steps,
    (∃ item ∈ (lastState a steps).2.taken, MadeOf a.1.baselineNs item x) ∨
      ∃ pid code, a.1.leader = some pid ∧ x = (.processExit pid code, none)
  /-- Before the target is found dead the events, with those that wait in the queue, are those of
  all the records taken out of the ring, each once and in order. -/
  early : ¬ Found (lastState a steps).1 (lastState a steps).2 →
    handed steps ++ (lastState a steps).1.queue = toldAll a.1 (lastState a steps).2.taken
  /-- Afterwards one exit is among them, later than every record pushed before the target was found
  dead. -/
  late : Found (lastState a steps).1 (lastState a steps).2 → ∃ l m code,
    (lastState a steps).2.taken = l ++ m ∧ (lastState a steps).2.before <+: l ∧
    handed steps ++ (lastState a steps).1.queue =
      toldAll a.1 l ++ exitOf a.1 code ++ toldAll a.1 m
  /-- What waits in the queue is what the next passes return. -/
  returns : ∀ l m, l ++ m = steps → (lastState a l).1.queue.length ≤ m.length →
    (lastState a l).1.queue <+: handed m
  /-- A pass goes round only with an empty queue, and takes everything out of the ring that was
  pushed before; once the target was found dead it does so only with new records to return. -/
  rounds : ∀ l x, l ++ [x] <+: steps → x.1 = .ok none → (lastState a l).1.queue = [] ∧
    (lastState a l).2.pushed <+: x.2.2.taken ∧
    (Found (lastState a l).1 (lastState a l).2 → x.2.1.queue ≠ [])
  /-- `None` is returned only where the target was found dead, the queue and the ring are empty and
  everything has been returned. -/
  complete : ∀ l x, l ++ [x] <+: steps → x.1 = .ok (some none) → Found x.2.1 x.2.2 ∧
    x.2.1.queue = [] ∧ x.2.2.waiting = [] ∧ ∃ l' m code, x.2.2.pushed = l' ++ m ∧
    x.2.2.before <+: l' ∧ handed (l ++ [x]) = toldAll a.1 l' ++ exitOf a.1 code ++ toldAll a.1 m
  /-- Once the target was found dead its exit is returned within as many passes as the queue has
  entries. -/
  prompt : ∀ l m, l ++ m = steps → Found (lastState a l).1 (lastState a l).2 →
    (lastState a l).1.queue.length ≤ m.length → ∀ pid, a.1.leader = some pid →
    ∃ code, (Event.processExit pid code, none) ∈ handed steps

theorem Passed.answers {o : Outcome} (h : Passed t k o t' k') : ∃ q, o = .ok q := by
  cases h <;> exact ⟨_, rfl⟩

/-- The syscall events returned are exactly the records pushed to the ring, each once, in the order
of the pushes and with the memory of its own capture, and none is kept back; the exit of the target
comes once, after all that was pushed before the target was found dead; and `None` comes when
nothing is left. -/
theorem queue_delivers (run : RingRun) : Delivered run.start run.steps := by
  have hacc := accounted_run run.starts run.valid
  refine ⟨fun x hx => ?_, fun _ => Record.fromBytes_eq_none, fun x hx => ?_, fun hf => ?_,
    fun hf => hacc.late (hacc.found.mpr hf), fun l m hs hlen => ?_, fun l x hp hx => ?_,
    fun l x hp hx => ?_, fun l m hs hf hlen pid hl => ?_⟩
  · obtain ⟨l, m, hs⟩ := List.append_of_mem hx
    have hvalid := run.valid
    rw [hs] at hvalid
    exact (passStep_ring (isRun_append.mp hvalid).2.1).answers
  · exact hacc.served (List.mem_append_left _ hx)
  · exact hacc.early (Bool.eq_false_iff.mpr fun hff => hf (hacc.found.mp hff))
  · have hvalid := run.valid
    rw [← hs] at hvalid
    exact handed_queue (isRun_append.mp hvalid).2 hlen
  · obtain ⟨hl, hstep⟩ := isRun_concat.mp (run.valid.initial hp)
    obtain ⟨o, t', k'⟩ := x
    cases hx
    obtain ⟨hempty, htaken, hfin⟩ := (passStep_ring hstep).rounds
    refine ⟨hempty, htaken, fun hf hn => ?_⟩
    have hfound := (accounted_run run.starts hl).found.mpr hf
    rw [hfin hn] at hfound
    cases hfound
  · exact returned_all run.starts (run.valid.initial hp) hx
  · have hvalid := run.valid
    rw [← hs] at hvalid
    obtain ⟨hrunl, hrunm⟩ := isRun_append.mp hvalid
    obtain ⟨l', m', code, -, -, hall⟩ :=
      (accounted_run run.starts hrunl).late ((accounted_run run.starts hrunl).found.mpr hf)
    refine ⟨code, ?_⟩
    have hin : (Event.processExit pid code, none) ∈
        handed l ++ (lastState run.start l).1.queue := by
      rw [hall]
      simp [exitOf, hl]
    rw [← hs, handed_append]
    rcases List.mem_append.mp hin with hin | hin
    · exact List.mem_append_left _ hin
    · exact List.mem_append_right _ ((handed_queue hrunm hlen).subset hin)

end Syren.EbpfTracer
