import Syren.Kernel.Children
import Syren.Trace.Ebpf

/-! Setting up the eBPF backend: which calls each step makes, how arming ends, and what is known of
every tracer that the constructor hands out. -/
namespace Syren
open Interaction Interaction.Attempt

/-- The calls that leave the children, the notices and the target map alone. -/
def Call.Quiet (c : Call) : Prop := c.Calm ∧ ¬ c.Arms

namespace EbpfTracer

variable {σ : Type} {env : Kernel σ} {s s' : σ} {Q : Call → Prop}

theorem only_orMissing {what : String} {b : Bool} : Only Q (orMissing what b) := by
  cases b <;> trivial

theorem only_orUnsupported {what : String} {a : Except String Unit} :
    Only Q (orUnsupported what a) := by
  cases a <;> trivial

theorem quiet_attachTracepoint (name category event : String) :
    Only Call.Quiet (attachTracepoint name category event) := by
  refine Only.bind (only_ask ⟨trivial, id⟩) fun _ => Only.bind only_orMissing fun _ => ?_
  refine Only.bind (only_ask ⟨trivial, id⟩) fun _ => Only.bind only_orUnsupported fun _ => ?_
  refine Only.bind (only_ask ⟨trivial, id⟩) fun _ => Only.bind only_orUnsupported fun _ => ?_
  exact Only.bind (only_ask ⟨trivial, id⟩) fun _ => only_orUnsupported

theorem quiet_setPathargs (rows : List SyscallInfo) : Only Call.Quiet (setPathargs rows) := by
  induction rows with
  | nil => exact only_pure
  | cons s rows ih =>
    rw [setPathargs]
    split
    · exact Only.bind (only_ask ⟨trivial, id⟩) fun _ => Only.bind only_orUnsupported fun _ => ih
    · exact ih

theorem quiet_populatePatharg (table : List SyscallInfo) :
    Only Call.Quiet (populatePatharg table) := by
  refine Only.bind (only_ask ⟨trivial, by simp [Call.Arms]⟩) fun _ => ?_
  refine Only.bind only_orMissing fun _ => ?_
  refine Only.bind (only_ask ⟨trivial, by simp [Call.Arms]⟩) fun _ => ?_
  exact Only.bind only_orUnsupported fun _ => quiet_setPathargs table

theorem quiet_hasBpfCapability : Only Call.Quiet hasBpfCapability := by
  refine Only.bind (only_ask ⟨trivial, id⟩) fun euid => ?_
  split
  · exact only_pure
  · refine Only.bind (only_ask ⟨trivial, id⟩) fun status => ?_
    split <;> exact only_pure

theorem quiet_probe : Only Call.Quiet probe := by
  refine Only.bind (only_ask ⟨trivial, id⟩) fun btf => ?_
  split
  · refine Only.bind quiet_hasBpfCapability fun capable => ?_
    split
    · exact only_pure
    · exact only_throw
  · exact only_throw

theorem quiet_prepare (table : List SyscallInfo) : Only Call.Quiet (prepare table) := by
  refine Only.bind (quiet_populatePatharg table) fun _ => ?_
  refine Only.bind (only_ask ⟨trivial, id⟩) fun _ => Only.bind only_orMissing fun _ => ?_
  refine Only.bind (only_ask ⟨trivial, id⟩) fun _ => Only.bind only_orUnsupported fun _ => ?_
  exact Only.bind (only_ask ⟨trivial, id⟩) fun _ => only_pure

theorem quiet_load (table : List SyscallInfo) (options : TraceOptions) :
    Only Call.Quiet (load table options) := by
  refine Only.bind quiet_probe fun _ => Only.bind (only_ask ⟨trivial, id⟩) fun _ => ?_
  refine Only.bind (only_ask ⟨trivial, id⟩) fun _ => Only.bind only_orUnsupported fun _ => ?_
  refine Only.bind (quiet_attachTracepoint ..) fun _ => ?_
  refine Only.bind (quiet_attachTracepoint ..) fun _ => ?_
  split
  · exact Only.bind (quiet_attachTracepoint ..) fun _ => quiet_prepare table
  · exact quiet_prepare table

theorem quiet_isExecutable (path : OsBytes) : Only Call.Quiet (isExecutable path) := by
  refine Only.bind (only_ask ⟨trivial, id⟩) fun stat => ?_
  split <;> exact only_pure

theorem quiet_anyExecutable (program : OsBytes) (dirs : List OsBytes) :
    Only Call.Quiet (anyExecutable program dirs) := by
  induction dirs with
  | nil => exact only_pure
  | cons dir dirs ih =>
    refine Only.bind (quiet_isExecutable _) fun executable => ?_
    split
    · exact only_pure
    · exact ih

theorem quiet_resolveProgram (program : OsBytes) : Only Call.Quiet (resolveProgram program) := by
  have hfound : Only Call.Quiet (found program) := by
    unfold found
    split
    · exact quiet_isExecutable program
    · refine Only.bind (only_ask ⟨trivial, id⟩) fun paths => ?_
      split
      · exact quiet_anyExecutable _ _
      · exact only_pure
  refine Only.bind hfound fun isFound => ?_
  split
  · exact only_pure
  · exact only_throw

/-- The answers that let arming go on. -/
def Grants : (c : Call) → c.Answer → Prop
  | .mapMut _, b => b = true
  | .mapTryFrom _, a => a = .ok ()
  | .targetsInsert _, a => a = .ok ()
  | _, _ => True

variable {runnable : OsBytes → Bool} {k k' : Children}

theorem answers_arming {c : Call} {a : c.Answer} (hc : c.Arms) (h : k.Answers c a k') :
    Frame k k' ∧ ((Grants c a ∧ (ArmRefused k' ↔ ArmRefused k)) ∨
      (¬ Grants c a ∧ ArmRefused k')) := by
  have refused : Frame k (k.refuses c) ∧ ArmRefused (k.refuses c) :=
    ⟨⟨rfl, rfl, rfl, rfl⟩, c, List.mem_cons_self .., hc⟩
  cases c with
  | mapMut name =>
    cases a with
    | false => exact h ▸ ⟨refused.1, .inr ⟨Bool.false_ne_true, refused.2⟩⟩
    | true => exact h ▸ ⟨.refl _, .inl ⟨rfl, Iff.rfl⟩⟩
  | mapTryFrom name =>
    cases a with
    | error e => exact h ▸ ⟨refused.1, .inr ⟨nofun, refused.2⟩⟩
    | ok => exact h ▸ ⟨.refl _, .inl ⟨rfl, Iff.rfl⟩⟩
  | targetsInsert tid =>
    cases a with
    | error e => exact h ▸ ⟨refused.1, .inr ⟨nofun, refused.2⟩⟩
    | ok => exact h ▸ ⟨.refl _, .inl ⟨rfl, Iff.rfl⟩⟩
  | _ => exact hc.elim

/-- One call of arming with the check of its answer: it goes on, or it ends with the error that
the command line falls back on. -/
theorem ends_arming_bind {c : Call} {check : c.Answer → Setup Unit} {f : Unit → Setup Unit}
    {r : Except TraceError Unit} (hc : c.Arms) (hok : ∀ a, Grants c a → check a = pure ())
    (hfail : ∀ a, ¬ Grants c a → ∃ reason, check a = throw (.ebpfUnsupported reason))
    (h : Ends (childKernel runnable) (ask c >>= fun a => check a >>= f) k r k') :
    (∃ k₁, Frame k k₁ ∧ (ArmRefused k₁ ↔ ArmRefused k) ∧
      Ends (childKernel runnable) (f ()) k₁ r k') ∨
    Frame k k' ∧ ArmRefused k' ∧ ∃ reason, r = .error (.ebpfUnsupported reason) := by
  obtain ⟨a, k₂, ⟨k₁, hl, ha⟩, h⟩ := ends_ask_bind.mp h
  obtain ⟨hf, hr⟩ := later_frame hl
  obtain ⟨hf', ⟨hg, hr'⟩ | ⟨hg, hr'⟩⟩ := answers_arming hc ha
  · rw [hok a hg] at h
    have hsame : ArmRefused k₁ ↔ ArmRefused k := by rw [ArmRefused, ArmRefused, hr]
    exact .inl ⟨k₂, hf.trans hf', hr'.trans hsame, h⟩
  · obtain ⟨reason, hcheck⟩ := hfail a hg
    rw [hcheck] at h
    obtain ⟨rfl, rfl⟩ := ends_throw_bind.mp h
    exact .inr ⟨hf.trans hf', hr', reason, rfl⟩

theorem orMissing_ok {what : String} {b : Bool} (h : b = true) : orMissing what b = pure () := by
  rw [h, orMissing]

theorem orMissing_fails {what : String} {b : Bool} (h : ¬ b = true) :
    ∃ reason, orMissing what b = throw (.ebpfUnsupported reason) := by
  rw [Bool.eq_false_iff.mpr h]
  exact ⟨_, rfl⟩

theorem orUnsupported_ok {what : String} {a : Except String Unit} (h : a = .ok ()) :
    orUnsupported what a = pure () := by
  rw [h, orUnsupported]

theorem orUnsupported_fails {what : String} {a : Except String Unit} (h : ¬ a = .ok ()) :
    ∃ reason, orUnsupported what a = throw (.ebpfUnsupported reason) := by
  cases a with
  | error e => exact ⟨_, rfl⟩
  | ok => exact absurd rfl h

/-- How arming ends: with every step granted, or with one refused and the error that the command
line falls back on. -/
inductive ArmEnds (k k' : Children) : Except TraceError Unit → Prop
  | armed (same : ArmRefused k' ↔ ArmRefused k) : ArmEnds k k' (.ok ())
  | refused (reason : String) (hr : ArmRefused k') : ArmEnds k k' (.error (.ebpfUnsupported reason))

theorem insertTargets_ends {tids : List UInt32} {r : Except TraceError Unit}
    (h : Ends (childKernel runnable) (insertTargets tids) k r k') :
    Frame k k' ∧ ArmEnds k k' r := by
  induction tids generalizing k with
  | nil =>
    obtain ⟨rfl, rfl⟩ := ends_pure.mp h
    exact ⟨.refl _, .armed Iff.rfl⟩
  | cons tid tids ih =>
    rcases ends_arming_bind (c := .targetsInsert tid) trivial (fun _ => orUnsupported_ok)
      (fun _ => orUnsupported_fails) h with ⟨k₁, hf, hs, h⟩ | ⟨hf, hr, reason, rfl⟩
    · obtain ⟨hf', ha⟩ := ih h
      refine ⟨hf.trans hf', ?_⟩
      cases ha with
      | armed same => exact .armed (same.trans hs)
      | refused reason hr => exact .refused reason hr
    · exact ⟨hf, .refused reason hr⟩

theorem arm_ends {tids : List UInt32} {r : Except TraceError Unit}
    (h : Ends (childKernel runnable) (arm tids) k r k') : Frame k k' ∧ ArmEnds k k' r := by
  rcases ends_arming_bind (c := .mapMut "TARGETS") rfl (fun _ => orMissing_ok)
    (fun _ => orMissing_fails) h with ⟨k₁, hf₁, hs₁, h⟩ | ⟨hf, hr, reason, rfl⟩
  · rcases ends_arming_bind (c := .mapTryFrom "TARGETS") rfl (fun _ => orUnsupported_ok)
      (fun _ => orUnsupported_fails) h with ⟨k₂, hf₂, hs₂, h⟩ | ⟨hf, hr, reason, rfl⟩
    · obtain ⟨hf₃, ha⟩ := insertTargets_ends h
      refine ⟨(hf₁.trans hf₂).trans hf₃, ?_⟩
      cases ha with
      | armed same => exact .armed ((same.trans hs₂).trans hs₁)
      | refused reason hr => exact .refused reason hr
    · exact ⟨hf₁.trans hf, .refused reason hr⟩
  · exact ⟨hf, .refused reason hr⟩

/-- What is known of a tracer that has no target yet. -/
structure Fresh (t : EbpfTracer) : Prop where
  finished : t.finished = false
  child : t.child = none

theorem prepare_ok {table : List SyscallInfo} {t : EbpfTracer}
    (h : Ends env (prepare table) s (.ok t) s') :
    ∃ baseline, t = ⟨none, baseline, none, [], [], none, false⟩ := by
  obtain ⟨_, _, -, h⟩ := ends_ok_bind h
  obtain ⟨_, _, -, h⟩ := ends_ask_bind.mp h
  obtain ⟨_, _, -, h⟩ := ends_ok_bind h
  obtain ⟨_, _, -, h⟩ := ends_ask_bind.mp h
  obtain ⟨_, _, -, h⟩ := ends_ok_bind h
  obtain ⟨baseline, _, -, h⟩ := ends_ask_bind.mp h
  obtain ⟨he, -⟩ := ends_pure.mp h
  exact ⟨baseline, Except.ok.inj he⟩

theorem load_ok {table : List SyscallInfo} {options : TraceOptions} {t : EbpfTracer}
    (h : Ends env (load table options) s (.ok t) s') :
    ∃ baseline, t = ⟨none, baseline, none, [], [], none, false⟩ := by
  obtain ⟨_, _, -, h⟩ := ends_ok_bind h
  obtain ⟨_, _, -, h⟩ := ends_ask_bind.mp h
  obtain ⟨_, _, -, h⟩ := ends_ask_bind.mp h
  obtain ⟨_, _, -, h⟩ := ends_ok_bind h
  obtain ⟨_, _, -, h⟩ := ends_ok_bind h
  obtain ⟨_, _, -, h⟩ := ends_ok_bind h
  split at h
  · obtain ⟨_, _, -, h⟩ := ends_ok_bind h
    exact prepare_ok h
  · exact prepare_ok h

theorem load_fresh {table : List SyscallInfo} {options : TraceOptions} {t : EbpfTracer}
    (h : Ends env (load table options) s (.ok t) s') : Fresh t := by
  obtain ⟨baseline, rfl⟩ := load_ok h
  exact ⟨rfl, rfl⟩

theorem release_ok {t t' : EbpfTracer} {child : Pid} {readFd writeFd : Int32}
    (h : Ends env (release t child readFd writeFd) s (.ok t') s') :
    t' = { t with leader := some child.toU32, child := some child } := by
  obtain ⟨_, _, -, h⟩ := ends_ask_bind.mp h
  obtain ⟨_, _, -, h⟩ := ends_ok_bind h
  obtain ⟨_, _, -, h⟩ := ends_ask_bind.mp h
  obtain ⟨_, _, -, h⟩ := ends_ask_bind.mp h
  obtain ⟨_, _, -, h⟩ := ends_ok_bind h
  obtain ⟨he, -⟩ := ends_pure.mp h
  exact Except.ok.inj he

theorem spawn_ok {t t' : EbpfTracer} {program : OsBytes} {args : List OsBytes}
    (h : Ends env (spawn t program args) s (.ok t') s') :
    ∃ child : Pid, t' = { t with leader := some child.toU32, child := some child } := by
  obtain ⟨_, _, -, h⟩ := ends_ok_bind h
  obtain ⟨_, _, -, h⟩ := ends_ok_bind h
  obtain ⟨_, _, -, h⟩ := ends_ok_bind h
  obtain ⟨piped, _, -, h⟩ := ends_ask_bind.mp h
  obtain e | ⟨readFd, writeFd⟩ := piped
  · obtain ⟨he, -⟩ := ends_throw.mp h
    cases he
  · obtain ⟨forked, s₁, -, h⟩ := ends_ask_bind.mp h
    obtain e | child := forked
    · obtain ⟨he, -⟩ := ends_throw_bind.mp h
      cases he
    · have hrelease : Ends env (release t child readFd writeFd) s₁ (.ok t') s' := h
      exact ⟨child, release_ok hrelease⟩

theorem attach_ok {t t' : EbpfTracer} {pids : List Int32}
    (h : Ends env (attach t pids) s (.ok t') s') :
    t' = { t with
      leader := (pids.map Int32.toUInt32).head?
      watch := pids.map Int32.toUInt32 } := by
  unfold attach at h
  split_ifs at h
  · obtain ⟨he, -⟩ := ends_throw.mp h
    cases he
  · obtain ⟨_, _, -, h⟩ := ends_ok_bind h
    obtain ⟨he, -⟩ := ends_pure.mp h
    exact Except.ok.inj he

/-- A kernel of which nothing is known but the tids that were entered into the target map. -/
def seedKernel : Kernel (List UInt32)
  | k, .targetsInsert tid, .ok (), k' => k' = tid :: k
  | k, _, _, k' => k' = k

/-- The tracers that the constructor can hand out, with the tids it has entered. -/
def Built (follow : Bool) (t : EbpfTracer) (seeds : List UInt32) : Prop :=
  ∃ table target, Ends seedKernel (new table target ⟨follow⟩) [] (.ok t) seeds

/-- The pids that decide about the end of the trace. -/
def polled (t : EbpfTracer) : List UInt32 :=
  match t.child with
  | some child => [child.toU32]
  | none => t.watch

/-- The calls that enter no tid into the target map but those of `tids`. -/
def Enters (tids : List UInt32) (c : Call) : Prop := ∀ tid, c = .targetsInsert tid → tid ∈ tids

theorem seedKernel_enters {tids k k' : List UInt32} {c : Call} {a : c.Answer}
    (hc : Enters tids c) (h : seedKernel k c a k') (hk : k ⊆ tids) : k' ⊆ tids := by
  unfold seedKernel at h
  split at h
  · rw [h]
    exact List.cons_subset.mpr ⟨hc _ rfl, hk⟩
  · exact h ▸ hk

/-- Code that enters no tid but those of `tids` leaves no others entered. -/
theorem ends_enters {α : Type} {tids k k' : List UInt32} {x : Setup α} {r : Except TraceError α}
    (hq : Only (Enters tids) x) (h : Ends seedKernel x k r k') (hk : k ⊆ tids) : k' ⊆ tids :=
  Ends.keeps_only (P := (· ⊆ tids)) (fun _ _ _ _ => seedKernel_enters) hq h hk

theorem quiet_enters {c : Call} (h : c.Quiet) (tids : List UInt32) : Enters tids c := by
  rintro tid rfl
  exact absurd trivial h.2

theorem only_insertTargets {tids all : List UInt32} (h : tids ⊆ all) :
    Only (Enters all) (insertTargets tids) := by
  induction tids with
  | nil => exact only_pure
  | cons tid tids ih =>
    obtain ⟨hin, hrest⟩ := List.cons_subset.mp h
    refine Only.bind (only_ask fun tid' he => ?_) fun _ => Only.bind only_orUnsupported fun _ => ?_
    · cases he
      exact hin
    · exact ih hrest

theorem only_arm (tids : List UInt32) : Only (Enters tids) (arm tids) := by
  refine Only.bind (only_ask fun _ he => by cases he) fun _ => Only.bind only_orMissing fun _ => ?_
  refine Only.bind (only_ask fun _ he => by cases he) fun _ => ?_
  exact Only.bind only_orUnsupported fun _ => only_insertTargets (List.Subset.refl _)

theorem only_release (t : EbpfTracer) (child : Pid) (readFd writeFd : Int32) :
    Only (Enters [child.toU32]) (release t child readFd writeFd) := by
  refine Only.bind (only_ask fun _ he => by cases he) fun _ => ?_
  refine Only.bind (Only.caught (only_arm _)) fun _ => ?_
  refine Only.bind (only_ask fun _ he => by cases he) fun _ => ?_
  refine Only.bind (only_ask fun _ he => by cases he) fun _ => ?_
  exact Only.bind only_mk_done fun _ => only_pure

/-- What is known of a tracer before its first call of `next_event`: it goes on, and it polls every
task whose tid it has entered. -/
structure Ready (t : EbpfTracer) (seeds : List UInt32) : Prop where
  finished : t.finished = false
  seeds : seeds ⊆ t.polled

theorem spawn_ready {t t' : EbpfTracer} {program : OsBytes} {args : List OsBytes}
    {seeds : List UInt32} (h : Ends seedKernel (spawn t program args) [] (.ok t') seeds)
    (ht : Fresh t) : Ready t' seeds := by
  obtain ⟨_, k₁, hresolve, h⟩ := ends_ok_bind h
  have hnone : k₁ = [] := by
    have honly := (quiet_resolveProgram program).mono fun _ hc => quiet_enters hc []
    exact List.subset_nil.mp (ends_enters honly hresolve (List.Subset.refl _))
  subst hnone
  obtain ⟨_, _, ⟨-, rfl⟩, h⟩ := ends_ok_bind h
  obtain ⟨_, _, ⟨-, rfl⟩, h⟩ := ends_ok_bind h
  obtain ⟨piped, k₂, hpipe, h⟩ := ends_ask_bind.mp h
  obtain rfl : k₂ = [] := hpipe
  obtain e | ⟨readFd, writeFd⟩ := piped
  · obtain ⟨he, -⟩ := ends_throw.mp h
    cases he
  · obtain ⟨forked, k₃, hfork, h⟩ := ends_ask_bind.mp h
    obtain rfl : k₃ = [] := hfork
    obtain e | child := forked
    · obtain ⟨he, -⟩ := ends_throw_bind.mp h
      cases he
    · have hrelease : Ends seedKernel (release t child readFd writeFd) [] (.ok t') seeds := h
      obtain rfl := release_ok hrelease
      exact ⟨ht.finished, ends_enters (only_release ..) hrelease (List.nil_subset _)⟩

theorem attach_ready {t t' : EbpfTracer} {pids : List Int32} {seeds : List UInt32}
    (h : Ends seedKernel (attach t pids) [] (.ok t') seeds) (ht : Fresh t) : Ready t' seeds := by
  unfold attach at h
  split_ifs at h
  · obtain ⟨he, -⟩ := ends_throw.mp h
    cases he
  · obtain ⟨_, k₁, harm, h⟩ := ends_ok_bind h
    obtain ⟨he, rfl⟩ := ends_pure.mp h
    cases he
    refine ⟨ht.finished, ?_⟩
    rw [polled, ht.child]
    exact ends_enters (only_arm _) harm (List.nil_subset _)

theorem Built.ready {follow : Bool} {t : EbpfTracer} {seeds : List UInt32}
    (h : Built follow t seeds) : Ready t seeds := by
  obtain ⟨table, target, h⟩ := h
  obtain ⟨t₀, k₁, hload, h⟩ := ends_ok_bind h
  have hnone : k₁ = [] := by
    have honly := (quiet_load table ⟨follow⟩).mono fun _ hc => quiet_enters hc []
    exact List.subset_nil.mp (ends_enters honly hload (List.Subset.refl _))
  subst hnone
  cases target with
  | spawn program args => exact spawn_ready h (load_fresh hload)
  | attach pids => exact attach_ready h (load_fresh hload)

/-- The answers of a machine on which every step of the setup succeeds. -/
def granted : (c : Call) → Option c.Answer
  | .pathExists _ => some true
  | .geteuid => some (0 : UInt32)
  | .setrlimitMemlock => some ()
  | .ebpfLoad => some (.ok ())
  | .programMut _ => some true
  | .asTracePoint _ => some (.ok ())
  | .programLoad _ => some (.ok ())
  | .programAttach _ _ _ => some (.ok ())
  | .mapMut _ => some true
  | .mapTryFrom _ => some (.ok ())
  | .takeMap _ => some true
  | .ringTryFrom => some (.ok ())
  | .targetsInsert _ => some (.ok ())
  | .clockMonotonic => some (0 : UInt64)
  | .metadata _ => some (some (true, 0o755))
  | .pipe2 => some (.ok (3, 4))
  | .fork _ => some (.ok ⟨100⟩)
  | .close _ => some ()
  | .write _ _ => some ()
  | .now => some (0 : ℕ)
  | .setoptions _ _ => some (.ok ())
  | .syscall _ _ => some (.ok ())
  | _ => none

end EbpfTracer

end Syren
