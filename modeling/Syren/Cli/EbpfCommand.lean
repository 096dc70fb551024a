import Syren.Cli.Command
import Syren.Trace.EbpfQueue

/-! The exit code of a command over the eBPF backend. -/
namespace Syren
open Output Writers

variable {σ ω : Type} {session : Session}

/-- Where all exits that are told have one status, and the leader's is among them or the code was
this status before, the events come to this status. -/
theorem Session.foldl_codeOf {evs : List Event} {code start : Int32}
    (hs : ∀ pid status, .processExit pid status ∈ evs → status = code)
    (h : (∃ pid ∈ session.leader, .processExit pid code ∈ evs) ∨ start = code) :
    evs.foldl (fun code ev => session.codeOf ev code) start = code := by
  induction evs generalizing start with
  | nil =>
    rcases h with ⟨_, _, hmem⟩ | hstart
    · cases hmem
    · exact hstart
  | cons ev evs ih =>
    rw [List.foldl_cons]
    refine ih (fun pid status hmem => hs pid status (List.mem_cons_of_mem ev hmem)) ?_
    rcases h with ⟨pid, hlead, hmem⟩ | hstart
    · rcases List.mem_cons.mp hmem with hhead | htail
      · refine .inr ?_
        rw [← hhead, codeOf, if_pos hlead.symm]
      · exact .inl ⟨pid, hlead, htail⟩
    · refine .inr ?_
      cases ev with
      | processExit pid status =>
        unfold codeOf
        dsimp only
        split_ifs
        · exact hs pid status List.mem_cons_self
        · exact hstart
      | syscall | signal => exact hstart

namespace EbpfTracer
open Interaction Interaction.Method Interaction.Attempt

variable {env : Kernel σ} {memory : EbpfTracer × σ → SyscallEvent → MemoryReader → Prop}
  {t t' : EbpfTracer} {s s' : σ} {code : Int32} {out : List Event} {fuel : ℕ}

/-- The eBPF backend as the command line sees it. -/
def asTracer (env : Kernel σ)
    (memory : EbpfTracer × σ → SyscallEvent → MemoryReader → Prop) :
    Traceable (EbpfTracer × σ) where
  nextEvent a r b := ∃ fuels, Runs env (nextEvent fuels) a.1 a.2 r b.1 b.2
  memory := memory

theorem passes_asTracer : (asTracer env memory).Passes (passStep env) :=
  fun _ _ _ => runs_nextEvent_iff

/-- The answer that there is no child to wait for. -/
def unwaited : (c : Call) → c.Answer → Bool
  | .waitNohang _, .error _ => true
  | _, _ => false

/-- The kernel's state tells whether a `waitpid` without a child to wait for was among the calls. -/
def Notes (env : Kernel σ) (failed : σ → Bool) : Prop :=
  ∀ s c a s', env s c a s' → failed s' = (failed s || unwaited c a)

/-- Where `waitpid` reports the end of the spawned child, it is an end with this code: an exit code,
or 128 and the number of a signal. Without a child the code is 0. -/
structure EndsWith (env : Kernel σ) (t : EbpfTracer) (code : Int32) : Prop where
  status : ∀ child ∈ t.child, ∀ s st s' status, env s (.waitNohang child) (.ok st) s' →
    endCode (.ok st) = some status → status = code
  none : t.child = none → code = 0

/-- The status of the target as the tracer learns it: nothing is learned of it where `waitpid` has
failed. -/
def learned (failed : σ → Bool) (code : Int32) (s : σ) : Int32 := if failed s then 0 else code

/-- The events that were returned and those that wait in the queue. -/
def announced (out : List Event) (t : EbpfTracer) : List Event := out ++ t.queue.map Prod.fst

/-- The invariant: every exit that is announced has the status learned, and the leader's is
announced once the tracer has decided for the end. Before, no `waitpid` has failed. -/
structure Announces (failed : σ → Bool) (code : Int32) (out : List Event) (t : EbpfTracer)
    (s : σ) : Prop where
  status : ∀ pid status, .processExit pid status ∈ announced out t →
    t.finished = true ∧ status = learned failed code s
  ended : t.finished = true → ∀ pid ∈ t.leader,
    .processExit pid (learned failed code s) ∈ announced out t
  sound : t.finished = false → failed s = false

theorem notMem_queued {items : List (List UInt8)} {baseline : UInt64} {pid : UInt32}
    {status : Int32} :
    .processExit pid status ∉ (items.filterMap (queued baseline)).map Prod.fst := by
  intro hmem
  obtain ⟨e, he, hexit⟩ := List.mem_map.mp hmem
  obtain ⟨item, -, hqueued⟩ := List.mem_filterMap.mp he
  obtain ⟨rec, -, rfl⟩ := Option.map_eq_some_iff.mp hqueued
  cases hexit

variable {failed : σ → Bool} {s₁ : σ}

theorem Drains.unfailed {items : List (List UInt8)} (hn : Notes env failed)
    (h : Drains env fuel s items s') : failed s' = failed s := by
  induction h with
  | empty ha => exact (hn _ _ _ _ ha).trans (Bool.or_false _)
  | item ha _ ih => exact ih.trans ((hn _ _ _ _ ha).trans (Bool.or_false _))

theorem AllGone.unfailed {pids : List UInt32} {b : Bool} (hn : Notes env failed)
    (h : AllGone env pids s b s') : failed s' = failed s := by
  induction h with
  | none => rfl
  | alive ha => exact (hn _ _ _ _ ha).trans (Bool.or_false _)
  | gone ha _ _ ih => exact ih.trans ((hn _ _ _ _ ha).trans (Bool.or_false _))

/-- Calls in which no `waitpid` fails leave what was announced as it is. -/
theorem Announces.moved (h : Announces failed code out t s) (hf : failed s' = failed s) :
    Announces failed code out t s' := by
  have hsame : learned failed code s' = learned failed code s := by rw [learned, learned, hf]
  exact ⟨fun pid status he => hsame ▸ h.status pid status he,
    fun he pid hl => hsame.symm ▸ h.ended he pid hl, fun he => hf.trans (h.sound he)⟩

theorem Announces.takes (h : Announces failed code out t s) (items : List (List UInt8)) :
    Announces failed code out (t.takes items) s := by
  have hmem {pid : UInt32} {status : Int32} :
      .processExit pid status ∈ announced out (t.takes items) ↔
        .processExit pid status ∈ announced out t := by
    simp only [announced, EbpfTracer.takes, List.map_append, List.mem_append, notMem_queued,
      or_false]
  exact ⟨fun pid status he => h.status pid status (hmem.mp he),
    fun hf pid hl => hmem.mpr (h.ended hf pid hl), h.sound⟩

/-- The tracer decides for the end, with the status that it has learned. -/
theorem Announces.finds (h : Announces failed code out t s) (hf : t.finished = false) :
    Announces failed code out (t.finds (learned failed code s')) s' := by
  have hannounced : announced out (t.finds (learned failed code s')) = announced out t ++
      (t.leader.map fun pid => Event.processExit pid (learned failed code s')).toList := by
    simp only [announced, EbpfTracer.finds, List.map_append, List.append_assoc]
    cases t.leader <;> rfl
  refine ⟨fun pid status he => ?_, fun _ pid hl => ?_, fun hgoes => ?_⟩
  · rw [hannounced, List.mem_append] at he
    rcases he with hold | hnew
    · rw [(h.status pid status hold).1] at hf
      cases hf
    · obtain ⟨_, -, heq⟩ := Option.map_eq_some_iff.mp (Option.mem_toList.mp hnew)
      cases heq
      exact ⟨rfl, rfl⟩
  · rw [hannounced, List.mem_append]
    exact .inr (Option.mem_toList.mpr (Option.map_eq_some_iff.mpr ⟨pid, hl, rfl⟩))
  · cases hgoes

/-- What `waitpid` says of the child's end is what is learned of it. -/
theorem EndsWith.learns (he : EndsWith env t code) (hn : Notes env failed)
    (hf : failed s = false) {child : Pid} (hc : t.child = some child)
    {a : Except Errno WaitStatus} {status : Int32} (ha : env s (.waitNohang child) a s')
    (hs : endCode a = some status) : status = learned failed code s' := by
  have hnow := hn _ _ _ _ ha
  rw [hf] at hnow
  cases a with
  | ok st =>
    have hgood : failed s' = false := hnow
    rw [learned, hgood]
    exact he.status child hc _ _ _ _ ha hs
  | error e =>
    have hbad : failed s' = true := hnow
    cases hs
    rw [learned, hbad]
    rfl

theorem Liveness.announces {b : Bool} (h : Announces failed code out t s)
    (he : EndsWith env t code) (hn : Notes env failed) (hf : t.finished = false)
    (hl : Liveness env fuel t s b t' s') : Announces failed code out t' s' := by
  cases hl with
  | dead hc ha hs hi =>
    have hstatus := he.learns hn (h.sound hf) hc ha hs
    have hsame : learned failed code _ = learned failed code s' :=
      congrArg (if · = true then 0 else code) (hi.unfailed hn).symm
    rw [hstatus, hsame]
    exact (h.takes _).finds hf
  | @allGone items _ _ hc =>
    have hzero : learned failed code s' = 0 := by
      rw [learned, he.none hc, ite_self]
    exact hzero ▸ (h.takes items).finds hf
  | @alive child a _ hc ha hs =>
    refine h.moved ((hn _ _ _ _ ha).trans ?_)
    cases a with
    | ok st => exact Bool.or_false _
    | error e => cases hs
  | unwatched => exact h
  | someAlive _ _ hg => exact h.moved (hg.unfailed hn)

theorem Liveness.same {b : Bool} (h : Liveness env fuel t s b t' s') : SameTarget t t' := by
  cases h <;> exact ⟨rfl, rfl, rfl, rfl⟩

theorem Pass.same {o : Outcome} (h : Pass env fuel t s o t' s') : SameTarget t t' := by
  cases h with
  | pops | fills | ends => exact ⟨rfl, rfl, rfl, rfl⟩
  | finishes _ _ _ _ hl => exact hl.same
  | polls _ _ _ _ hl _ => exact hl.same

theorem Pass.announces {o : Outcome} (h : Announces failed code out t s)
    (he : EndsWith env t code) (hn : Notes env failed) (hp : Pass env fuel t s o t' s') :
    Announces failed code (out ++ (PtraceTracer.eventOf o).toList) t' s' := by
  cases hp with
  | @pops event cap queue hq =>
    have hsame : announced (out ++ [event]) { t with queue := queue, current := cap } =
        announced out t := by
      simp only [announced, hq, List.map_cons, List.append_assoc, List.singleton_append]
    exact ⟨fun pid status hm => h.status pid status (hsame ▸ hm),
      fun hf pid hl => hsame.symm ▸ h.ended hf pid hl, h.sound⟩
  | @fills items _ _ hi =>
    simpa [PtraceTracer.eventOf] using (h.takes items).moved (hi.unfailed hn)
  | ends _ hi => simpa [PtraceTracer.eventOf] using h.moved (hi.unfailed hn)
  | finishes _ hi _ hf hl =>
    simpa [PtraceTracer.eventOf] using hl.announces (h.moved (hi.unfailed hn)) he hn hf
  | polls _ hi _ hf hl hp =>
    have hpolled := (hn _ _ _ _ hp).trans (Bool.or_false _)
    have hlive := hl.announces (h.moved (hi.unfailed hn)) he hn hf
    simpa [PtraceTracer.eventOf] using hlive.moved hpolled

theorem announces_run {a : EbpfTracer × σ} {l : List (Outcome × (EbpfTracer × σ))}
    (hb : Blank a.1) (hs : failed a.2 = false) (he : EndsWith env a.1 code)
    (hn : Notes env failed) (h : IsRun (passStep env) a l) :
    Announces failed code (yielded l) (lastState a l).1 (lastState a l).2 ∧
      SameTarget a.1 (lastState a l).1 := by
  refine h.induction (motive := fun l =>
    Announces failed code (yielded l) (lastState a l).1 (lastState a l).2 ∧
      SameTarget a.1 (lastState a l).1) ⟨⟨?_, ?_, fun _ => hs⟩, rfl, rfl, rfl, rfl⟩ ?_
  · intro pid status hm
    simp [announced, yielded, hb.1] at hm
  · intro hf
    cases hb.2.symm.trans hf
  · intro l x _ hbefore hstep
    obtain ⟨ha, hsame⟩ := hbefore
    obtain ⟨fuel, hp⟩ := passStep_iff.mp hstep
    have hends : EndsWith env (lastState a l).1 code :=
      ⟨hsame.child.symm ▸ he.status, hsame.child.symm ▸ he.none⟩
    have hyielded : yielded (l ++ [x]) = yielded l ++ (PtraceTracer.eventOf x.1).toList := by
      rw [yielded, List.filterMap_append, ← yielded]
      cases hx : PtraceTracer.eventOf x.1 <;> simp [hx]
    rw [lastState_concat, hyielded]
    exact ⟨Pass.announces ha hends hn hp, hsame.trans hp.same⟩

/-- A tracer without a leader has no child. -/
theorem new_leader {table : List SyscallInfo} {target : Target} {options : TraceOptions}
    (h : Ends env (new table target options) s (.ok t) s') (hl : t.leader = none) :
    t.child = none := by
  obtain ⟨t₀, s₁, hload, h⟩ := ends_ok_bind h
  have hfresh := load_fresh hload
  cases target with
  | spawn program args =>
    have hspawn : Ends env (spawn t₀ program args) s₁ (.ok t) s' := h
    obtain ⟨child, rfl⟩ := spawn_ok hspawn
    cases hl
  | attach pids =>
    have hattach : Ends env (attach t₀ pids) s₁ (.ok t) s' := h
    obtain rfl := attach_ok hattach
    exact hfresh.child

/-- A command over the eBPF backend that succeeds exits with the status with which the spawned
child has ended, and with 0 if it has attached to its target, whatever else the target has created.
Where `waitpid` finds no child to wait for, the child's status is lost and the command exits with
0. -/
theorem command_exits_as_child {table : List SyscallInfo} {target : Target}
    {options : TraceOptions} {s₀ : σ} {a b : EbpfTracer × σ}
    {write : List UInt8 → Io IoError ω Unit} {sink : Sink} {w w' : ω} {c : UInt8}
    (hnew : Ends env (new table target options) s₀ (.ok a.1) a.2) (he : EndsWith env a.1 code)
    (hn : Notes env failed) (hstart : failed a.2 = false) (hs : session.leader = a.1.leader)
    (h : Loops (asTracer env memory) session write a sink 0 w (.ok c) b w') :
    c = if failed b.2 then 0 else exitCode code := by
  obtain ⟨l, evs, hrun, hevs, hr⟩ := h.passes passes_asTracer
  obtain ⟨hbefore, hlast⟩ := isRun_concat.mp hrun
  obtain ⟨hann, hsame⟩ := announces_run (new_blank hnew) hstart he hn hbefore
  obtain ⟨t₁, s₁⟩ := b
  obtain ⟨fuel, hp⟩ := passStep_iff.mp hlast
  cases hp with
  | @ends items _ hq hi hnone hf =>
    have hqueued : announced (yielded l) (lastState a l).1 = yielded l := by
      rw [announced, hq, List.map_nil, List.append_nil]
    have hlearned : exitCode (learned failed code (lastState a l).2) =
        if failed s₁ then 0 else exitCode code := by
      rw [learned, hi.unfailed hn]
      split_ifs <;> rfl
    rw [Session.run_code hr, ← hevs, ← hlearned]
    refine congrArg exitCode (Session.foldl_codeOf (fun pid status hm => ?_) ?_)
    · exact (hann.status pid status (hqueued.symm ▸ hm)).2
    · cases hl : a.1.leader with
      | none =>
        refine .inr ?_
        rw [learned, he.none (new_leader hnew hl), ite_self]
      | some pid =>
        exact .inl ⟨pid, hs.trans hl, hqueued ▸ hann.ended hf pid (hsame.leader.trans hl)⟩

/-- A call that a process returned from which the child has made. -/
def helperCall : Record where
  pid := 101
  tid := 101
  nr := 39
  args := .replicate 6 0
  retval := 101
  tsEnterNs := 5
  durationNs := 1
  capAddr := 0
  capLen := 0
  pad := 0
  cap := .replicate CAP_BYTES 0

/-- A machine on which the setup succeeds. The ring holds the call of the helper at first, and the
child exits with 7. -/
def sevenKernel : Kernel Bool
  | waiting, .ringNext, some item, waiting' =>
    waiting = true ∧ item = helperCall.toBytes ∧ waiting' = false
  | waiting, .ringNext, none, waiting' => waiting = false ∧ waiting' = waiting
  | waiting, .waitNohang _, a, waiting' => a = .ok (.exited ⟨100⟩ 7) ∧ waiting' = waiting
  | waiting, c, a, waiting' => granted c = some a ∧ waiting' = waiting

theorem new_spawned :
    Ends sevenKernel (new [] (.spawn [47] []) ⟨true⟩) true (.ok spawned) true := by
  have hplay (s : Bool) (c : Call) (a : c.Answer) (s' : Bool)
      (h : (granted c).map (fun a => (a, s)) = some (a, s')) : sevenKernel s c a s' := by
    obtain ⟨a', ha, he⟩ := Option.map_eq_some_iff.mp h
    cases he
    cases c with
    | ringNext | waitNohang => cases ha
    | _ => exact ⟨ha, rfl⟩
  exact Program.exec_of_play hplay rfl

/-- The call of the helper is returned, then the exit of the child. -/
theorem run_spawned : ∃ l b, IsRun (passStep sevenKernel) (spawned, true)
    (l ++ [(.ok (some none), b)]) ∧ ∀ x ∈ l, ∀ e, x.1 ≠ .error e := by
  let t₁ := spawned.takes [helperCall.toBytes]
  let t₂ : EbpfTracer := { spawned with queue := [(.processExit 100 7, none)], finished := true }
  let t₃ : EbpfTracer := { spawned with finished := true }
  let called : Event := .syscall (recordToEvent helperCall 0)
  have hqueue : t₁.queue = [(called, none)] := by
    have hrecords : recordsOf [helperCall.toBytes] = [helperCall] := recordsOf_toBytes [helperCall]
    show [] ++ [helperCall.toBytes].filterMap (queued spawned.baselineNs) = _
    rw [filterMap_queued, toldAll, hrecords, List.nil_append]
    rfl
  have hempty : Drains sevenKernel 2 false [] false := .empty ⟨rfl, rfl⟩
  have hfirst : Drains sevenKernel 2 true [helperCall.toBytes] false :=
    .item ⟨rfl, rfl, rfl⟩ (.empty ⟨rfl, rfl⟩)
  have hfilled : passStep sevenKernel (spawned, true) (.ok none) (t₁, false) :=
    passStep_iff.mpr ⟨2, .fills rfl hfirst (hqueue ▸ List.cons_ne_nil _ _)⟩
  have hpopped : Pass sevenKernel 2 t₁ false (.ok (some (some called))) spawned false :=
    .pops hqueue
  have hcall : passStep sevenKernel (t₁, false) (.ok (some (some called))) (spawned, false) :=
    passStep_iff.mpr ⟨2, hpopped⟩
  have hdead : Liveness sevenKernel 2 spawned false true t₂ false :=
    .dead rfl ⟨rfl, rfl⟩ rfl hempty
  have hfound : passStep sevenKernel (spawned, false) (.ok none) (t₂, false) :=
    passStep_iff.mpr ⟨2, .finishes rfl hempty takes_nil rfl hdead⟩
  have htold : passStep sevenKernel (t₂, false) (.ok (some (some (.processExit 100 7))))
      (t₃, false) := passStep_iff.mpr ⟨2, .pops rfl⟩
  have hover : passStep sevenKernel (t₃, false) (.ok (some none)) (t₃, false) :=
    passStep_iff.mpr ⟨2, .ends rfl hempty takes_nil rfl⟩
  exact ⟨[(_, t₁, false), (_, spawned, false), (_, t₂, false), (_, t₃, false)], _,
    ⟨hfilled, hcall, hfound, htold, hover, trivial⟩, by simp⟩

noncomputable def childSession : Session where
  table := []
  filter := .All
  leader := some 100
  fmt := .whole

/-- The child exits with 7 after a process that it has made has been told of. -/
theorem command_exits_as_child_seven : ∃ limit b w,
    Loops (asTracer sevenKernel fun _ _ _ => True) childSession
      (Outlet.direct limit ⟨.BrokenPipe, []⟩).write (spawned, true) .json 0 [] (.ok 7) b w ∧
        (7 : UInt8) = exitCode 7 := by
  have hp : (asTracer sevenKernel fun _ _ _ => True).Passes _ := passes_asTracer
  obtain ⟨l, b, hrun, hsteps⟩ := run_spawned
  obtain ⟨limit, c, b', w, hloops, -⟩ := hp.loops childSession
    (Outlet.roomy_direct ⟨.BrokenPipe, []⟩) .json (fun _ _ => ⟨fun _ _ => none, trivial⟩) hrun
    hsteps
  have hends : EndsWith sevenKernel spawned 7 := by
    refine ⟨?_, fun h => by cases h⟩
    intro child _ _ st _ status ha hstatus
    cases ha.1
    cases hstatus
    rfl
  have hnotes : Notes sevenKernel fun _ => false := by
    intro s c a s' h
    cases c with
    | waitNohang =>
      cases h.1
      rfl
    | _ => rfl
  have hcode := command_exits_as_child new_spawned hends hnotes rfl rfl hloops
  obtain rfl : c = 7 := hcode.trans (by decide)
  exact ⟨limit, b', w, hloops, rfl⟩

end EbpfTracer

end Syren
