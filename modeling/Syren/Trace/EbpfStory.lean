import Syren.Interaction.Simulation
import Syren.Trace.EbpfQueue
import Syren.Trace.Story

/-! The syscalls that the eBPF backend reports of a spawned program, against a machine on which the
child lives its story call by call and the in-kernel programs run at every call. -/
namespace Syren
open Interaction Interaction.Attempt Relation

namespace Story

/-- Every call that the child of the eBPF backend leaves, from the fork on. -/
def left (s : Story) : List Made := s.opening ++ s.read :: (s.launched ++ s.abandoned)

/-- The call that the program dies in without leaving it. -/
def last (s : Story) : Option (UInt64 × Vector UInt64 6) :=
  match s.death with
  | .inside nr args => some (nr, args)
  | _ => none

def entered (s : Story) : List (UInt64 × Vector UInt64 6) :=
  s.left.map Made.begun ++ s.last.toList

theorem opening_lt_left (s : Story) : s.opening.length < s.left.length := by
  simp [left]

theorem entered_of_left {s : Story} {n : ℕ} {c : Made} (h : s.left[n]? = some c) :
    s.entered[n]? = some c.begun := by
  obtain ⟨hn, rfl⟩ := List.getElem?_eq_some_iff.mp h
  rw [entered, List.getElem?_append_left (by simpa using hn)]
  simp [hn]

end Story

structure Watched where
  maps : Kernel.Maps
  born : Bool
  /-- The byte that the child waits for is in the pipe. -/
  filled : Bool
  /-- The number of calls that the child has left, and whether it is in another one. -/
  past : ℕ
  inside : Bool
  /-- The number of calls that the child had entered when its tid came to be a target. -/
  missed : ℕ
  /-- The number of records taken out of the ring. -/
  taken : ℕ
  dead : Bool

namespace Watched

/-- The insertion of a tid by userspace. -/
def arms (s : Story) (k : Watched) (tid : UInt32) : Watched := { k with
  maps := { k.maps with targets := k.maps.targets.insert tid 1 }
  missed := if Kernel.isTarget k.maps s.pid.toU32 then k.missed
    else if k.inside then k.past + 1 else k.past }

def enters (k : Watched) (ctx : Kernel.EnterCtx) : Watched :=
  { k with maps := Kernel.sysEnter ctx k.maps, inside := true }

def leaves (k : Watched) (ctx : Kernel.ExitCtx) : Watched :=
  { k with maps := Kernel.sysExit ctx k.maps, inside := false, past := k.past + 1 }

/-- The child goes on with its story. It does not come out of its read of the pipe before the byte
is there. The maps and the ring have room if that is promised; if not, an entry or a record may be
lost. -/
inductive Lives (room : Bool) (s : Story) : Watched → Watched → Prop where
  | enters {k : Watched} (ctx : Kernel.EnterCtx) (raw : Kernel.RawEnter) (hb : k.born = true)
      (hd : k.dead = false) (hi : k.inside = false)
      (hn : s.entered[k.past]? = some (raw.id.toUInt64, raw.args))
      (htid : ctx.pidTgid.toUInt32 = s.pid.toU32) (hraw : ctx.raw = .ok raw)
      (hroom : room = true → ¬ k.maps.enters.Full s.pid.toU32) : Lives room s k (k.enters ctx)
  | leaves {k : Watched} (ctx : Kernel.ExitCtx) (c : Made) (hi : k.inside = true)
      (hn : s.left[k.past]? = some c) (hgate : k.past = s.opening.length → k.filled = true)
      (htid : ctx.pidTgid.toUInt32 = s.pid.toU32) (hret : ctx.ret = .ok c.ret)
      (hroom : room = true → ctx.reserved = true) : Lives room s k (k.leaves ctx)
  | dies {k : Watched} (hall : k.past = s.left.length) (hi : k.inside = s.last.isSome) :
      Lives room s k { k with dead := true }

def Answers (s : Story) : Watched → (c : Call) → c.Answer → Watched → Prop
  | k, .fork _, .ok pid, k' => pid = s.pid ∧ k' = { k with born := true }
  | k, .targetsInsert tid, .ok (), k' => ¬ k.maps.targets.Full tid ∧ k' = arms s k tid
  | k, .write _ _, (), k' => k' = { k with filled := true }
  | k, .ringNext, some item, k' => ∃ r, k.maps.events[k.taken]? = some r ∧ item = r.toBytes ∧
      k' = { k with taken := k.taken + 1 }
  | k, .ringNext, none, k' => k.maps.events.length ≤ k.taken ∧ k' = k
  | k, .waitNohang _, .ok st, k' => (st.death.isSome → k.dead = true) ∧ k' = k
  | k, .waitNohang _, .error _, k' => k.dead = true ∧ k' = k
  | k, .kill _ _, .error e, k' => (e ≠ .EPERM → k.dead = true) ∧ k' = k
  | k, _, _, k' => k' = k

/-- Before the child is made nothing is known of its tid. -/
structure Unborn (s : Story) (k : Watched) : Prop where
  targets : Kernel.isTarget k.maps s.pid.toU32 = false
  enters : k.maps.enters.get s.pid.toU32 = none
  events : k.maps.events = []
  born : k.born = false
  filled : k.filled = false
  past : k.past = 0
  inside : k.inside = false
  taken : k.taken = 0
  dead : k.dead = false

end Watched

/-- The child may live on before any call is answered. -/
def watchKernel (room : Bool) (s : Story) : Kernel Watched :=
  moving (Watched.Lives room s) (Watched.Answers s)

namespace EbpfTracer

/-- What a record says, as the event made of it does. -/
def recordLine (r : Record) : Line := (r.tid, r.nr, r.args, r.retval)

/-- The child is held at the pipe, or on its way there, and its tid is not inserted. -/
structure Held (s : Story) (k : Watched) : Prop where
  targets : Kernel.isTarget k.maps s.pid.toU32 = false
  enters : k.maps.enters.get s.pid.toU32 = none
  events : k.maps.events = []
  filled : k.filled = false
  past : k.past ≤ s.opening.length
  taken : k.taken = 0
  dead : k.dead = false

/-- What is told of some calls, in their order: of all of them where there is room. -/
structure Among (room : Bool) (told made : List Line) : Prop where
  sublist : told.Sublist made
  all : room = true → told = made

/-- The tid of the child is inserted: the calls entered since then have their records when they are
left, and the call that the child is in has its entry, unless there was no room for them. -/
structure Tracked (room : Bool) (s : Story) (k : Watched) : Prop where
  targets : Kernel.isTarget k.maps s.pid.toU32 = true
  missed : k.missed ≤ s.opening.length + 1
  events : Among room (k.maps.events.map recordLine) (span s.pid s.left k.missed k.past)
  between : k.inside = false → k.missed ≤ k.past
  early : k.inside = true → k.past < k.missed →
    k.missed = k.past + 1 ∧ k.maps.enters.get s.pid.toU32 = none
  late : k.inside = true → k.missed ≤ k.past → ∀ e, k.maps.enters.get s.pid.toU32 = some e →
    s.entered[k.past]? = some (e.nr, e.args)
  kept : room = true → k.inside = true → k.missed ≤ k.past →
    (k.maps.enters.get s.pid.toU32).isSome
  dead : k.dead = true → k.past = s.left.length

variable {room : Bool} {s : Story} {k k' : Watched} {t : EbpfTracer}

section Among

variable {told made : List Line}

theorem Among.nil : Among room [] [] := ⟨.slnil, fun _ => rfl⟩

theorem Among.tells (h : Among room told made) (line : Line) :
    Among room (told ++ [line]) (made ++ [line]) :=
  ⟨h.sublist.append (.refl _), fun hr => congrArg (· ++ [line]) (h.all hr)⟩

/-- A call that is not told of is one that there was no room for. -/
theorem Among.skips (h : Among room told made) {line : Line} (hr : room ≠ true) :
    Among room told (made ++ [line]) :=
  ⟨h.sublist.trans (List.sublist_append_left _ _), fun h => absurd h hr⟩

theorem Among.filter (h : Among room told made) (p : Line → Bool) :
    Among room (told.filter p) (made.filter p) :=
  ⟨h.sublist.filter p, fun hr => congrArg (List.filter p) (h.all hr)⟩

end Among

theorem held_of_unborn (h : k.Unborn s) : Held s k :=
  ⟨h.targets, h.enters, h.events, h.filled, h.past ▸ Nat.zero_le _, h.taken, h.dead⟩

theorem Held.lives (h : Held s k) (hs : k.Lives room s k') : Held s k' := by
  cases hs with
  | enters ctx raw hb hd hi hn htid hraw hroom =>
    have hsame : k.enters ctx = { k with inside := true } := by
      rw [Watched.enters, Kernel.sysEnter_other (htid ▸ h.targets)]
    rw [hsame]
    exact ⟨h.targets, h.enters, h.events, h.filled, h.past, h.taken, h.dead⟩
  | leaves ctx c hi hn hgate htid hret hroom =>
    have hsame : k.leaves ctx = { k with inside := false, past := k.past + 1 } := by
      rw [Watched.leaves, Kernel.sysExit_none (htid ▸ h.enters)]
    have hbefore : k.past ≠ s.opening.length := fun he => by
      have hfilled := hgate he
      rw [h.filled] at hfilled
      cases hfilled
    rw [hsame]
    exact ⟨h.targets, h.enters, h.events, h.filled, Nat.lt_of_le_of_ne h.past hbefore, h.taken,
      h.dead⟩
  | dies hall =>
    have hlt := s.opening_lt_left
    exact absurd h.past (by omega)

/-- A call entered under an inserted tid has its entry. -/
theorem Tracked.enters (h : Tracked room s k) {ctx : Kernel.EnterCtx} {raw : Kernel.RawEnter}
    (hi : k.inside = false) (hd : k.dead = false)
    (hn : s.entered[k.past]? = some (raw.id.toUInt64, raw.args))
    (htid : ctx.pidTgid.toUInt32 = s.pid.toU32) (hraw : ctx.raw = .ok raw)
    (hroom : room = true → ¬ k.maps.enters.Full s.pid.toU32) : Tracked room s (k.enters ctx) := by
  have hmissed := h.between hi
  have hmaps := Kernel.sysEnter_target hraw (htid ▸ h.targets)
  rw [Watched.enters, hmaps, htid]
  refine ⟨h.targets, h.missed, h.events, nofun, fun _ hlt => ?_, fun _ _ e he => ?_,
    fun hr _ _ => ?_, fun hdead => ?_⟩
  · exact absurd hlt (Nat.not_lt.mpr hmissed)
  · rw [BoundedMap.eq_of_get_insert_self he]
    exact hn
  · rw [BoundedMap.get_insert_self (hroom hr)]
    rfl
  · rw [hd] at hdead
    cases hdead

theorem recordLine_recordOf (ctx : Kernel.ExitCtx) (m : Kernel.Maps) (e : Kernel.Enter)
    {ret : Int64} (hret : ctx.ret = .ok ret) :
    recordLine (Kernel.recordOf ctx m e) = (ctx.pidTgid.toUInt32, e.nr, e.args, ret) := by
  obtain ⟨cap, addr, len, hrec⟩ := Kernel.capturePath_eq ctx m _ e
  rw [Kernel.recordOf, hrec]
  simp only [recordLine, hret]

/-- A call that was entered before the tid was inserted leaves no record, every other its own if it
leaves one. -/
theorem Tracked.leaves (h : Tracked room s k) {ctx : Kernel.ExitCtx} {c : Made}
    (hi : k.inside = true) (hn : s.left[k.past]? = some c)
    (htid : ctx.pidTgid.toUInt32 = s.pid.toU32) (hret : ctx.ret = .ok c.ret)
    (hroom : room = true → ctx.reserved = true) : Tracked room s (k.leaves ctx) := by
  obtain ⟨hlt, -⟩ := List.getElem?_eq_some_iff.mp hn
  have notDead (hdead : k.dead = true) : k.past + 1 = s.left.length := by
    rw [h.dead hdead] at hlt
    exact absurd hlt (Nat.lt_irrefl _)
  rcases Nat.lt_or_ge k.past k.missed with hearly | hlate
  · obtain ⟨hmissed, hnone⟩ := h.early hi hearly
    have hsame : k.leaves ctx = { k with inside := false, past := k.past + 1 } := by
      rw [Watched.leaves, Kernel.sysExit_none (htid ▸ hnone)]
    rw [hsame]
    have hempty : span s.pid s.left k.missed k.past = span s.pid s.left k.missed (k.past + 1) :=
      (span_empty hearly.le).trans (span_empty hmissed.ge).symm
    exact ⟨h.targets, h.missed, hempty ▸ h.events, fun _ => hmissed.le, nofun, nofun, nofun,
      notDead⟩
  · have hevents : Among room ((Kernel.sysExit ctx k.maps).events.map recordLine)
        (span s.pid s.left k.missed (k.past + 1)) := by
      rw [span_succ hn hlate]
      cases he : k.maps.enters.get s.pid.toU32 with
      | none =>
        rw [Kernel.sysExit_none (htid ▸ he)]
        refine h.events.skips fun hr => ?_
        have hkept := h.kept hr hi hlate
        rw [he] at hkept
        cases hkept
      | some e =>
        have hbegun := h.late hi hlate e he
        rw [Story.entered_of_left hn] at hbegun
        obtain ⟨hnr, hargs⟩ := Prod.mk.inj (Option.some.inj hbegun)
        have hline : recordLine (Kernel.recordOf ctx k.maps e) = c.line s.pid := by
          rw [recordLine_recordOf ctx k.maps e hret, htid, ← hnr, ← hargs, Made.line]
        rw [Kernel.sysExit_some (htid ▸ he)]
        cases hres : ctx.reserved with
        | false =>
          refine h.events.skips fun hr => ?_
          rw [hroom hr] at hres
          cases hres
        | true =>
          rw [if_pos rfl, List.map_append, List.map_singleton, hline]
          exact h.events.tells _
    have htargets : Kernel.isTarget (Kernel.sysExit ctx k.maps) s.pid.toU32 = true := by
      rw [Kernel.isTarget, Kernel.sysExit_targets]
      exact h.targets
    exact ⟨htargets, h.missed, hevents, fun _ => Nat.le_succ_of_le hlate, nofun, nofun, nofun,
      notDead⟩

theorem Tracked.lives (h : Tracked room s k) (hs : k.Lives room s k') : Tracked room s k' := by
  cases hs with
  | enters ctx raw hb hd hi hn htid hraw hroom => exact h.enters hi hd hn htid hraw hroom
  | leaves ctx c hi hn hgate htid hret hroom => exact h.leaves hi hn htid hret hroom
  | dies hall =>
    exact ⟨h.targets, h.missed, h.events, h.between, h.early, h.late, h.kept, fun _ => hall⟩

/-- The insertion of the tid of a child that is held at the pipe. -/
theorem Held.arms (h : Held s k) (hroom : ¬ k.maps.targets.Full s.pid.toU32) :
    Tracked room s (k.arms s s.pid.toU32) := by
  have hnow : (k.arms s s.pid.toU32).missed = if k.inside then k.past + 1 else k.past := by
    change (if Kernel.isTarget k.maps s.pid.toU32 then _ else _) = _
    rw [h.targets]
    rfl
  have hmissed : k.past ≤ (k.arms s s.pid.toU32).missed ∧
      (k.arms s s.pid.toU32).missed ≤ k.past + 1 := by
    rw [hnow]
    split_ifs <;> omega
  have hinside (hi : k.inside = true) : (k.arms s s.pid.toU32).missed = k.past + 1 :=
    hnow.trans (if_pos hi)
  refine ⟨?_, hmissed.2.trans (Nat.succ_le_succ h.past), ?_, fun hi => ?_, fun hi _ => ?_,
    fun hi hle => ?_, fun _ hi hle => ?_, fun hdead => ?_⟩
  · change ((k.maps.targets.insert s.pid.toU32 1).get s.pid.toU32).isSome = true
    rw [BoundedMap.get_insert_self hroom]
    rfl
  · have hempty : k.maps.events.map recordLine = [] := by rw [h.events, List.map_nil]
    change Among room (k.maps.events.map recordLine) (span _ _ _ k.past)
    rw [hempty, span_empty hmissed.1]
    exact .nil
  · exact (hnow.trans (if_neg (Bool.eq_false_iff.mp hi))).le
  · exact ⟨hinside hi, h.enters⟩
  · exact absurd (hinside hi ▸ hle) (Nat.not_succ_le_self _)
  · exact absurd (hinside hi ▸ hle) (Nat.not_succ_le_self _)
  · exact absurd (h.dead.symm.trans hdead) Bool.false_ne_true

/-- No answer undoes the insertion. -/
theorem Tracked.answers (h : Tracked room s k) {c : Call} {a : c.Answer} (ha : k.Answers s c a k') :
    Tracked room s k' ∧ k'.missed = k.missed := by
  have same : Tracked room s k ∧ k.missed = k.missed := ⟨h, rfl⟩
  unfold Watched.Answers at ha
  split at ha
  · obtain ⟨-, rfl⟩ := ha
    exact ⟨⟨h.targets, h.missed, h.events, h.between, h.early, h.late, h.kept, h.dead⟩, rfl⟩
  · next tid =>
    obtain ⟨hroom, rfl⟩ := ha
    have hmissed : (k.arms s tid).missed = k.missed := if_pos h.targets
    refine ⟨⟨?_, ?_, ?_, ?_, ?_, ?_, ?_, h.dead⟩, hmissed⟩
    · change ((k.maps.targets.insert tid 1).get s.pid.toU32).isSome = true
      by_cases htid : s.pid.toU32 = tid
      · rw [htid, BoundedMap.get_insert_self hroom]
        rfl
      · rw [BoundedMap.get_insert_of_ne htid]
        exact h.targets
    · exact hmissed ▸ h.missed
    · exact hmissed ▸ h.events
    · exact hmissed ▸ h.between
    · exact hmissed ▸ h.early
    · exact hmissed ▸ h.late
    · exact hmissed ▸ h.kept
  · cases ha
    exact ⟨⟨h.targets, h.missed, h.events, h.between, h.early, h.late, h.kept, h.dead⟩, rfl⟩
  · obtain ⟨r, -, -, rfl⟩ := ha
    exact ⟨⟨h.targets, h.missed, h.events, h.between, h.early, h.late, h.kept, h.dead⟩, rfl⟩
  · exact ha.2 ▸ same
  · exact ha.2 ▸ same
  · exact ha.2 ▸ same
  · exact ha.2 ▸ same
  · exact ha ▸ same

/-- The calls that neither insert a tid nor fill the pipe. -/
def Holds : Call → Prop
  | .targetsInsert _ | .write _ _ => False
  | _ => True

theorem Held.answers (h : Held s k) {c : Call} {a : c.Answer} (hc : Holds c)
    (ha : k.Answers s c a k') : Held s k' := by
  unfold Watched.Answers at ha
  split at ha
  · obtain ⟨-, rfl⟩ := ha
    exact ⟨h.targets, h.enters, h.events, h.filled, h.past, h.taken, h.dead⟩
  · exact hc.elim
  · exact hc.elim
  · obtain ⟨r, hr, -⟩ := ha
    rw [h.events] at hr
    cases hr
  · exact ha.2 ▸ h
  · exact ha.2 ▸ h
  · exact ha.2 ▸ h
  · exact ha.2 ▸ h
  · exact ha ▸ h

theorem watchKernel_held {c : Call} {a : c.Answer} (h : watchKernel room s k c a k') (hc : Holds c)
    (hk : Held s k) : Held s k' :=
  moving_keeps h (fun _ _ hm hk => hk.lives hm) (fun _ ha hk => hk.answers hc ha) hk

theorem Call.Quiet.holds {c : Call} (h : c.Quiet) : Holds c := by
  cases c with
  | targetsInsert => exact h.2 trivial
  | write => exact h.1
  | _ => trivial

theorem ends_held {α : Type} {x : Setup α} {r : Except TraceError α} (hq : Only Call.Quiet x)
    (h : Ends (watchKernel room s) x k r k') (hk : Held s k) : Held s k' := by
  have keeps : ∀ k c a k', Holds c → watchKernel room s k c a k' → Held s k → Held s k' :=
    fun _ _ _ _ hc ha => watchKernel_held ha hc
  exact Ends.keeps_only keeps (hq.mono fun _ => Call.Quiet.holds) h hk

/-- What setting up the child leaves: its tid is inserted and nothing has been taken out of the
ring. -/
def Settled (room : Bool) (s : Story) (k : Watched) : Prop := Tracked room s k ∧ k.taken = 0

theorem Settled.lives (h : Settled room s k) (hs : k.Lives room s k') : Settled room s k' :=
  ⟨h.1.lives hs, by cases hs <;> exact h.2⟩

/-- Calls that do not read the ring leave the child settled. -/
theorem Settled.asks (h : Settled room s k) {c : Call} {a : c.Answer}
    (hc : watchKernel room s k c a k') (hring : c ≠ .ringNext) : Settled room s k' := by
  refine moving_keeps hc (fun _ _ hm hk => hk.lives hm) (fun k₁ ha hk => ?_) h
  refine ⟨(hk.1.answers ha).1, ?_⟩
  unfold Watched.Answers at ha
  split at ha
  · exact ha.2 ▸ hk.2
  · exact ha.2 ▸ hk.2
  · exact ha ▸ hk.2
  · exact absurd rfl hring
  · exact absurd rfl hring
  · exact ha.2 ▸ hk.2
  · exact ha.2 ▸ hk.2
  · exact ha.2 ▸ hk.2
  · exact ha ▸ hk.2

section Checks

variable {σ : Type} {env : Kernel σ} {st st' : σ} {what : String} {u : Unit}

theorem ends_orMissing_ok {b : Bool} (h : Ends env (orMissing what b) st (.ok u) st') :
    st' = st := by
  cases b with
  | true => exact (ends_pure.mp h).2
  | false => exact (ends_throw.mp h).2

theorem ends_orUnsupported_ok {a : Except String Unit}
    (h : Ends env (orUnsupported what a) st (.ok u) st') : a = .ok () ∧ st' = st := by
  obtain e | _ := a
  · obtain ⟨he, -⟩ := ends_throw.mp h
    cases he
  · exact ⟨rfl, (ends_pure.mp h).2⟩

end Checks

theorem arm_settled {u : Unit} (h : Ends (watchKernel room s) (arm [s.pid.toU32]) k (.ok u) k')
    (hk : Held s k) : Settled room s k' := by
  obtain ⟨_, k₁, hmap, h₁⟩ := ends_ask_bind.mp h
  obtain ⟨_, k₂, hfound, h₂⟩ := ends_ok_bind h₁
  obtain rfl := ends_orMissing_ok hfound
  obtain ⟨_, k₃, htry, h₃⟩ := ends_ask_bind.mp h₂
  obtain ⟨_, k₄, htried, h₄⟩ := ends_ok_bind h₃
  obtain ⟨-, rfl⟩ := ends_orUnsupported_ok htried
  obtain ⟨a, k₅, hinsert, h₅⟩ := ends_ask_bind.mp h₄
  obtain ⟨_, k₆, hinserted, h₆⟩ := ends_ok_bind h₅
  obtain ⟨rfl, rfl⟩ := ends_orUnsupported_ok hinserted
  obtain ⟨-, rfl⟩ := ends_pure.mp h₆
  have hheld := watchKernel_held htry trivial (watchKernel_held hmap trivial hk)
  obtain ⟨k₇, hmoved, hroom, rfl⟩ := hinsert
  have hheld' := moved_keeps hmoved (fun _ _ hm hp => Held.lives hp hm) hheld
  exact ⟨hheld'.arms hroom, hheld'.taken⟩

theorem release_settled {t t' : EbpfTracer} {readFd writeFd : Int32}
    (h : Ends (watchKernel room s) (release t s.pid readFd writeFd) k (.ok t') k') (hk : Held s k) :
    Settled room s k' := by
  obtain ⟨_, k₁, hclose, h₁⟩ := ends_ask_bind.mp h
  obtain ⟨armed, k₂, hcaught, h₂⟩ := ends_ok_bind h₁
  obtain ⟨_, k₃, hwrite, h₃⟩ := ends_ask_bind.mp h₂
  obtain ⟨_, k₄, hclosed, h₄⟩ := ends_ask_bind.mp h₃
  obtain ⟨_, k₅, ⟨he, rfl⟩, h₅⟩ := ends_ok_bind h₄
  obtain ⟨-, rfl⟩ := ends_pure.mp h₅
  obtain ⟨_, harm, hq⟩ := ends_caught.mp hcaught
  cases hq
  cases he
  have hsettled := arm_settled harm (watchKernel_held hclose trivial hk)
  exact (hsettled.asks hwrite nofun).asks hclosed nofun

/-- A tracer built for the story has the tid of its child inserted before the child comes out of
its read. -/
theorem new_settled {table : List SyscallInfo} {t : EbpfTracer} (hu : k.Unborn s)
    (h : Ends (watchKernel room s) (new table (.spawn s.program s.args) ⟨false⟩) k (.ok t) k') :
    Settled room s k' := by
  obtain ⟨t₀, k₁, hload, h₁⟩ := ends_ok_bind h
  have hheld₁ := ends_held (quiet_load table ⟨false⟩) hload (held_of_unborn hu)
  obtain ⟨_, k₂, hresolve, h₂⟩ := ends_ok_bind h₁
  have hheld₂ := ends_held (quiet_resolveProgram _) hresolve hheld₁
  obtain ⟨_, _, ⟨-, rfl⟩, h₃⟩ := ends_ok_bind h₂
  obtain ⟨_, _, ⟨-, rfl⟩, h₄⟩ := ends_ok_bind h₃
  obtain ⟨piped, k₃, hpipe, h₅⟩ := ends_ask_bind.mp h₄
  have hheld₃ := watchKernel_held hpipe trivial hheld₂
  obtain e | ⟨readFd, writeFd⟩ := piped
  · obtain ⟨he, -⟩ := ends_throw.mp h₅
    cases he
  · obtain ⟨forked, k₄, hfork, h₆⟩ := ends_ask_bind.mp h₅
    have hheld₄ := watchKernel_held hfork trivial hheld₃
    obtain e | child := forked
    · obtain ⟨he, -⟩ := ends_throw_bind.mp h₆
      cases he
    · obtain ⟨k₅, -, rfl, -⟩ := hfork
      have hrelease : Ends (watchKernel room s) (release t₀ s.pid readFd writeFd) k₄ (.ok t) k' :=
        h₆
      exact release_settled hrelease hheld₄

/-- The ring as the machine has it, for the account that is kept of every ring. -/
structure Rings (k : Watched) (u : Ring) : Prop where
  taken : u.taken = (k.maps.events.take k.taken).map Record.toBytes
  waiting : u.waiting = (k.maps.events.drop k.taken).map Record.toBytes
  within : k.taken ≤ k.maps.events.length
  gone : u.gone ≠ [] → k.dead = true

variable {u : Ring}

theorem Rings.same (h : Rings k u) (hevents : k'.maps.events = k.maps.events)
    (htaken : k'.taken = k.taken) (hdead : k.dead = true → k'.dead = true) : Rings k' u := by
  refine ⟨?_, ?_, ?_, hdead ∘ h.gone⟩
  · rw [hevents, htaken, h.taken]
  · rw [hevents, htaken, h.waiting]
  · rw [hevents, htaken]
    exact h.within

theorem sysEnter_events (ctx : Kernel.EnterCtx) (m : Kernel.Maps) :
    (Kernel.sysEnter ctx m).events = m.events := by
  cases htarget : Kernel.isTarget m ctx.pidTgid.toUInt32 with
  | false => rw [Kernel.sysEnter_other htarget]
  | true =>
    cases hraw : ctx.raw with
    | error e => rw [Kernel.sysEnter_unread hraw]
    | ok raw => rw [Kernel.sysEnter_target hraw htarget]

theorem sysExit_events (ctx : Kernel.ExitCtx) (m : Kernel.Maps) :
    (Kernel.sysExit ctx m).events = m.events ∨
      ∃ r, (Kernel.sysExit ctx m).events = m.events ++ [r] := by
  cases henter : m.enters.get ctx.pidTgid.toUInt32 with
  | none => exact .inl (by rw [Kernel.sysExit_none henter])
  | some e =>
    rw [Kernel.sysExit_some henter]
    cases ctx.reserved with
    | false => exact .inl rfl
    | true => exact .inr ⟨_, rfl⟩

/-- What the child does pushes at most one item to the ring. -/
theorem Rings.lives (h : Rings k u) (hs : k.Lives room s k') :
    ∃ u', ReflTransGen Ring.Pushes u u' ∧ Rings k' u' := by
  cases hs with
  | enters ctx => exact ⟨u, .refl, h.same (sysEnter_events ctx k.maps) rfl id⟩
  | dies => exact ⟨u, .refl, h.same rfl rfl fun _ => rfl⟩
  | leaves ctx =>
    rcases sysExit_events ctx k.maps with hsame | ⟨r, hpush⟩
    · exact ⟨u, .refl, h.same hsame rfl id⟩
    · refine ⟨_, .single (.push u r.toBytes), ?_, ?_, ?_, h.gone⟩
      · change u.taken = (((Kernel.sysExit ctx k.maps).events.take k.taken).map _)
        rw [hpush, List.take_append_of_le_length h.within, h.taken]
      · change u.waiting ++ [r.toBytes] = ((Kernel.sysExit ctx k.maps).events.drop k.taken).map _
        rw [hpush, List.drop_append_of_le_length h.within, h.waiting, List.map_append,
          List.map_singleton]
      · change k.taken ≤ (Kernel.sysExit ctx k.maps).events.length
        rw [hpush, List.length_append]
        exact Nat.le_add_right_of_le h.within

theorem Rings.answers (h : Rings k u) {c : Call} {a : c.Answer} (ha : k.Answers s c a k') :
    ∃ u', Ring.Answers u c a u' ∧ Rings k' u' := by
  cases c with
  | ringNext =>
    cases a with
    | none =>
      obtain ⟨hend, rfl⟩ := ha
      refine ⟨u, ⟨?_, rfl⟩, h⟩
      rw [h.waiting, List.drop_eq_nil_of_le hend]
      rfl
    | some item =>
      obtain ⟨r, hr, rfl, rfl⟩ := ha
      obtain ⟨hlt, rfl⟩ := List.getElem?_eq_some_iff.mp hr
      refine ⟨_, ⟨(k.maps.events.drop (k.taken + 1)).map Record.toBytes, ?_, rfl⟩, ?_, rfl, hlt,
        h.gone⟩
      · rw [h.waiting, List.drop_eq_getElem_cons hlt, List.map_cons]
      · dsimp only
        rw [List.take_succ_eq_append_getElem hlt, List.map_append, h.taken, List.map_singleton]
  | waitNohang child =>
    obtain e | st := a
    · obtain ⟨hdead, rfl⟩ := ha
      exact ⟨_, rfl, h.taken, h.waiting, h.within, fun _ => hdead⟩
    · obtain ⟨hdead, rfl⟩ := ha
      refine ⟨_, rfl, ?_⟩
      split_ifs with hst
      · exact ⟨h.taken, h.waiting, h.within, fun _ => hdead hst⟩
      · exact ⟨h.taken, h.waiting, h.within, fun hne => absurd rfl hne⟩
  | kill pid sig =>
    obtain e | _ := a
    · obtain ⟨hdead, rfl⟩ := ha
      refine ⟨_, rfl, ?_⟩
      split_ifs with he
      · exact ⟨h.taken, h.waiting, h.within, fun hne => absurd rfl hne⟩
      · exact ⟨h.taken, h.waiting, h.within, fun _ => hdead he⟩
    · cases ha
      exact ⟨_, rfl, h.taken, h.waiting, h.within, fun hne => absurd rfl hne⟩
  | fork | targetsInsert =>
    obtain e | _ := a
    · cases ha
      exact ⟨u, rfl, h⟩
    · obtain ⟨-, rfl⟩ := ha
      exact ⟨u, rfl, h.same rfl rfl id⟩
  | write =>
    cases ha
    exact ⟨u, rfl, h.same rfl rfl id⟩
  | _ =>
    cases ha
    exact ⟨u, rfl, h⟩

theorem watchKernel_rings : Simulates Rings (watchKernel room s) ringKernel :=
  Simulates.moving (fun _ _ _ h hs => h.lives hs) fun _ _ _ _ _ h ha => h.answers ha

/-- The tracer and the machine, as the account of the ring sees them. -/
def Seen (a : EbpfTracer × Watched) (b : EbpfTracer × Ring) : Prop := a.1 = b.1 ∧ Rings a.2 b.2

theorem passStep_seen (s : Story) (a : EbpfTracer × Watched) (b : EbpfTracer × Ring) (o : Outcome)
    (a' : EbpfTracer × Watched) (h : Seen a b) (hs : passStep (watchKernel room s) a o a') :
    ∃ b', passStep ringKernel b o b' ∧ Seen a' b' := by
  obtain ⟨fuel, hrun⟩ := hs
  obtain ⟨u', hring, hrings⟩ := watchKernel_rings.runs h.2 hrun
  exact ⟨(a'.1, u'), ⟨fuel, h.1 ▸ hring⟩, rfl, hrings⟩

theorem passStep_tracked {a a' : EbpfTracer × Watched} {o : Outcome} {n : ℕ}
    (h : Tracked room s a.2 ∧ a.2.missed = n) (hs : passStep (watchKernel room s) a o a') :
    Tracked room s a'.2 ∧ a'.2.missed = n := by
  obtain ⟨fuel, hrun⟩ := hs
  have keeps : ∀ k c a k', watchKernel room s k c a k' → (Tracked room s k ∧ k.missed = n) →
      Tracked room s k' ∧ k'.missed = n := by
    intro k c a k' hc hk
    refine moving_keeps (P := fun k => Tracked room s k ∧ k.missed = n) hc ?_ ?_ hk
    · rintro k₁ k₂ hm ⟨ht, hn⟩
      exact ⟨ht.lives hm, by cases hm <;> exact hn⟩
    · rintro k₁ ha ⟨ht, hn⟩
      obtain ⟨ht', hsame⟩ := ht.answers ha
      exact ⟨ht', hsame.trans hn⟩
  exact Program.Exec.keeps (P := fun k => Tracked room s k ∧ k.missed = n) keeps hrun h

theorem lines_handed (steps : List (Outcome × (EbpfTracer × Ring))) :
    lines steps = (handed steps).filterMap fun entry => lineOf entry.1 := by
  rw [handed, List.filterMap_filterMap, lines]
  congr 1
  funext x
  obtain ⟨_ | _ | _ | ev, t, k⟩ := x
  · rfl
  · rfl
  · rfl
  · cases ev <;> rfl

theorem lines_toldAll (t : EbpfTracer) (records : List Record) :
    ((toldAll t (records.map Record.toBytes)).filterMap fun entry => lineOf entry.1) =
      records.map recordLine := by
  rw [toldAll, recordsOf_toBytes, List.filterMap_map]
  exact congrFun List.filterMap_eq_map records

theorem lines_exitOf (t : EbpfTracer) (code : Int32) :
    ((exitOf t code).filterMap fun entry => lineOf entry.1) = [] := by
  unfold exitOf
  cases t.leader <;> rfl

/-- A tracer of the eBPF backend on the story, from its construction to the end of its events. -/
structure Telling (room : Bool) (s : Story) where
  table : List SyscallInfo
  before : Watched
  tracer : EbpfTracer
  after : Watched
  steps : List (Outcome × (EbpfTracer × Watched))
  last : EbpfTracer × Watched
  starts : before.Unborn s
  constructs : Ends (watchKernel room s) (new table (.spawn s.program s.args) ⟨false⟩) before
    (.ok tracer) after
  passes : IsRun (passStep (watchKernel room s)) (tracer, after)
    (steps ++ [(.ok (some none), last)])

theorem Rings.pushed (h : Rings k u) : u.pushed = k.maps.events.map Record.toBytes := by
  rw [Ring.pushed, h.taken, h.waiting, ← List.map_append, List.take_append_drop]

/-- At the end every record pushed has been returned, and the child is dead. -/
theorem Telling.returned (e : Telling room s) :
    lines e.steps = e.last.2.maps.events.map recordLine ∧ e.last.2.dead = true := by
  have hzero := (new_settled e.starts e.constructs).2
  let u : Ring := ⟨[], e.after.maps.events.map Record.toBytes, [], []⟩
  have hrings : Rings e.after u :=
    ⟨by simp [hzero, u], by simp [hzero, u], hzero ▸ Nat.zero_le _, fun hne => absurd rfl hne⟩
  have hstart : Seen (e.tracer, e.after) (e.tracer, u) := ⟨rfl, hrings⟩
  obtain ⟨l, hl, hlabels, hseen⟩ := e.passes.simulated (passStep_seen s) hstart
  have hlines : lines e.steps = lines l := by
    rw [lines_eq_of_labels hlabels, lines_concat]
    exact (List.append_nil _).symm
  rw [List.map_append, List.map_singleton] at hlabels
  obtain ⟨m, n, rfl, -, hn⟩ := List.map_eq_append_iff.mp hlabels
  obtain ⟨x, rfl, hx⟩ := List.map_eq_singleton_iff.mp hn
  rw [lastState_concat, lastState_concat] at hseen
  obtain ⟨hfound, -, -, l', m', code, hpushed, -, hhanded⟩ :=
    returned_all ⟨new_blank e.constructs, rfl, rfl, rfl⟩ hl hx
  refine ⟨?_, hseen.2.gone ?_⟩
  · rw [hlines, lines_handed, hhanded, List.filterMap_append, List.filterMap_append, lines_exitOf,
      List.append_nil, ← List.filterMap_append, ← toldAll_append, ← hpushed, hseen.2.pushed,
      lines_toldAll]
  · obtain ⟨pid, hp⟩ := List.exists_mem_of_ne_nil _ hfound.1
    exact List.ne_nil_of_mem (hfound.2 pid hp)

/-- The syscalls reported are calls that the child entered once its tid was inserted, in order and
with their results, and all of these where there is room. -/
theorem Telling.lines_among (e : Telling room s) :
    Among room (lines e.steps) ((s.left.drop e.after.missed).map (Made.line s.pid)) ∧
      e.after.missed ≤ s.opening.length + 1 := by
  have hsettled := (new_settled e.starts e.constructs).1
  have htracked : Tracked room s e.last.2 ∧ e.last.2.missed = e.after.missed := by
    have hinv := e.passes.invariant (P := fun a => Tracked room s a.2 ∧ a.2.missed = e.after.missed)
      ⟨hsettled, rfl⟩ fun _ _ _ h hs => passStep_tracked h hs
    rwa [lastState_concat] at hinv
  obtain ⟨ht, hmissed⟩ := htracked
  obtain ⟨hlines, hdead⟩ := e.returned
  refine ⟨?_, hsettled.missed⟩
  have hevents := ht.events
  rwa [← hlines, ht.dead hdead, span_length, hmissed] at hevents

theorem Telling.lines_eq (e : Telling true s) :
    lines e.steps = (s.left.drop e.after.missed).map (Made.line s.pid) ∧
      e.after.missed ≤ s.opening.length + 1 :=
  ⟨e.lines_among.1.all rfl, e.lines_among.2⟩

/-- What is in the ring can be taken out of it at once. -/
theorem drains_rest {rest : List Record} (h : k.maps.events.drop k.taken = rest) :
    Drains (watchKernel room s) (rest.length + 1) k (rest.map Record.toBytes)
      { k with taken := k.taken + rest.length } := by
  induction rest generalizing k with
  | nil => exact .empty ⟨k, .refl, List.drop_eq_nil_iff.mp h, rfl⟩
  | cons r rest ih =>
    have hr : k.maps.events[k.taken]? = some r := by
      have hget : (k.maps.events.drop k.taken)[0]? = _ := List.getElem?_drop
      rwa [h, Nat.add_zero, List.getElem?_cons_zero, eq_comm] at hget
    have hrest : k.maps.events.drop (k.taken + 1) = rest := by
      rw [← List.tail_drop, h, List.tail_cons]
    have htaken : k.taken + (r :: rest).length = k.taken + 1 + rest.length := by
      rw [List.length_cons]
      omega
    rw [htaken]
    exact .item ⟨k, .refl, r, hr, rfl, rfl⟩ (ih (k := { k with taken := k.taken + 1 }) hrest)

theorem drains_after {fuel : ℕ} {items : List (List UInt8)} {k₁ : Watched}
    (hl : ReflTransGen (Watched.Lives room s) k k₁)
    (h : Drains (watchKernel room s) fuel k₁ items k') :
    Drains (watchKernel room s) fuel k items k' := by
  cases h with
  | empty ha =>
    obtain ⟨k₂, hmoved, ha⟩ := ha
    exact .empty ⟨k₂, hl.trans hmoved, ha⟩
  | item ha hi =>
    obtain ⟨k₂, hmoved, ha⟩ := ha
    exact .item ⟨k₂, hl.trans hmoved, ha⟩ hi

/-- An empty ring leaves everything as it is. -/
theorem drains_none (h : k.maps.events.length ≤ k.taken) : Drains (watchKernel room s) 1 k [] k :=
  .empty ⟨k, .refl, h, rfl⟩

theorem passStep_pops {event : Event} {cap : Option Capture}
    {queue : List (Event × Option Capture)} (hq : t.queue = (event, cap) :: queue) :
    passStep (watchKernel room s) (t, k) (.ok (some (some event)))
      ({ t with queue := queue, current := cap }, k) :=
  passStep_iff.mpr ⟨0, .pops hq⟩

/-- The passes that can follow come to `None`. -/
def ComesToEnd (room : Bool) (s : Story) (t : EbpfTracer) (k : Watched) : Prop :=
  ∃ steps last, IsRun (passStep (watchKernel room s)) (t, k)
    (steps ++ [(.ok (some none), last)])

theorem ComesToEnd.after {t' : EbpfTracer} {o : Outcome} (h : ComesToEnd room s t' k')
    (hpass : passStep (watchKernel room s) (t, k) o (t', k')) : ComesToEnd room s t k := by
  obtain ⟨steps, last, hrun⟩ := h
  exact ⟨(o, (t', k')) :: steps, last, hpass, hrun⟩

/-- What is in the queue is returned first. -/
theorem comes_to_end_of_empty (h : ∀ t' : EbpfTracer, t'.queue = [] → t'.finished = t.finished →
    t'.child = t.child → ComesToEnd room s t' k) : ComesToEnd room s t k := by
  generalize hq : t.queue = queue
  induction queue generalizing t with
  | nil => exact h t hq rfl rfl
  | cons entry queue ih =>
    obtain ⟨event, cap⟩ := entry
    exact (ih (t := { t with queue := queue, current := cap }) h rfl).after (passStep_pops hq)

/-- A tracer that has found its target dead returns what is in its queue and then `None`. -/
theorem finishes (hall : k.maps.events.length ≤ k.taken) (hf : t.finished = true) :
    ComesToEnd room s t k := by
  refine comes_to_end_of_empty fun t' hq hf' _ => ?_
  have hpass : Pass (watchKernel room s) 1 t' k (.ok (some none)) t' k :=
    .ends hq (drains_none hall) takes_nil (hf'.trans hf)
  exact ⟨[], (t', k), passStep_iff.mpr ⟨1, hpass⟩, trivial⟩

/-- A tracer of a dead child finds it dead once the queue is empty. -/
theorem comes_to_end {child : Pid} (hall : k.maps.events.length ≤ k.taken) (hd : k.dead = true)
    (hc : t.child = some child) : ComesToEnd room s t k := by
  refine comes_to_end_of_empty fun t' hq _ hc' => ?_
  cases hf : t'.finished with
  | true => exact finishes hall hf
  | false =>
    have hdrain : Drains (watchKernel room s) 1 k [] k := drains_none hall
    have hwait : watchKernel room s k (.waitNohang child) (.ok (.exited child 0)) k :=
      ⟨k, .refl, fun _ => hd, rfl⟩
    have hpass := Pass.finishes hq hdrain takes_nil hf (.dead (hc'.trans hc) hwait rfl hdrain)
    have hfound : ComesToEnd room s ((t'.takes []).finds 0) k := finishes hall rfl
    exact hfound.after (passStep_iff.mpr ⟨1, hpass⟩)

/-- A child that lives to its end and leaves records in the ring is told of to the end. -/
theorem tells {child : Pid} (hlives : ReflTransGen (Watched.Lives room s) k k')
    (hlt : k'.taken < k'.maps.events.length) (hd : k'.dead = true) (hc : t.child = some child)
    (hq : t.queue = []) : ComesToEnd room s t k := by
  generalize hrest : k'.maps.events.drop k'.taken = rest
  have hlen : rest.length = k'.maps.events.length - k'.taken := by
    rw [← hrest, List.length_drop]
  have hdrain : Drains (watchKernel room s) (rest.length + 1) k (rest.map Record.toBytes)
      { k' with taken := k'.taken + rest.length } := drains_after hlives (drains_rest hrest)
  have hmore : (t.takes (rest.map Record.toBytes)).queue ≠ [] := by
    have hqueue : (t.takes (rest.map Record.toBytes)).queue = rest.map (told t.baselineNs) := by
      rw [takes, hq, List.nil_append, filterMap_queued, toldAll, recordsOf_toBytes]
    have hne : rest ≠ [] := List.ne_nil_of_length_pos (by omega)
    rwa [hqueue, ne_eq, List.map_eq_nil_iff]
  have hall : k'.maps.events.length ≤ k'.taken + rest.length := by omega
  have hend : ComesToEnd room s (t.takes (rest.map Record.toBytes))
      { k' with taken := k'.taken + rest.length } := comes_to_end hall hd hc
  exact hend.after (passStep_iff.mpr ⟨rest.length + 1, .fills hq hdrain hmore⟩)

end EbpfTracer
end Syren
