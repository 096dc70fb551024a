import Mathlib.Logic.Relation
import Syren.Trace.Calls

/-! The children that a tracer forks before they trace anything: what each still has to do, the
pipe it may wait at, and the programs they execute. -/
namespace Syren
open Interaction Function Relation

structure Children where
  /-- What each child was forked to do, the newest child first. -/
  forks : List (Pid × List ChildOp)
  /-- What a child still has to do. -/
  left : Pid → List ChildOp
  executed : List (Pid × CString)
  /-- The read and the write ends of the pipes. -/
  pipes : List (Int32 × Int32)
  /-- The read ends to which a byte was written. -/
  filled : List Int32
  notices : List String
  /-- The calls on the maps of the BPF object that failed. -/
  refused : List Call

namespace Children

def none : Children := ⟨[], fun _ => [], [], [], [], [], []⟩

def goesOn (k : Children) (p : Pid) (ops : List ChildOp) : Children :=
  { k with left := update k.left p ops }

def executes (k : Children) (p : Pid) (c : CString) : Children :=
  { k with left := update k.left p [], executed := (p, c) :: k.executed }

def forked (k : Children) (p : Pid) (ops : List ChildOp) : Children :=
  { k with forks := (p, ops) :: k.forks, left := update k.left p ops }

def opens (k : Children) (ends : Int32 × Int32) : Children := { k with pipes := ends :: k.pipes }

def fills (k : Children) (fd : Int32) : Children :=
  { k with filled := (k.pipes.filter (·.2 = fd)).map Prod.fst ++ k.filled }

def prints (k : Children) (message : String) : Children :=
  { k with notices := message :: k.notices }

def refuses (k : Children) (c : Call) : Children := { k with refused := c :: k.refused }

end Children

/-- One step of the child `p`, if it can make one. Every child holds the write end of the pipe as
well, so its read returns for a byte and never for the end of the file. -/
def advance (runnable : OsBytes → Bool) (k : Children) (p : Pid) : Option Children :=
  match k.left p with
  | [] => none
  | .readPipe fd :: ops => if fd ∈ k.filled then some (k.goesOn p ops) else none
  | .traceme :: ops => some (k.goesOn p ops)
  | .execvp c _ :: ops => some (if runnable c.bytes then k.executes p c else k.goesOn p ops)
  | .exit _ :: _ => some (k.goesOn p [])

def Advances (runnable : OsBytes → Bool) (k k' : Children) : Prop :=
  ∃ p, advance runnable k p = some k'

/-- The children move on for some time. -/
abbrev Later (runnable : OsBytes → Bool) : Children → Children → Prop :=
  ReflTransGen (Advances runnable)

/-- The answers to the calls of the parent. A child is seen stopped at the program it executed, or
dead when it has nothing left to do. -/
def Children.Answers : Children → (c : Call) → c.Answer → Children → Prop
  | k, .fork ops, .ok p, k' => (∀ q ∈ k.forks, q.1 ≠ p) ∧ k' = k.forked p ops
  | k, .waitpid p, .ok st, k' =>
      ((st.stop = some p ∧ ∃ c, (p, c) ∈ k.executed) ∨ (st.death = some p ∧ k.left p = [])) ∧
        k' = k
  | k, .pipe2, .ok ends, k' => k' = k.opens ends
  | k, .write fd bytes, (), k' => k' = if bytes = [] then k else k.fills fd
  | k, .eprintln message, (), k' => k' = k.prints message
  | k, .mapMut name, false, k' => k' = k.refuses (.mapMut name)
  | k, .mapTryFrom name, .error _, k' => k' = k.refuses (.mapTryFrom name)
  | k, .targetsInsert tid, .error _, k' => k' = k.refuses (.targetsInsert tid)
  | k, _, _, k' => k' = k

/-- The children move on before each answer. -/
def childKernel (runnable : OsBytes → Bool) : Kernel Children :=
  moving (Advances runnable) Children.Answers

variable {runnable : OsBytes → Bool} {k k' : Children} {p : Pid}

/-- A child goes on with fewer things to do, or executes its program and is the tracer's no more. -/
theorem advance_cases (h : advance runnable k p = some k') :
    (∃ op ops ops', k.left p = op :: ops ∧ ops' ⊆ ops ∧ k' = k.goesOn p ops') ∨
    ∃ c argv ops, k.left p = .execvp c argv :: ops ∧ runnable c.bytes ∧ k' = k.executes p c := by
  unfold advance at h
  split at h
  · cases h
  · next fd ops hl =>
    split_ifs at h
    exact .inl ⟨_, ops, ops, hl, List.Subset.refl _, (Option.some.inj h).symm⟩
  · next ops hl => exact .inl ⟨_, ops, ops, hl, List.Subset.refl _, (Option.some.inj h).symm⟩
  · next c argv ops hl =>
    split_ifs at h with hr
    · exact .inr ⟨c, argv, ops, hl, hr, (Option.some.inj h).symm⟩
    · exact .inl ⟨_, ops, ops, hl, List.Subset.refl _, (Option.some.inj h).symm⟩
  · next code ops hl => exact .inl ⟨_, ops, [], hl, by simp, (Option.some.inj h).symm⟩

/-- Only a fork changes what the children are and what they do. -/
theorem answers_cases {c : Call} {r : c.Answer} (h : k.Answers c r k') :
    (k'.forks = k.forks ∧ k'.left = k.left ∧ k'.executed = k.executed) ∨
    ∃ ops p, c = .fork ops ∧ (∀ q ∈ k.forks, q.1 ≠ p) ∧ k' = k.forked p ops := by
  unfold Children.Answers at h
  split at h
  · exact .inr ⟨_, _, rfl, h⟩
  · obtain ⟨-, rfl⟩ := h
    exact .inl ⟨rfl, rfl, rfl⟩
  · exact .inl (h ▸ ⟨rfl, rfl, rfl⟩)
  · rw [h]
    split_ifs <;> exact .inl ⟨rfl, rfl, rfl⟩
  · exact .inl (h ▸ ⟨rfl, rfl, rfl⟩)
  · exact .inl (h ▸ ⟨rfl, rfl, rfl⟩)
  · exact .inl (h ▸ ⟨rfl, rfl, rfl⟩)
  · exact .inl (h ▸ ⟨rfl, rfl, rfl⟩)
  · exact .inl (h ▸ ⟨rfl, rfl, rfl⟩)

namespace Children

/-- A child executes at most one program: one that is there and that it was forked to execute. -/
structure Sane (runnable : OsBytes → Bool) (k : Children) : Prop where
  distinct : (k.forks.map Prod.fst).Nodup
  assigned : ∀ p, k.left p ≠ [] → ∃ ops, (p, ops) ∈ k.forks ∧ k.left p ⊆ ops
  finished : ∀ p c, (p, c) ∈ k.executed → k.left p = []
  able : ∀ p c, (p, c) ∈ k.executed → runnable c.bytes ∧
    ∃ ops argv, (p, ops) ∈ k.forks ∧ ChildOp.execvp c argv ∈ ops
  once : (k.executed.map Prod.fst).Nodup

theorem sane_none : none.Sane runnable where
  distinct := List.nodup_nil
  assigned := fun _ h => absurd rfl h
  finished := fun _ _ h => by cases h
  able := fun _ _ h => by cases h
  once := List.nodup_nil

theorem Sane.congr (h : k.Sane runnable) (hf : k'.forks = k.forks) (hl : k'.left = k.left)
    (he : k'.executed = k.executed) : k'.Sane runnable := by
  obtain ⟨distinct, assigned, finished, able, once⟩ := h
  rw [← hf] at distinct assigned able
  rw [← hl] at assigned finished
  rw [← he] at finished able once
  exact ⟨distinct, assigned, finished, able, once⟩

theorem Sane.goesOn {op : ChildOp} {ops ops' : List ChildOp} (h : k.Sane runnable)
    (hl : k.left p = op :: ops) (hs : ops' ⊆ ops) : (k.goesOn p ops').Sane runnable := by
  refine ⟨h.distinct, fun q hq => ?_, fun q c hq => ?_, h.able, h.once⟩
  · by_cases hqp : q = p
    · subst hqp
      obtain ⟨all, hm, hsub⟩ := h.assigned q (by simp [hl])
      rw [hl] at hsub
      refine ⟨all, hm, ?_⟩
      simp only [Children.goesOn, update_self]
      exact fun o ho => hsub (List.mem_cons_of_mem _ (hs ho))
    · simp only [Children.goesOn, update_of_ne hqp] at hq ⊢
      exact h.assigned q hq
  · have hqp : q ≠ p := by
      rintro rfl
      have hfin := h.finished q c hq
      rw [hl] at hfin
      cases hfin
    simp only [Children.goesOn, update_of_ne hqp]
    exact h.finished q c hq

theorem Sane.executes {c : CString} {argv : List CString} {ops : List ChildOp}
    (h : k.Sane runnable) (hl : k.left p = .execvp c argv :: ops) (hr : runnable c.bytes) :
    (k.executes p c).Sane runnable := by
  have hnew : ∀ d, (p, d) ∉ k.executed := by
    intro d hd
    have hfin := h.finished p d hd
    rw [hl] at hfin
    cases hfin
  refine ⟨h.distinct, fun q hq => ?_, fun q d hq => ?_, fun q d hq => ?_, ?_⟩
  · by_cases hqp : q = p
    · simp [Children.executes, hqp] at hq
    · simp only [Children.executes, update_of_ne hqp] at hq ⊢
      exact h.assigned q hq
  · by_cases hqp : q = p
    · simp [Children.executes, hqp]
    · simp only [Children.executes, update_of_ne hqp]
      apply h.finished q d
      simpa [Children.executes, hqp] using hq
  · rcases List.mem_cons.mp hq with he | hq
    · cases he
      obtain ⟨all, hm, hsub⟩ := h.assigned p (by simp [hl])
      exact ⟨hr, all, argv, hm, hsub (by simp [hl])⟩
    · exact h.able q d hq
  · refine List.nodup_cons.mpr ⟨fun hm => ?_, h.once⟩
    obtain ⟨⟨q, d⟩, hq, rfl⟩ := List.mem_map.mp hm
    exact hnew d hq

theorem Sane.advances (h : k.Sane runnable) (ha : Advances runnable k k') :
    k'.Sane runnable := by
  obtain ⟨p, ha⟩ := ha
  rcases advance_cases ha with ⟨op, ops, ops', hl, hs, rfl⟩ | ⟨c, argv, ops, hl, hr, rfl⟩
  · exact h.goesOn hl hs
  · exact h.executes hl hr

theorem Sane.later (h : k.Sane runnable) (hl : Later runnable k k') : k'.Sane runnable :=
  moved_keeps hl (fun _ _ ha hk => hk.advances ha) h

theorem Sane.forked {ops : List ChildOp} (h : k.Sane runnable) (hp : ∀ q ∈ k.forks, q.1 ≠ p) :
    (k.forked p ops).Sane runnable := by
  have hne : ∀ q c, (q, c) ∈ k.executed → q ≠ p := by
    intro q c hq
    obtain ⟨-, all, -, hm, -⟩ := h.able q c hq
    exact hp _ hm
  refine ⟨?_, fun q hq => ?_, fun q c hq => ?_, fun q c hq => ?_, h.once⟩
  · refine List.nodup_cons.mpr ⟨fun hm => ?_, h.distinct⟩
    obtain ⟨q, hq, he⟩ := List.mem_map.mp hm
    exact hp q hq he
  · by_cases hqp : q = p
    · subst hqp
      exact ⟨ops, List.mem_cons_self .., by simp [Children.forked]⟩
    · simp only [Children.forked, update_of_ne hqp] at hq ⊢
      obtain ⟨all, hm, hsub⟩ := h.assigned q hq
      exact ⟨all, List.mem_cons_of_mem _ hm, hsub⟩
  · simp only [Children.forked, update_of_ne (hne q c hq)]
    exact h.finished q c hq
  · obtain ⟨hr, all, argv, hm, he⟩ := h.able q c hq
    exact ⟨hr, all, argv, List.mem_cons_of_mem _ hm, he⟩

theorem Sane.childKernel {c : Call} {r : c.Answer} (h : k.Sane runnable)
    (hk : childKernel runnable k c r k') : k'.Sane runnable := by
  refine moving_keeps hk (fun _ _ ha hs => hs.advances ha) (fun k₁ ha hs => ?_) h
  rcases answers_cases ha with ⟨hf, hl, he⟩ | ⟨ops, p, -, hp, rfl⟩
  · exact hs.congr hf hl he
  · exact hs.forked hp

/-- No more programs are executed than children were forked. -/
theorem Sane.executed_le (h : k.Sane runnable) : k.executed.length ≤ k.forks.length := by
  have hsub : k.executed.map Prod.fst ⊆ k.forks.map Prod.fst := by
    intro q hq
    obtain ⟨⟨p, c⟩, hm, rfl⟩ := List.mem_map.mp hq
    obtain ⟨-, ops, -, hf, -⟩ := h.able p c hm
    exact List.mem_map.mpr ⟨_, hf, rfl⟩
  have hle := (h.once.subperm hsub).length_le
  simpa using hle

end Children

/-- The calls that neither make a child nor let one go, nor print anything. -/
def Call.Calm : Call → Prop
  | .fork _ | .pipe2 | .write _ _ | .eprintln _ => False
  | _ => True

/-- The calls on the map that tells the in-kernel programs whom to trace. -/
def Call.Arms : Call → Prop
  | .mapMut name | .mapTryFrom name => name = "TARGETS"
  | .targetsInsert _ => True
  | _ => False

/-- A step of arming the in-kernel programs has failed. -/
def ArmRefused (k : Children) : Prop := ∃ c ∈ k.refused, c.Arms

/-- What calm calls leave alone. -/
structure Frame (k k' : Children) : Prop where
  forks : k'.forks = k.forks
  pipes : k'.pipes = k.pipes
  filled : k'.filled = k.filled
  notices : k'.notices = k.notices

theorem Frame.refl (k : Children) : Frame k k := ⟨rfl, rfl, rfl, rfl⟩

theorem Frame.trans {k₁ : Children} (h : Frame k k₁) (h' : Frame k₁ k') : Frame k k' :=
  ⟨h'.forks.trans h.forks, h'.pipes.trans h.pipes, h'.filled.trans h.filled,
    h'.notices.trans h.notices⟩

theorem advances_frame (h : Advances runnable k k') : Frame k k' ∧ k'.refused = k.refused := by
  obtain ⟨p, h⟩ := h
  rcases advance_cases h with ⟨op, ops, ops', -, -, rfl⟩ | ⟨c, argv, ops, -, -, rfl⟩
  · exact ⟨⟨rfl, rfl, rfl, rfl⟩, rfl⟩
  · exact ⟨⟨rfl, rfl, rfl, rfl⟩, rfl⟩

theorem later_frame (h : Later runnable k k') : Frame k k' ∧ k'.refused = k.refused := by
  refine moved_keeps (P := fun k₁ => Frame k k₁ ∧ k₁.refused = k.refused) h (fun k₁ k₂ ha hf => ?_)
    ⟨.refl k, rfl⟩
  obtain ⟨hf', hr'⟩ := advances_frame ha
  exact ⟨hf.1.trans hf', hr'.trans hf.2⟩

theorem answers_frame {c : Call} {r : c.Answer} (h : k.Answers c r k') (hc : c.Calm) :
    Frame k k' ∧ (¬ c.Arms → (ArmRefused k' ↔ ArmRefused k)) := by
  have same : Frame k k ∧ (¬ c.Arms → (ArmRefused k ↔ ArmRefused k)) :=
    ⟨.refl k, fun _ => Iff.rfl⟩
  have refuses : Frame k (k.refuses c) ∧ (¬ c.Arms → (ArmRefused (k.refuses c) ↔ ArmRefused k)) :=
    ⟨⟨rfl, rfl, rfl, rfl⟩, fun hn => by simp [ArmRefused, Children.refuses, hn]⟩
  unfold Children.Answers at h
  split at h
  · exact hc.elim
  · exact h.2 ▸ same
  · exact hc.elim
  · exact hc.elim
  · exact hc.elim
  · exact h ▸ refuses
  · exact h ▸ refuses
  · exact h ▸ refuses
  · exact h ▸ same

theorem childKernel_frame {c : Call} {r : c.Answer} (h : childKernel runnable k c r k')
    (hc : c.Calm) : Frame k k' ∧ (¬ c.Arms → (ArmRefused k' ↔ ArmRefused k)) := by
  obtain ⟨k₁, hl, ha⟩ := h
  obtain ⟨hf, hr⟩ := later_frame hl
  obtain ⟨hf', hr'⟩ := answers_frame ha hc
  refine ⟨hf.trans hf', fun hn => (hr' hn).trans ?_⟩
  rw [ArmRefused, ArmRefused, hr]

/-- The child waits at a pipe to which a byte was written, or is past it, and executes its
program. -/
def Bound (fd : Int32) (c : CString) (p : Pid) (k : Children) : Prop :=
  (∃ ops, (p, ops) ∈ k.forks) ∧
    ((∃ argv ops, k.left p = .readPipe fd :: .execvp c argv :: ops) ∨
      (∃ argv ops, k.left p = .execvp c argv :: ops) ∨ (p, c) ∈ k.executed)

theorem Bound.advances {fd : Int32} {c : CString} (hr : runnable c.bytes) (h : Bound fd c p k)
    (ha : Advances runnable k k') : Bound fd c p k' := by
  obtain ⟨⟨all, hm⟩, h⟩ := h
  obtain ⟨q, ha⟩ := ha
  refine ⟨⟨all, (advances_frame ⟨q, ha⟩).1.forks ▸ hm⟩, ?_⟩
  by_cases hqp : q = p
  · subst hqp
    rcases h with ⟨argv, ops, hl⟩ | ⟨argv, ops, hl⟩ | he
    · simp only [advance, hl] at ha
      split_ifs at ha
      refine .inr (.inl ⟨argv, ops, ?_⟩)
      rw [← Option.some.inj ha]
      simp [Children.goesOn]
    · simp only [advance, hl, hr, if_true] at ha
      refine .inr (.inr ?_)
      rw [← Option.some.inj ha]
      exact List.mem_cons_self ..
    · refine .inr (.inr ?_)
      rcases advance_cases ha with ⟨op, ops, ops', -, -, rfl⟩ | ⟨d, argv, ops, -, -, rfl⟩
      · exact he
      · exact List.mem_cons_of_mem _ he
  · rcases advance_cases ha with ⟨op, ops, ops', -, -, rfl⟩ | ⟨d, argv, ops, -, -, rfl⟩
    · simpa [Children.goesOn, update_of_ne (Ne.symm hqp)] using h
    · simp only [Children.executes, update_of_ne (Ne.symm hqp)]
      exact h.imp id (Or.imp id (List.mem_cons_of_mem _))

theorem Bound.answers {fd : Int32} {c : CString} {d : Call} {r : d.Answer} (h : Bound fd c p k)
    (ha : k.Answers d r k') : Bound fd c p k' := by
  obtain ⟨⟨all, hm⟩, h⟩ := h
  rcases answers_cases ha with ⟨hf, hl, he⟩ | ⟨ops, q, -, hq, rfl⟩
  · refine ⟨⟨all, hf ▸ hm⟩, ?_⟩
    rw [hl, he]
    exact h
  · have hpq : p ≠ q := hq _ hm
    refine ⟨⟨all, List.mem_cons_of_mem _ hm⟩, ?_⟩
    simpa [Children.forked, update_of_ne hpq] using h

theorem Bound.childKernel {fd : Int32} {c : CString} {d : Call} {r : d.Answer}
    (hr : runnable c.bytes) (h : Bound fd c p k) (hk : childKernel runnable k d r k') :
    Bound fd c p k' :=
  moving_keeps hk (fun _ _ ha hb => hb.advances hr ha) (fun _ ha hb => hb.answers ha) h

/-- A child that is bound to execute its program does so when it is given the time. -/
theorem Bound.executes {fd : Int32} {c : CString} (hr : runnable c.bytes) (h : Bound fd c p k)
    (hfd : fd ∈ k.filled) : ∃ k', Later runnable k k' ∧ (p, c) ∈ k'.executed := by
  have last {k : Children} {argv : List CString} {ops : List ChildOp}
      (hl : k.left p = .execvp c argv :: ops) :
      ∃ k', Later runnable k k' ∧ (p, c) ∈ k'.executed :=
    ⟨k.executes p c, .single ⟨p, by simp [advance, hl, hr]⟩, List.mem_cons_self ..⟩
  obtain ⟨-, ⟨argv, ops, hl⟩ | ⟨argv, ops, hl⟩ | he⟩ := h
  · have hwake : Advances runnable k (k.goesOn p (.execvp c argv :: ops)) :=
      ⟨p, by simp [advance, hl, hfd]⟩
    obtain ⟨k', hl', he⟩ := @last (k.goesOn p (.execvp c argv :: ops)) argv ops
      (by simp [Children.goesOn])
    exact ⟨k', .head hwake hl', he⟩
  · exact last hl
  · exact ⟨k, .refl, he⟩

end Syren
