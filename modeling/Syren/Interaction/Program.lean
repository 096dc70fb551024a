import Mathlib.Logic.Relation
import Mathlib.Tactic.Common

/-! Programs that make calls of an environment and go on with its answers. An environment is a
relation between the state before a call, the call, one answer and the state after it, so it may
answer in many ways and may move on its own before it answers. -/
namespace Interaction

inductive Program (C : Type) (A : C → Type) (α : Type) where
  | done (a : α)
  | call (c : C) (next : A c → Program C A α)
  /-- A loop stopped by its bound: it makes no further call and never returns. -/
  | cut

abbrev Environment (C : Type) (A : C → Type) (σ : Type) := σ → (c : C) → A c → σ → Prop

variable {C : Type} {A : C → Type} {α β ε τ σ : Type}

/-- The environment that moves on by itself for some time before each answer. -/
def moving (moves : σ → σ → Prop) (answers : Environment C A σ) : Environment C A σ :=
  fun s c a s' => ∃ s₁, Relation.ReflTransGen moves s s₁ ∧ answers s₁ c a s'

theorem moved_keeps {moves : σ → σ → Prop} {P : σ → Prop} {s s' : σ}
    (h : Relation.ReflTransGen moves s s') (hm : ∀ s s', moves s s' → P s → P s') (hp : P s) :
    P s' := by
  induction h with
  | refl => exact hp
  | tail _ hstep ih => exact hm _ _ hstep ih

/-- What the moves keep, and one answer keeps. -/
theorem moving_keeps {moves : σ → σ → Prop} {answers : Environment C A σ} {P : σ → Prop}
    {s s' : σ} {c : C} {a : A c} (h : moving moves answers s c a s')
    (hm : ∀ s s', moves s s' → P s → P s') (ha : ∀ s, answers s c a s' → P s → P s') (hp : P s) :
    P s' := by
  obtain ⟨s₁, hmoved, hans⟩ := h
  exact ha s₁ hans (moved_keeps hmoved hm hp)

namespace Program

def bind : Program C A α → (α → Program C A β) → Program C A β
  | .done a, f => f a
  | .call c next, f => .call c fun r => (next r).bind f
  | .cut, _ => .cut

instance : Monad (Program C A) where
  pure := .done
  bind := bind

/-- The call alone, returning its answer. -/
def ask (c : C) : Program C A (A c) := .call c .done

@[simp] theorem pure_eq (a : α) : (pure a : Program C A α) = .done a := rfl

@[simp] theorem bind_eq (p : Program C A α) (f : α → Program C A β) : p >>= f = p.bind f := rfl

@[simp] theorem done_bind (a : α) (f : α → Program C A β) : (Program.done a).bind f = f a := rfl

@[simp] theorem call_bind (c : C) (next : A c → Program C A α) (f : α → Program C A β) :
    (Program.call c next).bind f = .call c fun r => (next r).bind f := rfl

@[simp] theorem cut_bind (f : α → Program C A β) :
    (Program.cut : Program C A α).bind f = .cut := rfl

theorem bind_assoc {γ : Type} (p : Program C A α) (f : α → Program C A β)
    (g : β → Program C A γ) : (p.bind f).bind g = p.bind fun a => (f a).bind g := by
  induction p with
  | done a => rfl
  | call c next ih => simp only [call_bind, ih]
  | cut => rfl

/-- Complete executions: the program started in `s` can return `b` and leave the state `s'`. -/
def Exec (env : Environment C A σ) : Program C A α → σ → α → σ → Prop
  | .done a, s, b, s' => b = a ∧ s' = s
  | .call c next, s, b, s' => ∃ r s₁, env s c r s₁ ∧ (next r).Exec env s₁ b s'
  | .cut, _, _, _ => False

/-- The program started in `s` can come to make the call `c` in the state `s'`. -/
def Makes (env : Environment C A σ) : Program C A α → σ → C → σ → Prop
  | .done _, _, _, _ => False
  | .call c next, s, c', s' =>
      (c' = c ∧ s' = s) ∨ ∃ r s₁, env s c r s₁ ∧ (next r).Makes env s₁ c' s'
  | .cut, _, _, _ => False

variable {env : Environment C A σ} {s s' : σ}

@[simp] theorem exec_done {a b : α} :
    (Program.done a : Program C A α).Exec env s b s' ↔ b = a ∧ s' = s := Iff.rfl

@[simp] theorem exec_call {c : C} {next : A c → Program C A α} {b : α} :
    (Program.call c next).Exec env s b s' ↔
      ∃ r s₁, env s c r s₁ ∧ (next r).Exec env s₁ b s' := Iff.rfl

@[simp] theorem exec_cut {b : α} : ¬ (Program.cut : Program C A α).Exec env s b s' := id

theorem exec_bind {p : Program C A α} {f : α → Program C A β} {b : β} :
    (p.bind f).Exec env s b s' ↔ ∃ a s₁, p.Exec env s a s₁ ∧ (f a).Exec env s₁ b s' := by
  induction p generalizing s with
  | done a => simp
  | call c next ih =>
    simp only [call_bind, exec_call, ih]
    constructor
    · rintro ⟨r, s₁, hr, a, s₂, hp, hf⟩
      exact ⟨a, s₂, ⟨r, s₁, hr, hp⟩, hf⟩
    · rintro ⟨a, s₂, ⟨r, s₁, hr, hp⟩, hf⟩
      exact ⟨r, s₁, hr, a, s₂, hp, hf⟩
  | cut => simp

theorem exec_bind_done {p : Program C A α} {g : α → β} {b : β} :
    (p.bind fun a => .done (g a)).Exec env s b s' ↔ ∃ a, p.Exec env s a s' ∧ b = g a := by
  rw [exec_bind]
  constructor
  · rintro ⟨a, s₁, ha, rfl, rfl⟩
    exact ⟨a, ha, rfl⟩
  · rintro ⟨a, ha, rfl⟩
    exact ⟨a, s', ha, rfl, rfl⟩

/-- What every answer of the environment keeps, an execution keeps. -/
theorem Exec.keeps {P : σ → Prop} (hk : ∀ s c r s', env s c r s' → P s → P s')
    {p : Program C A α} {a : α} (h : p.Exec env s a s') (hp : P s) : P s' := by
  induction p generalizing s with
  | done b => exact h.2 ▸ hp
  | call c next ih =>
    obtain ⟨r, s₁, hr, hn⟩ := h
    exact ih r hn (hk _ _ _ _ hr hp)
  | cut => exact h.elim

/-- Every call the program can make satisfies `Q`, whatever the answers are. -/
def Only (Q : C → Prop) : Program C A α → Prop
  | .done _ => True
  | .call c next => Q c ∧ ∀ r, (next r).Only Q
  | .cut => True

theorem Only.bind {Q : C → Prop} {p : Program C A α} {f : α → Program C A β} (hp : p.Only Q)
    (hf : ∀ a, (f a).Only Q) : (p.bind f).Only Q := by
  induction p with
  | done a => exact hf a
  | call c next ih => exact ⟨hp.1, fun r => ih r (hp.2 r)⟩
  | cut => trivial

theorem Only.mono {Q Q' : C → Prop} {p : Program C A α} (hp : p.Only Q) (hq : ∀ c, Q c → Q' c) :
    p.Only Q' := by
  induction p with
  | done a => trivial
  | call c next ih => exact ⟨hq c hp.1, fun r => ih r (hp.2 r)⟩
  | cut => trivial

/-- What the answers to the program's calls keep, an execution keeps. -/
theorem Exec.keeps_only {Q : C → Prop} {P : σ → Prop}
    (hk : ∀ s c r s', Q c → env s c r s' → P s → P s') {p : Program C A α} {a : α}
    (hq : p.Only Q) (h : p.Exec env s a s') (hp : P s) : P s' := by
  induction p generalizing s with
  | done b => exact h.2 ▸ hp
  | call c next ih =>
    obtain ⟨r, s₁, hr, hn⟩ := h
    exact ih r (hq.2 r) hn (hk _ _ _ _ hq.1 hr hp)
  | cut => exact h.elim

@[simp] theorem makes_done {a : α} {c : C} :
    ¬ (Program.done a : Program C A α).Makes env s c s' := id

@[simp] theorem makes_call {c c' : C} {next : A c → Program C A α} :
    (Program.call c next).Makes env s c' s' ↔
      (c' = c ∧ s' = s) ∨ ∃ r s₁, env s c r s₁ ∧ (next r).Makes env s₁ c' s' := Iff.rfl

theorem makes_bind {p : Program C A α} {f : α → Program C A β} {c : C} :
    (p.bind f).Makes env s c s' ↔
      p.Makes env s c s' ∨ ∃ a s₁, p.Exec env s a s₁ ∧ (f a).Makes env s₁ c s' := by
  induction p generalizing s with
  | done a => simp
  | call c' next ih =>
    simp only [call_bind, makes_call, exec_call, ih]
    constructor
    · rintro (h | ⟨r, s₁, hr, hm | ⟨a, s₂, hp, hf⟩⟩)
      · exact .inl (.inl h)
      · exact .inl (.inr ⟨r, s₁, hr, hm⟩)
      · exact .inr ⟨a, s₂, ⟨r, s₁, hr, hp⟩, hf⟩
    · rintro ((h | ⟨r, s₁, hr, hm⟩) | ⟨a, s₂, ⟨r, s₁, hr, hp⟩, hf⟩)
      · exact .inl h
      · exact .inr ⟨r, s₁, hr, .inl hm⟩
      · exact .inr ⟨r, s₁, hr, .inr ⟨a, s₂, hp, hf⟩⟩
  | cut => simp [Makes, Exec]

/-- The execution against an environment that answers each call in one way, if it answers. -/
def play (f : σ → (c : C) → Option (A c × σ)) : Program C A α → σ → Option (α × σ)
  | .done a, s => some (a, s)
  | .call c next, s => (f s c).bind fun r => (next r.1).play f r.2
  | .cut, _ => none

theorem exec_of_play {f : σ → (c : C) → Option (A c × σ)}
    (hf : ∀ s c r s', f s c = some (r, s') → env s c r s') {p : Program C A α} {a : α}
    (h : p.play f s = some (a, s')) : p.Exec env s a s' := by
  induction p generalizing s with
  | done b =>
    cases h
    exact ⟨rfl, rfl⟩
  | call c next ih =>
    obtain ⟨⟨r, s₁⟩, hr, hn⟩ := Option.bind_eq_some_iff.mp h
    exact ⟨r, s₁, hf _ _ _ _ hr, ih r hn⟩
  | cut => cases h

end Program

/-- A method on a mutable receiver `τ` that may fail with `ε`: a failure keeps the changes already
made to the receiver. -/
abbrev Method (C : Type) (A : C → Type) (τ ε : Type) := ExceptT ε (StateT τ (Program C A))

namespace Method
open Program

/-- Make a call and return its answer, whatever it is. -/
def ask (c : C) : Method C A τ ε (A c) :=
  ExceptT.lift (StateT.lift (Program.ask c))

/-- `Runs env m t s r t' s'`: on the receiver `t` and in the state `s`, the method can end with
the result `r`, the receiver `t'` and the state `s'`. -/
def Runs (env : Environment C A σ) (m : Method C A τ ε α) (t : τ) (s : σ)
    (r : Except ε α) (t' : τ) (s' : σ) : Prop := Program.Exec env (m.run.run t) s (r, t') s'

/-- On the receiver `t` and in the state `s`, the method can come to make `c` in the state `s'`. -/
def Comes (env : Environment C A σ) (m : Method C A τ ε α) (t : τ) (s : σ) (c : C) (s' : σ) :
    Prop := Program.Makes env (m.run.run t) s c s'

variable {env : Environment C A σ} {t t' : τ} {s s' : σ}

@[simp] theorem runs_pure {a : α} {r : Except ε α} :
    Runs env (pure a : Method C A τ ε α) t s r t' s' ↔ r = .ok a ∧ t' = t ∧ s' = s := by
  change ((r, t') = (Except.ok a, t) ∧ s' = s) ↔ _
  rw [Prod.mk.injEq, and_assoc]

@[simp] theorem runs_throw {e : ε} {r : Except ε α} :
    Runs env (throw e : Method C A τ ε α) t s r t' s' ↔ r = .error e ∧ t' = t ∧ s' = s := by
  change ((r, t') = (Except.error e, t) ∧ s' = s) ↔ _
  rw [Prod.mk.injEq, and_assoc]

@[simp] theorem runs_get {r : Except ε τ} :
    Runs env (get : Method C A τ ε τ) t s r t' s' ↔ r = .ok t ∧ t' = t ∧ s' = s := by
  change ((r, t') = (Except.ok t, t) ∧ s' = s) ↔ _
  rw [Prod.mk.injEq, and_assoc]

@[simp] theorem runs_modify {f : τ → τ} {r : Except ε PUnit} :
    Runs env (modify f : Method C A τ ε PUnit) t s r t' s' ↔
      r = .ok () ∧ t' = f t ∧ s' = s := by
  change ((r, t') = (Except.ok (), f t) ∧ s' = s) ↔ _
  rw [Prod.mk.injEq, and_assoc]

@[simp] theorem runs_ask {c : C} {r : Except ε (A c)} :
    Runs env (ask c : Method C A τ ε (A c)) t s r t' s' ↔
      ∃ a, env s c a s' ∧ r = .ok a ∧ t' = t := by
  change (∃ a s₁, env s c a s₁ ∧ ((r, t') = (Except.ok a, t) ∧ s' = s₁)) ↔ _
  constructor
  · rintro ⟨a, s₁, hc, he, rfl⟩
    exact ⟨a, hc, (Prod.mk.inj he).1, (Prod.mk.inj he).2⟩
  · rintro ⟨a, hc, rfl, rfl⟩
    exact ⟨a, s', hc, rfl, rfl⟩

theorem run_bind (m : Method C A τ ε α) (f : α → Method C A τ ε β) :
    ((m >>= f).run.run t) = (m.run.run t).bind fun
      | (.ok a, t₁) => (f a).run.run t₁
      | (.error e, t₁) => .done (.error e, t₁) := by
  change (m.run.run t).bind _ = _
  congr 1
  funext ⟨r, t₁⟩
  cases r <;> rfl

theorem runs_bind {m : Method C A τ ε α} {f : α → Method C A τ ε β} {r : Except ε β} :
    Runs env (m >>= f) t s r t' s' ↔
      (∃ a t₁ s₁, Runs env m t s (.ok a) t₁ s₁ ∧ Runs env (f a) t₁ s₁ r t' s') ∨
      ∃ e, r = .error e ∧ Runs env m t s (.error e) t' s' := by
  unfold Runs
  rw [run_bind, exec_bind]
  constructor
  · rintro ⟨⟨_ | a, t₁⟩, s₁, hm, hf⟩
    · obtain ⟨he, rfl⟩ := hf
      obtain ⟨rfl, rfl⟩ := Prod.mk.inj he
      exact .inr ⟨_, rfl, hm⟩
    · exact .inl ⟨a, t₁, s₁, hm, hf⟩
  · rintro (⟨a, t₁, s₁, hm, hf⟩ | ⟨e, rfl, hm⟩)
    · exact ⟨(.ok a, t₁), s₁, hm, hf⟩
    · exact ⟨(.error e, t'), s', hm, rfl, rfl⟩

@[simp] theorem runs_pure_bind {a : α} {f : α → Method C A τ ε β} {r : Except ε β} :
    Runs env ((pure a : Method C A τ ε α) >>= f) t s r t' s' ↔ Runs env (f a) t s r t' s' := Iff.rfl

@[simp] theorem runs_throw_bind {e : ε} {f : α → Method C A τ ε β} {r : Except ε β} :
    Runs env ((throw e : Method C A τ ε α) >>= f) t s r t' s' ↔
      r = .error e ∧ t' = t ∧ s' = s := runs_throw

@[simp] theorem runs_get_bind {f : τ → Method C A τ ε β} {r : Except ε β} :
    Runs env ((get : Method C A τ ε τ) >>= f) t s r t' s' ↔ Runs env (f t) t s r t' s' := Iff.rfl

@[simp] theorem runs_modify_bind {g : τ → τ} {f : PUnit → Method C A τ ε β} {r : Except ε β} :
    Runs env ((modify g : Method C A τ ε PUnit) >>= f) t s r t' s' ↔
      Runs env (f ()) (g t) s r t' s' := Iff.rfl

@[simp] theorem runs_ask_bind {c : C} {f : A c → Method C A τ ε β} {r : Except ε β} :
    Runs env ((ask c : Method C A τ ε (A c)) >>= f) t s r t' s' ↔
      ∃ a s₁, env s c a s₁ ∧ Runs env (f a) t s₁ r t' s' := Iff.rfl

@[simp] theorem runs_bind_bind {γ : Type} {m : Method C A τ ε α} {f : α → Method C A τ ε β}
    {g : β → Method C A τ ε γ} {r : Except ε γ} :
    Runs env ((m >>= f) >>= g) t s r t' s' ↔ Runs env (m >>= fun a => f a >>= g) t s r t' s' := by
  unfold Runs
  rw [run_bind, run_bind, run_bind, bind_assoc]
  apply iff_of_eq
  congr 2
  funext r
  obtain ⟨_ | a, t₁⟩ := r
  · rfl
  · exact (run_bind (f a) g).symm

@[simp] theorem comes_pure {a : α} {c : C} :
    ¬ Comes env (pure a : Method C A τ ε α) t s c s' := id

@[simp] theorem comes_throw {e : ε} {c : C} :
    ¬ Comes env (throw e : Method C A τ ε α) t s c s' := id

theorem comes_bind {m : Method C A τ ε α} {f : α → Method C A τ ε β} {c : C} :
    Comes env (m >>= f) t s c s' ↔
      Comes env m t s c s' ∨
      ∃ a t₁ s₁, Runs env m t s (.ok a) t₁ s₁ ∧ Comes env (f a) t₁ s₁ c s' := by
  unfold Comes Runs
  rw [run_bind, makes_bind]
  constructor
  · rintro (h | ⟨⟨_ | a, t₁⟩, s₁, hm, hf⟩)
    · exact .inl h
    · exact hf.elim
    · exact .inr ⟨a, t₁, s₁, hm, hf⟩
  · rintro (h | ⟨a, t₁, s₁, hm, hf⟩)
    · exact .inl h
    · exact .inr ⟨(.ok a, t₁), s₁, hm, hf⟩

@[simp] theorem comes_pure_bind {a : α} {f : α → Method C A τ ε β} {c : C} :
    Comes env ((pure a : Method C A τ ε α) >>= f) t s c s' ↔ Comes env (f a) t s c s' := Iff.rfl

@[simp] theorem comes_throw_bind {e : ε} {f : α → Method C A τ ε β} {c : C} :
    ¬ Comes env ((throw e : Method C A τ ε α) >>= f) t s c s' := id

@[simp] theorem comes_get_bind {f : τ → Method C A τ ε β} {c : C} :
    Comes env ((get : Method C A τ ε τ) >>= f) t s c s' ↔ Comes env (f t) t s c s' := Iff.rfl

@[simp] theorem comes_modify_bind {g : τ → τ} {f : PUnit → Method C A τ ε β} {c : C} :
    Comes env ((modify g : Method C A τ ε PUnit) >>= f) t s c s' ↔
      Comes env (f ()) (g t) s c s' := Iff.rfl

@[simp] theorem comes_ask_bind {c c' : C} {f : A c → Method C A τ ε β} :
    Comes env ((ask c : Method C A τ ε (A c)) >>= f) t s c' s' ↔
      (c' = c ∧ s' = s) ∨ ∃ a s₁, env s c a s₁ ∧ Comes env (f a) t s₁ c' s' := Iff.rfl

/-- Every call the method can make satisfies `Q`, whatever the receiver is. -/
def Only (Q : C → Prop) (m : Method C A τ ε α) : Prop := ∀ t, Program.Only Q (m.run.run t)

variable {Q : C → Prop}

@[simp] theorem only_pure {a : α} : Only Q (pure a : Method C A τ ε α) := fun _ => trivial

@[simp] theorem only_throw {e : ε} : Only Q (throw e : Method C A τ ε α) := fun _ => trivial

@[simp] theorem only_get : Only Q (get : Method C A τ ε τ) := fun _ => trivial

@[simp] theorem only_modify {f : τ → τ} : Only Q (modify f : Method C A τ ε PUnit) :=
  fun _ => trivial

theorem only_ask {c : C} (h : Q c) : Only Q (ask c : Method C A τ ε (A c)) :=
  fun _ => ⟨h, fun _ => trivial⟩

theorem Only.bind {m : Method C A τ ε α} {f : α → Method C A τ ε β} (hm : Only Q m)
    (hf : ∀ a, Only Q (f a)) : Only Q (m >>= f) := by
  intro t
  rw [run_bind]
  refine Program.Only.bind (hm t) fun r => ?_
  obtain ⟨_ | a, t₁⟩ := r
  · trivial
  · exact hf a t₁

@[simp] theorem comes_bind_bind {γ : Type} {m : Method C A τ ε α} {f : α → Method C A τ ε β}
    {g : β → Method C A τ ε γ} {c : C} :
    Comes env ((m >>= f) >>= g) t s c s' ↔ Comes env (m >>= fun a => f a >>= g) t s c s' := by
  simp only [comes_bind, runs_bind]
  constructor
  · rintro ((h | ⟨a, t₁, s₁, hm, hf⟩) | ⟨b, t₁, s₁, ⟨a, t₂, s₂, hm, hf⟩ | ⟨e, he, -⟩, hg⟩)
    · exact .inl h
    · exact .inr ⟨a, t₁, s₁, hm, .inl hf⟩
    · exact .inr ⟨a, t₂, s₂, hm, .inr ⟨b, t₁, s₁, hf, hg⟩⟩
    · cases he
  · rintro (h | ⟨a, t₁, s₁, hm, hf | ⟨b, t₂, s₂, hf, hg⟩⟩)
    · exact .inl (.inl h)
    · exact .inl (.inr ⟨a, t₁, s₁, hm, hf⟩)
    · exact .inr ⟨b, t₂, s₂, .inl ⟨a, t₁, s₁, hm, hf⟩, hg⟩

end Method

/-- Code without a receiver that may fail with `ε`. -/
abbrev Attempt (C : Type) (A : C → Type) (ε : Type) := ExceptT ε (Program C A)

namespace Attempt
open Program

def ask (c : C) : Attempt C A ε (A c) := ExceptT.lift (Program.ask c)

/-- Run the code and go on with its result, whether it failed or not. -/
def caught {ε' : Type} (x : Attempt C A ε α) : Attempt C A ε' (Except ε α) :=
  ExceptT.mk (x.run.bind fun r => .done (.ok r))

/-- Run a method on a value under construction and hand the value out when it succeeds. -/
def construct (t : τ) (m : Method C A τ ε Unit) : Attempt C A ε τ :=
  ExceptT.mk ((m.run.run t).bind fun r => .done (r.1.map fun _ => r.2))

/-- Started in the state `s`, the code can end with the result `r` in the state `s'`. -/
def Ends (env : Environment C A σ) (x : Attempt C A ε α) (s : σ) (r : Except ε α) (s' : σ) :
    Prop := Program.Exec env x.run s r s'

variable {env : Environment C A σ} {s s' : σ}

@[simp] theorem ends_pure {a : α} {r : Except ε α} :
    Ends env (pure a : Attempt C A ε α) s r s' ↔ r = .ok a ∧ s' = s := Iff.rfl

@[simp] theorem ends_throw {e : ε} {r : Except ε α} :
    Ends env (throw e : Attempt C A ε α) s r s' ↔ r = .error e ∧ s' = s := Iff.rfl

@[simp] theorem ends_pure_bind {a : α} {f : α → Attempt C A ε β} {r : Except ε β} :
    Ends env ((pure a : Attempt C A ε α) >>= f) s r s' ↔ Ends env (f a) s r s' := Iff.rfl

@[simp] theorem ends_throw_bind {e : ε} {f : α → Attempt C A ε β} {r : Except ε β} :
    Ends env ((throw e : Attempt C A ε α) >>= f) s r s' ↔ r = .error e ∧ s' = s := Iff.rfl

@[simp] theorem ends_ask_bind {c : C} {f : A c → Attempt C A ε β} {r : Except ε β} :
    Ends env ((ask c : Attempt C A ε (A c)) >>= f) s r s' ↔
      ∃ a s₁, env s c a s₁ ∧ Ends env (f a) s₁ r s' := Iff.rfl

theorem ends_bind {x : Attempt C A ε α} {f : α → Attempt C A ε β} {r : Except ε β} :
    Ends env (x >>= f) s r s' ↔
      (∃ a s₁, Ends env x s (.ok a) s₁ ∧ Ends env (f a) s₁ r s') ∨
      ∃ e, r = .error e ∧ Ends env x s (.error e) s' := by
  unfold Ends
  change Program.Exec env (Program.bind x.run _) s r s' ↔ _
  rw [exec_bind]
  constructor
  · rintro ⟨_ | a, s₁, hx, hf⟩
    · obtain ⟨rfl, rfl⟩ := hf
      exact .inr ⟨_, rfl, hx⟩
    · exact .inl ⟨a, s₁, hx, hf⟩
  · rintro (⟨a, s₁, hx, hf⟩ | ⟨e, rfl, hx⟩)
    · exact ⟨.ok a, s₁, hx, hf⟩
    · exact ⟨.error e, s', hx, rfl, rfl⟩

theorem ends_ok_bind {x : Attempt C A ε α} {f : α → Attempt C A ε β} {b : β}
    (h : Ends env (x >>= f) s (.ok b) s') :
    ∃ a s₁, Ends env x s (.ok a) s₁ ∧ Ends env (f a) s₁ (.ok b) s' := by
  rcases ends_bind.mp h with h | ⟨e, he, -⟩
  · exact h
  · cases he

theorem ends_caught {ε' : Type} {x : Attempt C A ε α} {r : Except ε' (Except ε α)} :
    Ends env (caught x) s r s' ↔ ∃ q, Ends env x s q s' ∧ r = .ok q := exec_bind_done

theorem ends_construct {t : τ} {m : Method C A τ ε Unit} {r : Except ε τ} :
    Ends env (construct t m) s r s' ↔
      ∃ q t', Method.Runs env m t s q t' s' ∧ r = q.map fun _ => t' :=
  exec_bind_done.trans Prod.exists

/-- Every call the code can make satisfies `Q`. -/
def Only (Q : C → Prop) (x : Attempt C A ε α) : Prop := Program.Only Q x.run

variable {Q : C → Prop}

@[simp] theorem only_pure {a : α} : Only Q (pure a : Attempt C A ε α) := trivial

@[simp] theorem only_throw {e : ε} : Only Q (throw e : Attempt C A ε α) := trivial

@[simp] theorem only_mk_done {r : Except ε α} : Only Q (ExceptT.mk (.done r) : Attempt C A ε α) :=
  trivial

theorem only_ask {c : C} (h : Q c) : Only Q (ask c : Attempt C A ε (A c)) :=
  ⟨h, fun _ => trivial⟩

theorem Only.bind {x : Attempt C A ε α} {f : α → Attempt C A ε β} (hx : Only Q x)
    (hf : ∀ a, Only Q (f a)) : Only Q (x >>= f) :=
  Program.Only.bind hx fun
    | .ok a => hf a
    | .error _ => trivial

theorem Only.mono {Q' : C → Prop} {x : Attempt C A ε α} (hx : Only Q x) (hq : ∀ c, Q c → Q' c) :
    Only Q' x := Program.Only.mono hx hq

theorem Only.construct {t : τ} {m : Method C A τ ε Unit} (hm : Method.Only Q m) :
    Only Q (construct t m) := Program.Only.bind (hm t) fun _ => trivial

theorem Only.caught {ε' : Type} {x : Attempt C A ε α} (hx : Only Q x) :
    Only Q (caught x : Attempt C A ε' (Except ε α)) :=
  Program.Only.bind hx fun _ => trivial

/-- Code of which every call keeps `P` keeps `P`. -/
theorem Ends.keeps_only {P : σ → Prop} (hk : ∀ s c r s', Q c → env s c r s' → P s → P s')
    {x : Attempt C A ε α} {r : Except ε α} (hq : Only Q x) (h : Ends env x s r s') (hp : P s) :
    P s' := Program.Exec.keeps_only hk hq h hp

end Attempt

end Interaction
