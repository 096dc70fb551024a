import Syren.Interaction.Program
import Syren.Interaction.Run

/-! Forward simulations: what a program does against one environment it does against every
environment that can follow the first, answer by answer. -/
namespace Interaction
open Relation

variable {C : Type} {A : C → Type} {α σ ρ τ ε : Type}

/-- The environment `env'` can follow `env`: in related states it can give every answer that `env`
gives, and the states after the answer are related again. -/
def Simulates (R : σ → ρ → Prop) (env : Environment C A σ) (env' : Environment C A ρ) : Prop :=
  ∀ s u c a s', R s u → env s c a s' → ∃ u', env' u c a u' ∧ R s' u'

variable {R : σ → ρ → Prop} {env : Environment C A σ} {env' : Environment C A ρ} {s s' : σ} {u : ρ}

theorem Simulates.exec (h : Simulates R env env') {p : Program C A α} {a : α} (hr : R s u)
    (hp : p.Exec env s a s') : ∃ u', p.Exec env' u a u' ∧ R s' u' := by
  induction p generalizing s u with
  | done b =>
    obtain ⟨rfl, rfl⟩ := hp
    exact ⟨u, ⟨rfl, rfl⟩, hr⟩
  | call c next ih =>
    obtain ⟨r, s₁, hc, hn⟩ := hp
    obtain ⟨u₁, hc', hr₁⟩ := h _ _ _ _ _ hr hc
    obtain ⟨u', hn', hr'⟩ := ih r hr₁ hn
    exact ⟨u', ⟨r, u₁, hc', hn'⟩, hr'⟩
  | cut => exact hp.elim

theorem Simulates.runs (h : Simulates R env env') {m : Method C A τ ε α} {t t' : τ}
    {r : Except ε α} (hr : R s u) (hm : m.Runs env t s r t' s') :
    ∃ u', m.Runs env' t u r t' u' ∧ R s' u' := h.exec hr hm

/-- Environments that move on by themselves: the moves are followed as well as the answers. -/
theorem Simulates.moving {moves : σ → σ → Prop} {moves' : ρ → ρ → Prop}
    (hm : ∀ s u s', R s u → moves s s' → ∃ u', ReflTransGen moves' u u' ∧ R s' u')
    (h : Simulates R env env') : Simulates R (moving moves env) (moving moves' env') := by
  rintro s u c a s' hr ⟨s₁, hmoved, ha⟩
  have followed : ∃ u₁, ReflTransGen moves' u u₁ ∧ R s₁ u₁ := by
    refine moved_keeps hmoved (P := fun s₂ => ∃ u₂, ReflTransGen moves' u u₂ ∧ R s₂ u₂) ?_
      ⟨u, .refl, hr⟩
    rintro s₂ s₃ hstep ⟨u₂, hu₂, hr₂⟩
    obtain ⟨u₃, hu₃, hr₃⟩ := hm _ _ _ hr₂ hstep
    exact ⟨u₃, hu₂.trans hu₃, hr₃⟩
  obtain ⟨u₁, hu₁, hr₁⟩ := followed
  obtain ⟨u', ha', hr'⟩ := h _ _ _ _ _ hr₁ ha
  exact ⟨u', ⟨u₁, hu₁, ha'⟩, hr'⟩

/-- A run is followed step by step, with the same labels. -/
theorem IsRun.simulated {step : σ → α → σ → Prop} {step' : ρ → α → ρ → Prop}
    (hs : ∀ s u a s', R s u → step s a s' → ∃ u', step' u a u' ∧ R s' u')
    {l : List (α × σ)} (h : IsRun step s l) (hr : R s u) :
    ∃ l' : List (α × ρ), IsRun step' u l' ∧ l'.map Prod.fst = l.map Prod.fst ∧
      R (lastState s l) (lastState u l') := by
  induction l generalizing s u with
  | nil => exact ⟨[], trivial, rfl, hr⟩
  | cons x l ih =>
    obtain ⟨a, s₁⟩ := x
    obtain ⟨hstep, hl⟩ := h
    obtain ⟨u₁, hstep', hr₁⟩ := hs _ _ _ _ hr hstep
    obtain ⟨l', hl', hlabels, hlast⟩ := ih hl hr₁
    refine ⟨(a, u₁) :: l', ⟨hstep', hl'⟩, congrArg (a :: ·) hlabels, ?_⟩
    rw [lastState_cons, lastState_cons]
    exact hlast

end Interaction
