import Syren.Interaction.Run

/-! Machines whose state has one part for each key and whose steps have a key each. Where a step
reads and changes no more than the part of its key, the parts and the outputs of a key depend on
the inputs of that key alone, in whatever order the steps of the keys are mixed. -/
namespace Interaction

variable {κ α ι ω σ ℓ : Type}

/-- A step changes the part of its key as `react` says, has the output that `react` says, and
leaves every other part alone. -/
def Keyed (step : σ → α → σ → Prop) (key : α → κ) (input : α → ι) (output : α → ω)
    (view : σ → κ → ℓ) (react : ι → ℓ → ℓ × ω) : Prop :=
  ∀ s a s', step s a s' → (view s' (key a), output a) = react (input a) (view s (key a)) ∧
    ∀ k, k ≠ key a → view s' k = view s k

/-- The part and the outputs after a list of inputs of one key. -/
def respond (react : ι → ℓ → ℓ × ω) : ℓ → List ι → ℓ × List ω
  | p, [] => (p, [])
  | p, x :: l =>
    let rest := respond react (react x p).1 l
    (rest.1, (react x p).2 :: rest.2)

/-- The steps with the key `k`, in order. -/
def ofKey [DecidableEq κ] (key : α → κ) (k : κ) (steps : List (α × σ)) : List α :=
  (steps.map Prod.fst).filter fun a => key a = k

variable [DecidableEq κ] {step : σ → α → σ → Prop} {key : α → κ} {input : α → ι} {output : α → ω}
  {view : σ → κ → ℓ} {react : ι → ℓ → ℓ × ω} {s : σ}

theorem Keyed.run (hk : Keyed step key input output view react) {steps : List (α × σ)}
    (h : IsRun step s steps) (k : κ) :
    (view (lastState s steps) k, (ofKey key k steps).map output) =
      respond react (view s k) ((ofKey key k steps).map input) := by
  induction steps generalizing s with
  | nil => rfl
  | cons y steps ih =>
    obtain ⟨a, s'⟩ := y
    obtain ⟨hstep, hrun⟩ := h
    obtain ⟨hown, hother⟩ := hk s a s' hstep
    have hrest := ih hrun
    rw [lastState_cons]
    by_cases hkey : key a = k
    · subst hkey
      have hcons : ofKey key (key a) ((a, s') :: steps) = a :: ofKey key (key a) steps := by
        simp [ofKey]
      rw [hcons]
      simp only [List.map_cons, respond, ← hown]
      rw [← hrest]
    · have hskip : ofKey key k ((a, s') :: steps) = ofKey key k steps := by
        simp [ofKey, hkey]
      rw [hskip, hrest, hother k (Ne.symm hkey)]

/-- Two runs in which a key has the same inputs end with the same part and have the same outputs
for that key. -/
theorem Keyed.same (hk : Keyed step key input output view react) {s₁ s₂ : σ}
    {l₁ l₂ : List (α × σ)} (h₁ : IsRun step s₁ l₁) (h₂ : IsRun step s₂ l₂) {k : κ}
    (hs : view s₁ k = view s₂ k)
    (hsame : (ofKey key k l₁).map input = (ofKey key k l₂).map input) :
    view (lastState s₁ l₁) k = view (lastState s₂ l₂) k ∧
      (ofKey key k l₁).map output = (ofKey key k l₂).map output := by
  have hrun := hk.run h₁ k
  rw [hs, hsame, ← hk.run h₂ k] at hrun
  exact Prod.mk.inj hrun

end Interaction
