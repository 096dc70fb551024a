import Mathlib.Data.List.Basic
import Mathlib.Data.List.Infix

/-! Finite runs of a labelled transition relation, with every state on the way kept. -/
namespace Interaction

variable {σ α : Type}

/-- The state after the last step of a run from `s`. -/
def lastState (s : σ) (steps : List (α × σ)) : σ := (steps.getLast?.map Prod.snd).getD s

def IsRun (step : σ → α → σ → Prop) : σ → List (α × σ) → Prop
  | _, [] => True
  | s, (a, s') :: rest => step s a s' ∧ IsRun step s' rest

/-- A run of `step` from a state that satisfies `init`. -/
structure Run (init : σ → Prop) (step : σ → α → σ → Prop) where
  start : σ
  steps : List (α × σ)
  starts : init start
  valid : IsRun step start steps

variable {init : σ → Prop} {step : σ → α → σ → Prop} {s : σ}

@[simp] theorem lastState_nil : lastState s ([] : List (α × σ)) = s := rfl

@[simp] theorem lastState_concat (l : List (α × σ)) (x : α × σ) :
    lastState s (l ++ [x]) = x.2 := by simp [lastState]

@[simp] theorem isRun_nil : IsRun step s [] := trivial

theorem lastState_cons (x : α × σ) (l : List (α × σ)) :
    lastState s (x :: l) = lastState x.2 l := by
  cases l with
  | nil => rfl
  | cons y l => simp [lastState, List.getLast?_cons]

theorem isRun_concat {l : List (α × σ)} {x : α × σ} :
    IsRun step s (l ++ [x]) ↔ IsRun step s l ∧ step (lastState s l) x.1 x.2 := by
  induction l generalizing s with
  | nil => simp [IsRun]
  | cons y l ih => simp [IsRun, ih, lastState_cons, and_assoc]

theorem lastState_append (l m : List (α × σ)) :
    lastState s (l ++ m) = lastState (lastState s l) m := by
  induction l generalizing s with
  | nil => rfl
  | cons x l ih => rw [List.cons_append, lastState_cons, lastState_cons, ih]

theorem isRun_append {l m : List (α × σ)} :
    IsRun step s (l ++ m) ↔ IsRun step s l ∧ IsRun step (lastState s l) m := by
  induction l generalizing s with
  | nil => simp
  | cons y l ih => simp [IsRun, ih, lastState_cons, and_assoc]

theorem IsRun.initial {l m : List (α × σ)} (h : IsRun step s m) (hp : l <+: m) :
    IsRun step s l := by
  obtain ⟨k, rfl⟩ := hp
  exact (isRun_append.mp h).1

/-- A property of the run so far that holds at the start and that every step keeps holds of the
whole run. -/
theorem IsRun.induction {motive : List (α × σ) → Prop} {l : List (α × σ)} (h : IsRun step s l)
    (start : motive [])
    (keep : ∀ l x, IsRun step s l → motive l → step (lastState s l) x.1 x.2 → motive (l ++ [x])) :
    motive l := by
  induction l using List.reverseRecOn with
  | nil => exact start
  | append_singleton l x ih =>
    obtain ⟨hl, hx⟩ := isRun_concat.mp h
    exact keep l x hl (ih hl) hx

/-- The induction for invariants of the state alone. -/
theorem IsRun.invariant {P : σ → Prop} {l : List (α × σ)} (h : IsRun step s l)
    (start : P s) (keep : ∀ s a s', P s → step s a s' → P s') : P (lastState s l) := by
  apply h.induction (motive := fun l => P (lastState s l)) start
  intro l x _ hi hx
  rw [lastState_concat]
  exact keep _ _ _ hi hx

/-- A fault `F` that no step undoes: where a run ends without it, every step of the run was made
without it, and is what such a step is. -/
theorem IsRun.faultless {I F : σ → Prop} {Q : α → σ → Prop} {l : List (α × σ)}
    (h : IsRun step s l) (start : I s) (keep : ∀ s a s', I s → step s a s' → I s')
    (stays : ∀ s a s', step s a s' → F s → F s')
    (sound : ∀ s a s', I s → step s a s' → ¬ F s' → Q a s')
    (hend : ¬ F (lastState s l)) : ∀ x ∈ l, Q x.1 x.2 := by
  revert hend
  refine h.induction (motive := fun l => ¬ F (lastState s l) → ∀ x ∈ l, Q x.1 x.2) ?_ ?_
  · intro _ x hx
    cases hx
  · intro l x hl ih hstep hend y hy
    rw [lastState_concat] at hend
    rcases List.mem_append.mp hy with hy | hy
    · exact ih (fun hf => hend (stays _ _ _ hstep hf)) y hy
    · obtain rfl := List.mem_singleton.mp hy
      exact sound _ _ _ (hl.invariant start keep) hstep hend

end Interaction
