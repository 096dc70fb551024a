import Syren.Interaction.Program
import Syren.Interaction.Run

/-! Loops whose passes either go round again or return, and the runs of their passes. -/
namespace Interaction.Method

variable {C : Type} {A : C → Type} {ι α ε τ σ : Type}

/-- The loop over `pass`, cut off when its bounds, one for each pass, are used up. -/
def loop (pass : ι → Method C A τ ε (Option α)) : List ι → Method C A τ ε α
  | [] => ExceptT.mk fun _ => .cut
  | bound :: bounds => do
    match ← pass bound with
    | some r => return r
    | none => loop pass bounds

/-- What a pass makes the loop return, if it ends the loop. -/
def returned : Except ε (Option α) → Option (Except ε α)
  | .ok none => none
  | .ok (some r) => some (.ok r)
  | .error e => some (.error e)

variable {env : Environment C A σ} {pass : ι → Method C A τ ε (Option α)} {t t' : τ} {s s' : σ}

/-- The loop returns what its last pass returns, after passes that all went round. -/
theorem runs_loop_iff {step : τ × σ → Except ε (Option α) → τ × σ → Prop}
    (hstep : ∀ a o b, step a o b ↔ ∃ bound, Runs env (pass bound) a.1 a.2 o b.1 b.2)
    {r : Except ε α} :
    (∃ bounds, Runs env (loop pass bounds) t s r t' s') ↔
      ∃ l o, IsRun step (t, s) (l ++ [(o, (t', s'))]) ∧ (∀ x ∈ l, x.1 = .ok none) ∧
        returned o = some r := by
  constructor
  · rintro ⟨bounds, h⟩
    induction bounds generalizing t s with
    | nil => exact h.elim
    | cons bound bounds ih =>
      rcases runs_bind.mp h with ⟨_ | q, t₁, s₁, hp, hr⟩ | ⟨e, rfl, hp⟩
      · obtain ⟨l, o, hrun, hl, ho⟩ := ih hr
        refine ⟨(.ok none, (t₁, s₁)) :: l, o, ⟨(hstep ..).mpr ⟨bound, hp⟩, hrun⟩, ?_, ho⟩
        intro x hx
        rcases List.mem_cons.mp hx with rfl | hx
        · rfl
        · exact hl x hx
      · obtain ⟨rfl, rfl, rfl⟩ := runs_pure.mp hr
        exact ⟨[], .ok (some q), ⟨(hstep ..).mpr ⟨bound, hp⟩, trivial⟩, by simp, rfl⟩
      · exact ⟨[], .error e, ⟨(hstep ..).mpr ⟨bound, hp⟩, trivial⟩, by simp, rfl⟩
  · rintro ⟨l, o, hrun, hl, ho⟩
    induction l generalizing t s with
    | nil =>
      obtain ⟨bound, hp⟩ := (hstep ..).mp hrun.1
      refine ⟨[bound], runs_bind.mpr ?_⟩
      obtain e | _ | q := o
      · cases ho
        exact .inr ⟨e, rfl, hp⟩
      · cases ho
      · cases ho
        exact .inl ⟨some q, t', s', hp, runs_pure.mpr ⟨rfl, rfl, rfl⟩⟩
    | cons x l ih =>
      obtain ⟨o₁, t₁, s₁⟩ := x
      obtain ⟨hfirst, hrun⟩ := hrun
      obtain ⟨bound, hp⟩ := (hstep ..).mp hfirst
      obtain ⟨bounds, hr⟩ := ih hrun fun y hy => hl y (by simp [hy])
      have ho₁ : o₁ = .ok none := hl (o₁, (t₁, s₁)) (by simp)
      subst ho₁
      exact ⟨bound :: bounds, runs_bind.mpr (.inl ⟨none, t₁, s₁, hp, hr⟩)⟩

end Interaction.Method
