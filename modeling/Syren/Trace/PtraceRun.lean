import Syren.Interaction.Run
import Syren.Trace.PtraceCases

/-! Runs of the `ptrace` backend: successive calls of `next_event`, observed between any two
passes of its loop. -/
namespace Syren.PtraceTracer
open Interaction Interaction.Method

variable {σ : Type} {env : Kernel σ}

def passStep (env : Kernel σ) (a : PtraceTracer × σ) (o : Outcome) (b : PtraceTracer × σ) : Prop :=
  Runs env nextEventPass a.1 a.2 o b.1 b.2

/-- Runs of the tracer under the kernel `env`. -/
abbrev TracerRun (init : PtraceTracer × σ → Prop) (env : Kernel σ) := Run init (passStep env)

theorem passStep_iff {a b : PtraceTracer × σ} {o : Outcome} :
    passStep env a o b ↔ Pass env a.1 a.2 o b.1 b.2 := runs_nextEventPass

theorem passStep_handled {a b : PtraceTracer × σ} {s₁ s₂ : σ} {e : Option Event} (st : WaitStatus)
    (hr : Resumed env a.1 a.2 s₁) (hl : a.1.live ≠ ∅) (hw : env s₁ .waitAny (.ok st) s₂)
    (hh : Handled env a.1.ready s₂ st (.ok e) b.1 b.2) : passStep env a (.ok (e.map some)) b :=
  passStep_iff.mpr (.handled hr hl hw hh)

/-- The event that a pass makes `next_event` return. -/
def eventOf : Outcome → Option Event
  | .ok (some (some ev)) => some ev
  | _ => none

/-- The events that the calls of a run have returned, in order. -/
def events (steps : List (Outcome × (PtraceTracer × σ))) : List Event :=
  steps.filterMap fun x => eventOf x.1

@[simp] theorem events_nil : events ([] : List (Outcome × (PtraceTracer × σ))) = [] := rfl

@[simp] theorem events_concat (l : List (Outcome × (PtraceTracer × σ)))
    (x : Outcome × (PtraceTracer × σ)) : events (l ++ [x]) = events l ++ (eventOf x.1).toList := by
  cases h : eventOf x.1 <;> simp [events, h]

/-- A call of `next_event` is a run of passes that all go round but the last, which returns. -/
theorem runs_nextEvent_iff {t t' : PtraceTracer} {s s' : σ} {r : Except TraceError (Option Event)} :
    (∃ fuel, Runs env (nextEvent fuel) t s r t' s') ↔
      ∃ l o, IsRun (passStep env) (t, s) (l ++ [(o, (t', s'))]) ∧ (∀ x ∈ l, x.1 = .ok none) ∧
        returned o = some r := by
  have hstep (a o b) : passStep env a o b ↔
      ∃ _ : Unit, Runs env nextEventPass a.1 a.2 o b.1 b.2 := (exists_const Unit).symm
  rw [← runs_loop_iff hstep]
  constructor
  · rintro ⟨fuel, h⟩
    exact ⟨_, h⟩
  · rintro ⟨bounds, h⟩
    refine ⟨bounds.length, ?_⟩
    have hunits : bounds = List.replicate bounds.length () :=
      List.eq_replicate_iff.mpr ⟨rfl, fun _ _ => rfl⟩
    rw [nextEvent, ← hunits]
    exact h

end Syren.PtraceTracer
