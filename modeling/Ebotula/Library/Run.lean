import Mathlib.Logic.Basic

/-!
# Runs of a machine under a condition

A machine here is a partial step function: a state and an event give the next
state, or nothing where the event has no behaviour. `Run` is a finite sequence of
its steps, each taken from a state where the condition `ok` holds; the condition
that is always true gives every run.

`Run.invariant` is the one induction over runs of a property of states, and `Run.along`
that of a property of steps. A law about reachable states is
then two facts: the property holds at the start, and one step keeps it.
-/

set_option autoImplicit false

namespace Ebotula.Library

variable {σ ε : Type}

/-- A run from one state to another along a list of events, every step taken
where `ok` holds. -/
inductive Run (step : σ → ε → Option σ) (ok : σ → ε → Prop) : σ → List ε → σ → Prop
  | nil (s : σ) : Run step ok s [] s
  | cons {s t u : σ} {e : ε} {es : List ε} :
      ok s e → step s e = some t → Run step ok t es u → Run step ok s (e :: es) u

namespace Run

variable {step : σ → ε → Option σ} {ok ok' : σ → ε → Prop}

/-- What one step keeps, a run keeps. -/
theorem invariant {I : σ → Prop}
    (keep : ∀ s e t, I s → ok s e → step s e = some t → I t)
    {s t : σ} {es : List ε} (run : Run step ok s es t) (start : I s) : I t := by
  induction run with
  | nil => exact start
  | cons hok hstep _ ih => exact ih (keep _ _ _ start hok hstep)

/-- A condition may be weakened wherever an invariant of the run allows it. -/
theorem weaken {I : σ → Prop}
    (keep : ∀ s e t, I s → ok s e → step s e = some t → I t)
    (weaker : ∀ s e, I s → ok s e → ok' s e)
    {s t : σ} {es : List ε} (run : Run step ok s es t) (start : I s) : Run step ok' s es t := by
  induction run with
  | nil => exact .nil _
  | cons hok hstep _ ih =>
    exact .cons (weaker _ _ start hok) hstep (ih (keep _ _ _ start hok hstep))

theorem mono (weaker : ∀ s e, ok s e → ok' s e) {s t : σ} {es : List ε}
    (run : Run step ok s es t) : Run step ok' s es t :=
  run.weaken (I := fun _ => True) (fun _ _ _ _ _ _ => trivial) (fun s e _ => weaker s e) trivial

theorem append {s t u : σ} {es fs : List ε} (first : Run step ok s es t)
    (rest : Run step ok t fs u) : Run step ok s (es ++ fs) u := by
  induction first with
  | nil => exact rest
  | cons hok hstep _ ih => exact .cons hok hstep (ih rest)

/-- What holds at the end of a run has held all the time, or there is a step from which on it
has held. -/
theorem since {P : σ → Prop} {s t : σ} {es : List ε} (run : Run step ok s es t) (last : P t) :
    Run step (fun s _ => P s) s es t ∨
      ∃ es₁ e es₂ u v, es = es₁ ++ e :: es₂ ∧ Run step ok s es₁ u ∧ ok u e ∧
        step u e = some v ∧ ¬ P u ∧ P v ∧ Run step (fun s _ => P s) v es₂ t := by
  induction run with
  | nil => exact .inl (.nil _)
  | @cons s₀ s₁ _ e es hok hstep rest ih =>
    rcases ih last with lasts | ⟨es₁, e', es₂, u, v, rfl, before, hlater⟩
    · have hnow : P s₁ := by
        cases lasts with
        | nil => exact last
        | cons hP => exact hP
      by_cases hfirst : P s₀
      · exact .inl (.cons hfirst hstep lasts)
      · exact .inr ⟨[], e, es, s₀, s₁, rfl, .nil _, hok, hstep, hfirst, hnow, lasts⟩
    · exact .inr ⟨e :: es₁, e', es₂, u, v, rfl, .cons hok hstep before, hlater⟩

/-- A run is a run of another machine, if each step is one of its own between states that stand
for each other. -/
theorem simulate {τ : Type} {step' : τ → ε → Option τ} {ok' : τ → ε → Prop} {R : σ → τ → Prop}
    (one : ∀ s o e t, R s o → ok s e → step s e = some t →
      ok' o e ∧ ∃ u, step' o e = some u ∧ R t u)
    {s t : σ} {o : τ} {es : List ε} (run : Run step ok s es t) (start : R s o) :
    ∃ u, Run step' ok' o es u ∧ R t u := by
  induction run generalizing o with
  | nil => exact ⟨o, .nil o, start⟩
  | cons hok hstep _ ih =>
    obtain ⟨hok', u, hu, hR⟩ := one _ _ _ _ start hok hstep
    obtain ⟨v, run', hv⟩ := ih hR
    exact ⟨v, .cons hok' hu run', hv⟩

/-- The steps of a list of events, one after the other, as far as a decidable condition
lets them. -/
def steps (step : σ → ε → Option σ) (ok : σ → ε → Bool) (s : σ) (es : List ε) : Option σ :=
  es.foldlM (fun s e => if ok s e then step s e else none) s

/-- What is computed is a run. -/
theorem of_steps {ok : σ → ε → Bool} {s t : σ} {es : List ε} (h : steps step ok s es = some t) :
    Run step (fun s e => ok s e = true) s es t := by
  induction es generalizing s with
  | nil =>
    cases h
    exact .nil _
  | cons e es ih =>
    rw [steps, List.foldlM_cons] at h
    obtain ⟨s₁, hs₁, hrest⟩ := Option.bind_eq_some_iff.mp h
    split at hs₁
    · next hok => exact .cons hok hs₁ (ih hrest)
    · cases hs₁

end Run

/-- What is seen along the events, by what one step shows in the state before it. -/
def observed {κ : Type} (step : σ → ε → Option σ) (see : σ → ε → List κ) : σ → List ε → List κ
  | _, [] => []
  | s, e :: es => see s e ++ ((step s e).map fun t => observed step see t es).getD []

/-- What one step keeps of a state and of what has been seen so far, a run keeps. -/
theorem Run.history {κ : Type} {step : σ → ε → Option σ} {ok : σ → ε → Prop}
    {see : σ → ε → List κ} {I : List κ → σ → Prop}
    (keep : ∀ seen s e t, I seen s → ok s e → step s e = some t → I (seen ++ see s e) t)
    {seen : List κ} {s t : σ} {es : List ε} (run : Run step ok s es t) (start : I seen s) :
    I (seen ++ observed step see s es) t := by
  induction run generalizing seen with
  | nil => exact (List.append_nil seen).symm ▸ start
  | cons hok hstep _ ih =>
    rw [observed, hstep, Option.map_some, Option.getD_some, ← List.append_assoc]
    exact ih (keep _ _ _ _ start hok hstep)

/-- `P` holds of every step that is taken along the events: of the state before it, the
event and the state after it. -/
def Along (step : σ → ε → Option σ) (P : σ → ε → σ → Prop) : σ → List ε → Prop
  | _, [] => True
  | s, e :: es => ∀ t, step s e = some t → P s e t ∧ Along step P t es

/-- What holds of one step under the condition of a run holds of all its steps. -/
theorem Run.along {step : σ → ε → Option σ} {ok : σ → ε → Prop} {P : σ → ε → σ → Prop}
    (one : ∀ s e t, ok s e → step s e = some t → P s e t)
    {s t : σ} {es : List ε} (run : Run step ok s es t) : Along step P s es := by
  induction run with
  | nil => trivial
  | cons hok hstep _ ih =>
    intro t' hstep'
    obtain rfl := Option.some.inj (hstep.symm.trans hstep')
    exact ⟨one _ _ _ hok hstep, ih⟩

end Ebotula.Library
