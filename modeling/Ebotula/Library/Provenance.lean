import Ebotula.Library.Run

/-!
# Where what holds comes from

Of the states of a machine things hold, one by one: a right, a session, an entry. A thing that
holds after a run has held since the start, or an event has made it, or an event has made it out
of another thing that held. `Traced` is such a story, read in the steps of the run with the states
they were taken from, and nothing in it has stopped holding in between. `Run.traced` needs no more
than one step: a reason for each thing that holds after it.
-/

set_option autoImplicit false

namespace Ebotula.Library

/-- What can be behind a thing. -/
structure Origins (σ ε κ : Type) where
  holds : σ → κ → Prop
  /-- The event makes it. -/
  makes : σ → ε → κ → Prop
  /-- The event makes the second out of the first. -/
  carries : σ → ε → κ → κ → Prop

variable {σ ε κ : Type}

/-- The steps of a run with the states they were taken from. -/
def noted (s : σ) (e : ε) : List (σ × ε) := [(s, e)]

namespace Origins

/-- How a thing has come to hold, in the steps so far from `start` on. -/
inductive Traced (o : Origins σ ε κ) (start : σ) : List (σ × ε) → κ → Prop
  | original {x : κ} (held : o.holds start x) : Traced o start [] x
  | lasted {seen : List (σ × ε)} {s : σ} {e : ε} {x : κ} (before : Traced o start seen x)
      (held : o.holds s x) : Traced o start (seen ++ [(s, e)]) x
  | made {seen : List (σ × ε)} {s : σ} {e : ε} {x : κ} (hmakes : o.makes s e x) :
      Traced o start (seen ++ [(s, e)]) x
  | carried {seen : List (σ × ε)} {s : σ} {e : ε} {x y : κ} (before : Traced o start seen x)
      (held : o.holds s x) (hcarries : o.carries s e x y) : Traced o start (seen ++ [(s, e)]) y

/-- Why a thing holds after a step. -/
def Explains (o : Origins σ ε κ) (s : σ) (e : ε) (y : κ) : Prop :=
  o.holds s y ∨ o.makes s e y ∨ ∃ x, o.holds s x ∧ o.carries s e x y

end Origins

/-- If each step explains what holds after it, everything that holds after a run is traced. -/
theorem Run.traced {o : Origins σ ε κ} {step : σ → ε → Option σ} {ok : σ → ε → Prop}
    (explain : ∀ s e t, ok s e → step s e = some t → ∀ y, o.holds t y → o.Explains s e y)
    {s t : σ} {es : List ε} (run : Run step ok s es t) {y : κ} (hy : o.holds t y) :
    o.Traced s (observed step noted s es) y := by
  have traced : ∀ y, o.holds t y → o.Traced s ([] ++ observed step noted s es) y :=
    run.history (I := fun seen t => ∀ y, o.holds t y → o.Traced s seen y)
      (fun seen s₁ e t ih hok hstep y hy => by
        rcases explain s₁ e t hok hstep y hy with held | hmakes | ⟨x, held, hcarries⟩
        · exact .lasted (ih y held) held
        · exact .made hmakes
        · exact .carried (ih x held) held hcarries)
      fun _ held => .original held
  exact traced y hy

end Ebotula.Library
