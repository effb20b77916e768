import Mathlib.Data.List.Basic

/-!
# Wildcards

Patterns over an alphabet in which one symbol stands for any string and every other for itself.
The patterns are built up by concatenation, and so are what they match.
-/

set_option autoImplicit false

namespace Ebotula.Library

variable {α : Type}

/-- The pattern matches the string. -/
inductive Wildcard (any : α) : List α → List α → Prop
  | nil : Wildcard any [] []
  | char (c : α) {p s : List α} (h : Wildcard any p s) : Wildcard any (c :: p) (c :: s)
  | skip {p s : List α} (h : Wildcard any p s) : Wildcard any (any :: p) s
  | take (c : α) {p s : List α} (h : Wildcard any (any :: p) s) : Wildcard any (any :: p) (c :: s)

namespace Wildcard

variable {any : α} {p q s t : List α}

/-- Every string matches itself. -/
theorem refl (s : List α) : Wildcard any s s := by
  induction s with
  | nil => exact .nil
  | cons c s ih => exact .char c ih

/-- The wildcard takes any string in front of what the rest matches. -/
theorem any_append (h : Wildcard any p s) (x : List α) : Wildcard any (any :: p) (x ++ s) := by
  induction x with
  | nil => exact .skip h
  | cons c x ih => exact .take c ih

theorem append (hp : Wildcard any p s) (hq : Wildcard any q t) :
    Wildcard any (p ++ q) (s ++ t) := by
  induction hp with
  | nil => exact hq
  | char c _ ih => exact .char c ih
  | skip _ ih => exact .skip ih
  | take c _ ih => exact .take c ih

end Wildcard

end Ebotula.Library
