import Ebotula.Library.Interleave

/-!
# Contracts

What a program asks of the state it works on, and what it may rely on in return. A contract
names the requests a program keeps to and the replies it is given to them; a program honors
the contract if it keeps to these requests for as long as it is given these replies. The
other side is an invariant of the state: a handler upholds the contract under it if the
requests are answered as promised and leave the invariant standing.

Nothing in this refers to what else happens to the state between two requests. So the two
sides together say the same of a run on its own (`Honors.wp`) and of every interleaving of
programs that honor their contracts (`Threads.keeps_contract`), where each program relies on
what all the others guarantee.
-/

set_option autoImplicit false

namespace Ebotula.Library

/-- The requests a program keeps to, and the replies it may rely on. -/
structure Contract (S : Sig) where
  asks : S.Op → Prop
  gets : (o : S.Op) → S.Res o → Prop

namespace Contract

variable {S T : Sig} {σ : Type}

/-- The requests of the contract are answered as it promises, and keep the invariant. -/
def Upheld (C : Contract S) (H : Handler S σ) (I : σ → Prop) : Prop :=
  ∀ o s r s', C.asks o → I s → H o s = some (r, s') → C.gets o r ∧ I s'

/-- Contracts over two signatures, side by side. -/
def sum (C : Contract S) (D : Contract T) : Contract (S.sum T) where
  asks := Sum.elim C.asks D.asks
  gets
    | .inl o => C.gets o
    | .inr o => D.gets o

theorem Upheld.sum {C : Contract S} {D : Contract T} {H : Handler S σ} {K : Handler T σ}
    {I : σ → Prop} (hC : C.Upheld H I) (hD : D.Upheld K I) :
    (C.sum D).Upheld (H.sum K) I
  | .inl o, s, r, s' => hC o s r s'
  | .inr o, s, r, s' => hD o s r s'

end Contract

namespace Prog

variable {S T : Sig} {α β γ σ : Type} {C : Contract S} {D : Contract T}

/-- The program keeps to the requests of the contract for as long as it is given the replies
of the contract, and what it returns then satisfies `Q`. -/
def Honors (C : Contract S) (Q : α → Prop) : Prog S α → Prop
  | ret a => Q a
  | call o k => C.asks o ∧ ∀ r, C.gets o r → (k r).Honors C Q

@[simp] theorem honors_pure {a : α} {Q : α → Prop} : (pure a : Prog S α).Honors C Q ↔ Q a :=
  Iff.rfl

@[simp] theorem honors_bind {p : Prog S α} {f : α → Prog S β} {Q : β → Prop} :
    (p >>= f).Honors C Q ↔ p.Honors C fun a => (f a).Honors C Q := by
  show (p.bind f).Honors C Q ↔ _
  induction p with
  | ret a => exact Iff.rfl
  | call o k ih => exact and_congr_right' (forall₂_congr fun r _ => ih r)

@[simp] theorem honors_ite {c : Prop} [Decidable c] {p q : Prog S α} {Q : α → Prop} :
    (if c then p else q).Honors C Q ↔ (c → p.Honors C Q) ∧ (¬ c → q.Honors C Q) := by
  split
  · next h => simp only [h, forall_const, not_true_eq_false, false_implies, and_true]
  · next h => simp only [h, false_implies, not_false_eq_true, forall_const, true_and]

theorem Honors.mono {p : Prog S α} {P Q : α → Prop} (hp : p.Honors C P) (h : ∀ a, P a → Q a) :
    p.Honors C Q := by
  induction p with
  | ret a => exact h a hp
  | call o k ih => exact ⟨hp.1, fun r hr => ih r (hp.2 r hr)⟩

theorem Honors.ret {a : α} {Q : α → Prop} (h : Q a) : (pure a : Prog S α).Honors C Q := h

/-- A program and, with what it returns, the program that goes on from there. -/
theorem Honors.bind {p : Prog S α} {f : α → Prog S β} {P : α → Prop} {Q : β → Prop}
    (hp : p.Honors C P) (hf : ∀ a, P a → (f a).Honors C Q) : (p >>= f).Honors C Q :=
  honors_bind.mpr (hp.mono hf)

theorem Honors.seq {p : Prog S α} {f : α → Prog S β} {Q : β → Prop}
    (h : p.Honors C fun a => (f a).Honors C Q) : (p >>= f).Honors C Q := honors_bind.mpr h

/-- A step that is made on a condition only, and the rest of the program behind it. -/
theorem Honors.optional {c : Prop} [Decidable c] {p : Prog S γ} {q : Prog S α} {Q : α → Prop}
    (hp : p.Honors C fun _ => True) (hq : q.Honors C Q) :
    (if c then p >>= fun _ => q else q).Honors C Q := by
  split
  · exact hp.bind fun _ _ => hq
  · exact hq

/-- A loop over a list honors a contract if each turn does. -/
theorem honors_forEach {l : List γ} {body : γ → Prog S Unit} {Q : Unit → Prop}
    (h : ∀ x ∈ l, (body x).Honors C fun _ => True) (hQ : Q ()) : (forEach body l).Honors C Q := by
  induction l with
  | nil => exact hQ
  | cons x l ih =>
    rw [forEach, honors_bind]
    exact (h x List.mem_cons_self).mono fun _ _ => ih fun y hy => h y (List.mem_cons_of_mem _ hy)

@[simp] theorem honors_lift {p : Prog S α} {Q : α → Prop} :
    (p.lift : Prog (S.sum T) α).Honors (C.sum D) Q ↔ p.Honors C Q := by
  induction p with
  | ret a => exact Iff.rfl
  | call o k ih => exact and_congr_right' (forall₂_congr fun r _ => ih r)

theorem Honors.lift {p : Prog S α} {Q : α → Prop} (h : p.Honors C Q) :
    (p.lift : Prog (S.sum T) α).Honors (C.sum D) Q := honors_lift.mpr h

/-- On its own, a program that honors a contract keeps the invariant the contract is upheld
under. -/
theorem Honors.wp {p : Prog S α} {H : Handler S σ} {I : σ → Prop} {Q : α → Prop}
    (hC : C.Upheld H I) (hp : p.Honors C Q) : ∀ s, I s → p.wp H (fun a s' => Q a ∧ I s') s := by
  induction p with
  | ret a => exact fun s hs => (wp_pure a _ s).mpr ⟨hp, hs⟩
  | call o k ih =>
    intro s hs
    refine (wp_bind (Prog.request o) k _ s).mpr ((wp_request o _ s).mpr fun r s' e => ?_)
    obtain ⟨hgets, hs'⟩ := hC o s r s' hp.1 hs e
    exact ih r (hp.2 r hgets) s' hs'

end Prog

namespace Threads

variable {S : Sig} {ι σ : Type} [DecidableEq ι] {C : ι → Contract S} {H : ι → Handler S σ}
  {I : σ → Prop} {ok : Threads S ι σ → ι → Prop} {c c' : Threads S ι σ} {es : List ι}

/-- Every thread honors its contract in what is left of its program. -/
def Honor (C : ι → Contract S) (c : Threads S ι σ) : Prop :=
  ∀ i, (c.left i).Honors (C i) fun _ => True

theorem step_contract (upheld : ∀ i, (C i).Upheld (H i) I) {i : ι} (hstep : c.step H i = some c')
    (h : I c.shared ∧ c.Honor C) : I c'.shared ∧ c'.Honor C := by
  obtain ⟨hI, hleft⟩ := h
  obtain ⟨o, k, r, s', hi, hr, rfl⟩ := step_cases hstep
  have hcall : (Prog.call o k).Honors (C i) fun _ => True := hi ▸ hleft i
  obtain ⟨hgets, hs'⟩ := upheld i o c.shared r s' hcall.1 hI hr
  exact ⟨hs', update_left (P := fun j p => p.Honors (C j) fun _ => True) (hcall.2 r hgets)
    fun j _ => hleft j⟩

/-- Threads that honor their contracts keep the invariant under every schedule. -/
theorem keeps_contract (upheld : ∀ i, (C i).Upheld (H i) I) (run : Run (step H) ok c es c')
    (start : I c.shared) (honor : c.Honor C) : I c'.shared ∧ c'.Honor C :=
  run.invariant (I := fun c => I c.shared ∧ c.Honor C)
    (fun _ _ _ h _ hstep => step_contract upheld hstep h) ⟨start, honor⟩

end Threads

end Ebotula.Library
