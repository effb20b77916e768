import Mathlib.Logic.Basic

/-!
# Effect programs

A program that talks to shared state only through named operations, kept as a
tree: it either returns, or requests one operation and goes on with its reply.
The same tree has two readings. Run on its own it is a sequential function of
the state (`run`); taken one request at a time it is a thread of an interleaving.
So a routine is written once, and the claims about its sequential behaviour and
about its interleavings speak of the same definition.

Two signatures can be put side by side. A program over the first is then a program
over both (`lift`), and one that can only make the requests of the first: a routine
that is typed over less keeps whatever the operations of less keep.

Three rules carry the proofs of a development over this library:

- `wp` is the weakest precondition of a program, and `wp_bind` takes a routine
  apart at its sequence points;
- `Calls` bounds the operations a program can ever request, and
  `Calls.keeps` turns such a bound into a frame condition;
- `wp_forEach` is the invariant rule of a loop over a list.

An operation whose handler answers `none` has no behaviour: the program ends
there without a result.
-/

set_option autoImplicit false

namespace Ebotula.Library

/-- A signature of effects: the operations, and the type of each one's reply. -/
structure Sig where
  Op : Type
  Res : Op → Type

/-- A program over a signature: a result, or a request and its continuation. -/
inductive Prog (S : Sig) (α : Type) : Type where
  | ret (a : α)
  | call (o : S.Op) (k : S.Res o → Prog S α)

/-- What each operation does to the state, or `none` where it has no behaviour. -/
abbrev Handler (S : Sig) (σ : Type) := (o : S.Op) → σ → Option (S.Res o × σ)

namespace Prog

variable {S : Sig} {α β γ σ : Type}

/-- Sequencing: the second program continues wherever the first one returns. -/
def bind : Prog S α → (α → Prog S β) → Prog S β
  | ret a, f => f a
  | call o k, f => call o fun r => (k r).bind f

instance : Monad (Prog S) where
  pure := ret
  bind := bind

/-- The program that requests one operation and returns its reply. -/
def request (o : S.Op) : Prog S (S.Res o) := call o ret

theorem bind_ret (p : Prog S α) : p.bind ret = p := by
  induction p with
  | ret a => rfl
  | call o k ih => simp only [bind, ih]

theorem bind_assoc (p : Prog S α) (f : α → Prog S β) (g : β → Prog S γ) :
    (p.bind f).bind g = p.bind fun a => (f a).bind g := by
  induction p with
  | ret a => rfl
  | call o k ih => simp only [bind, ih]

instance : LawfulMonad (Prog S) :=
  LawfulMonad.mk' _ bind_ret (fun _ _ => rfl) bind_assoc

/-- A loop over a list: the body once for each item, in order. -/
def forEach (body : γ → Prog S Unit) : List γ → Prog S Unit
  | [] => pure ()
  | x :: l => do
    body x
    forEach body l

/-! ## The sequential reading -/

/-- Running a program to its end against a handler. -/
def run (H : Handler S σ) : Prog S α → σ → Option (α × σ)
  | ret a, s => some (a, s)
  | call o k, s => (H o s).bind fun r => (k r.1).run H r.2

/-- The weakest precondition: every run from `s` that ends does so in `Q`. -/
def wp (H : Handler S σ) (p : Prog S α) (Q : α → σ → Prop) (s : σ) : Prop :=
  ∀ a s', p.run H s = some (a, s') → Q a s'

variable {H : Handler S σ}

@[simp] theorem run_pure (a : α) (s : σ) : (pure a : Prog S α).run H s = some (a, s) := rfl

@[simp] theorem run_bind (p : Prog S α) (f : α → Prog S β) (s : σ) :
    (p >>= f).run H s = (p.run H s).bind fun r => (f r.1).run H r.2 := by
  show (p.bind f).run H s = _
  induction p generalizing s with
  | ret a => rfl
  | call o k ih => simp only [bind, run, ih, Option.bind_assoc]

theorem run_request (o : S.Op) (s : σ) : (request o : Prog S _).run H s = H o s := by
  simp only [request, run]
  exact Option.bind_fun_some _

@[simp] theorem wp_pure (a : α) (Q : α → σ → Prop) (s : σ) :
    (pure a : Prog S α).wp H Q s ↔ Q a s := by
  refine ⟨fun h => h a s rfl, fun h _ _ e => ?_⟩
  cases e
  exact h

@[simp] theorem wp_bind (p : Prog S α) (f : α → Prog S β) (Q : β → σ → Prop) (s : σ) :
    (p >>= f).wp H Q s ↔ p.wp H (fun a s' => (f a).wp H Q s') s := by
  simp only [wp, run_bind]
  constructor
  · intro h a s₁ hp b s₂ hf
    exact h b s₂ (by rw [hp]; exact hf)
  · intro h b s₂ e
    obtain ⟨⟨a, s₁⟩, hp, hf⟩ := Option.bind_eq_some_iff.mp e
    exact h a s₁ hp b s₂ hf

@[simp] theorem wp_ite {c : Prop} [Decidable c] (p q : Prog S α) (Q : α → σ → Prop) (s : σ) :
    (if c then p else q).wp H Q s ↔ (c → p.wp H Q s) ∧ (¬ c → q.wp H Q s) := by
  split
  · next h => simp only [h, forall_const, not_true_eq_false, false_implies, and_true]
  · next h => simp only [h, false_implies, not_false_eq_true, forall_const, true_and]

theorem wp_request (o : S.Op) (Q : S.Res o → σ → Prop) (s : σ) :
    (request o : Prog S _).wp H Q s ↔ ∀ r s', H o s = some (r, s') → Q r s' := by
  simp only [wp, run_request]

theorem wp_mono {p : Prog S α} {P Q : α → σ → Prop} {s : σ}
    (hp : p.wp H P s) (hPQ : ∀ a s', P a s' → Q a s') : p.wp H Q s :=
  fun a s' h => hPQ a s' (hp a s' h)

theorem wp_and {p : Prog S α} {P Q : α → σ → Prop} {s : σ}
    (hp : p.wp H P s) (hq : p.wp H Q s) : p.wp H (fun a s' => P a s' ∧ Q a s') s :=
  fun a s' h => ⟨hp a s' h, hq a s' h⟩

/-- The invariant rule of a loop over a list. -/
theorem wp_forEach {I : σ → Prop} {l : List γ} {body : γ → Prog S Unit}
    (step : ∀ x ∈ l, ∀ s, I s → (body x).wp H (fun _ => I) s) :
    ∀ s, I s → (forEach body l).wp H (fun _ => I) s := by
  induction l with
  | nil => exact fun s h => (wp_pure () _ s).mpr h
  | cons x l ih =>
    intro s h
    rw [forEach, wp_bind]
    refine wp_mono (step x List.mem_cons_self s h) fun _ s' h' => ?_
    exact ih (fun y hy => step y (List.mem_cons_of_mem _ hy)) s' h'

/-! ## The operations a program can request -/

/-- Every operation the program can ever request satisfies `P`. -/
def Calls (P : S.Op → Prop) : Prog S α → Prop
  | ret _ => True
  | call o k => P o ∧ ∀ r, (k r).Calls P

namespace Calls

variable {P Q : S.Op → Prop}

theorem pure (a : α) : Calls P (pure a : Prog S α) := trivial

theorem request {o : S.Op} (h : P o) : Calls P (Prog.request o) := ⟨h, fun _ => trivial⟩

theorem bind {p : Prog S α} {f : α → Prog S β} (hp : Calls P p) (hf : ∀ a, Calls P (f a)) :
    Calls P (p >>= f) := by
  show Calls P (p.bind f)
  induction p with
  | ret a => exact hf a
  | call o k ih => exact ⟨hp.1, fun r => ih r (hp.2 r)⟩

theorem ite {c : Prop} [Decidable c] {p q : Prog S α} (hp : Calls P p) (hq : Calls P q) :
    Calls P (if c then p else q) := by
  split
  · exact hp
  · exact hq

theorem forEach {l : List γ} {body : γ → Prog S Unit} (h : ∀ x, Calls P (body x)) :
    Calls P (Prog.forEach body l) := by
  induction l with
  | nil => trivial
  | cons x l ih => exact bind (h x) fun _ => ih

theorem mono {p : Prog S α} (hp : Calls P p) (h : ∀ o, P o → Q o) : Calls Q p := by
  induction p with
  | ret a => trivial
  | call o k ih => exact ⟨h o hp.1, fun r => ih r (hp.2 r)⟩

theorem any (p : Prog S α) : Calls (fun _ => True) p := by
  induction p with
  | ret a => trivial
  | call o k ih => exact ⟨trivial, ih⟩

/-- An invariant that every operation of a program keeps, the program keeps. -/
theorem wp_inv {p : Prog S α} {I : σ → Prop} (hp : Calls P p)
    (keep : ∀ o, P o → ∀ s r s', H o s = some (r, s') → I s → I s') :
    ∀ s, I s → p.wp H (fun _ => I) s := by
  induction p with
  | ret a => exact fun s h => (wp_pure a _ s).mpr h
  | call o k ih =>
    intro s h
    refine (wp_bind (Prog.request o) k _ s).mpr ((wp_request o _ s).mpr fun r s' e => ?_)
    exact ih r (hp.2 r) s' (keep o hp.1 s r s' e h)

/-- A program whose operations all have an answer runs to its end. -/
theorem total {p : Prog S α} (hp : Calls P p)
    (answers : ∀ o, P o → ∀ s, ∃ r, H o s = some r) : ∀ s, ∃ r, p.run H s = some r := by
  induction p with
  | ret a => exact fun s => ⟨(a, s), rfl⟩
  | call o k ih =>
    intro s
    obtain ⟨⟨r, s'⟩, hr⟩ := answers o hp.1 s
    obtain ⟨r', hr'⟩ := ih r (hp.2 r) s'
    exact ⟨r', by rw [run, hr, Option.bind_some, hr']⟩

/-- The frame rule: what no operation of a program changes, the program leaves alone. -/
theorem keeps {p : Prog S α} {δ : Type} {f : σ → δ} (hp : Calls P p)
    (keep : ∀ o, P o → ∀ s r s', H o s = some (r, s') → f s' = f s) (s : σ) :
    p.wp H (fun _ s' => f s' = f s) s :=
  hp.wp_inv (I := fun s' => f s' = f s)
    (fun o ho s₁ r s₂ e h => (keep o ho s₁ r s₂ e).trans h) s rfl

end Calls

/-- Every request that the program makes in a run from `s` satisfies `P`. -/
def CallsFrom (H : Handler S σ) (P : S.Op → Prop) : Prog S α → σ → Prop
  | ret _, _ => True
  | call o k, s => P o ∧ ∀ r s', H o s = some (r, s') → (k r).CallsFrom H P s'

theorem Calls.callsFrom {H : Handler S σ} {P : S.Op → Prop} {p : Prog S α} (h : p.Calls P) (s : σ) :
    p.CallsFrom H P s := by
  induction p generalizing s with
  | ret a => trivial
  | call o k ih => exact ⟨h.1, fun r s' _ => ih r (h.2 r) s'⟩

/-- A request that is answered with `r` leads on to the rest for `r`. -/
theorem callsFrom_request {H : Handler S σ} {P : S.Op → Prop} {o : S.Op} {r : S.Res o}
    {f : S.Res o → Prog S β} {s s' : σ} (h : H o s = some (r, s')) :
    (request o >>= f).CallsFrom H P s ↔ P o ∧ (f r).CallsFrom H P s' := by
  refine and_congr_right' ⟨fun hall => hall r s' h, fun hrest r' s'' h' => ?_⟩
  rw [h] at h'
  cases h'
  exact hrest

/-- Whatever its requests are answered, what the program returns satisfies `P`. -/
def Returns (P : α → Prop) : Prog S α → Prop
  | ret a => P a
  | call _ k => ∀ r, (k r).Returns P

theorem Returns.any (p : Prog S α) : p.Returns fun _ => True := by
  induction p with
  | ret a => trivial
  | call o k ih => exact ih

theorem Returns.wp {P : α → Prop} {p : Prog S α} (h : p.Returns P) (s : σ) :
    p.wp H (fun a _ => P a) s := by
  induction p generalizing s with
  | ret a => exact (wp_pure a _ s).mpr h
  | call o k ih =>
    refine (wp_bind (Prog.request o) k _ s).mpr ((wp_request o _ s).mpr fun r s' _ => ?_)
    exact ih r (h r) s'

theorem Returns.bind {P : α → Prop} {Q : β → Prop} {p : Prog S α} {f : α → Prog S β}
    (hp : p.Returns P) (hf : ∀ a, P a → (f a).Returns Q) : (p >>= f).Returns Q := by
  show (p.bind f).Returns Q
  induction p with
  | ret a => exact hf a hp
  | call o k ih => exact fun r => ih r (hp r)

end Prog

/-! ## A part of the state -/

/-- The handler on a state that has another part beside its own. -/
def Handler.beside {S : Sig} {σ : Type} (H : Handler S σ) (τ : Type) : Handler S (σ × τ) :=
  fun o s => (H o s.1).map fun r => (r.1, (r.2, s.2))

theorem Prog.run_beside {S : Sig} {α σ τ : Type} {H : Handler S σ} (p : Prog S α) (s : σ) (t : τ) :
    p.run (H.beside τ) (s, t) = (p.run H s).map fun r => (r.1, (r.2, t)) := by
  induction p generalizing s with
  | ret a => rfl
  | call o k ih =>
    rw [run, run, Handler.beside, Option.bind_map, Option.map_bind]
    exact congrArg (H o s).bind (funext fun r => ih r.1 r.2)

/-! ## Two signatures side by side -/

/-- The operations of either signature. -/
def Sig.sum (S T : Sig) : Sig := ⟨S.Op ⊕ T.Op, Sum.elim S.Res T.Res⟩

/-- Handlers of two signatures over one state. -/
def Handler.sum {S T : Sig} {σ : Type} (H : Handler S σ) (K : Handler T σ) :
    Handler (S.sum T) σ
  | .inl o => H o
  | .inr o => K o

namespace Prog

variable {S T : Sig} {α β σ : Type}

/-- A program over the first signature, as one over both. -/
def lift : Prog S α → Prog (S.sum T) α
  | ret a => ret a
  | call o k => call (S := S.sum T) (.inl o) fun r => (k r).lift

/-- A request of the second signature. -/
def requestRight (o : T.Op) : Prog (S.sum T) (T.Res o) := request (S := S.sum T) (.inr o)

instance : MonadLift (Prog S) (Prog (S.sum T)) := ⟨lift⟩

@[simp] theorem liftM_eq (p : Prog S α) : (liftM p : Prog (S.sum T) α) = p.lift := rfl

variable {H : Handler S σ} {K : Handler T σ}

@[simp] theorem run_lift (p : Prog S α) (s : σ) :
    (p.lift : Prog (S.sum T) α).run (H.sum K) s = p.run H s := by
  induction p generalizing s with
  | ret a => rfl
  | call o k ih =>
    rw [lift, run]
    exact congrArg (H o s).bind (funext fun r => ih r.1 r.2)

@[simp] theorem wp_lift (p : Prog S α) (Q : α → σ → Prop) (s : σ) :
    (p.lift : Prog (S.sum T) α).wp (H.sum K) Q s ↔ p.wp H Q s := by
  simp only [wp, run_lift]

theorem Returns.lift {P : α → Prop} {p : Prog S α} (h : p.Returns P) :
    (p.lift : Prog (S.sum T) α).Returns P := by
  induction p with
  | ret a => exact h
  | call o k ih => exact fun r => ih r (h r)

theorem Calls.lift {P : (S.sum T).Op → Prop} {p : Prog S α}
    (h : Calls (fun o => P (.inl o)) p) : Calls P (p.lift : Prog (S.sum T) α) := by
  induction p with
  | ret a => trivial
  | call o k ih => exact ⟨h.1, fun r => ih r (h.2 r)⟩

end Prog

end Ebotula.Library
