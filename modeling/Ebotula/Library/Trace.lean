import Ebotula.Library.Prog

/-!
# What is seen of a run

An observer of a program is told something of each request at the moment it is made, and of the
state it is made in. `emits` is all that it has been told when the run is over: at the end of the
program, or at a request that has no behaviour.

A run is taken apart at the sequence points of its program (`emits_bind`), and two runs of one
program look the same from two states that its requests cannot tell apart (`Calls.emits_congr`).
-/

set_option autoImplicit false

namespace Ebotula.Library.Prog

variable {S T : Sig} {α β σ E F : Type}

/-- What is seen of the run of a program from a state. -/
def emits (H : Handler S σ) (see : S.Op → σ → List E) : Prog S α → σ → List E
  | ret _, _ => []
  | call o k, s => see o s ++ (H o s).elim [] fun r => (k r.1).emits H see r.2

section Emits

variable {H : Handler S σ} {see : S.Op → σ → List E}

@[simp] theorem emits_pure (a : α) (s : σ) : (pure a : Prog S α).emits H see s = [] := rfl

/-- What is seen of a program that goes on: what is seen up to there, and of the rest. -/
theorem emits_bind (p : Prog S α) (f : α → Prog S β) (s : σ) : (p >>= f).emits H see s =
    p.emits H see s ++ (p.run H s).elim [] fun r => (f r.1).emits H see r.2 := by
  show (p.bind f).emits H see s = _
  induction p generalizing s with
  | ret a => rfl
  | call o k ih =>
    rw [bind, emits, emits, run, List.append_assoc]
    refine congrArg (see o s ++ ·) ?_
    cases H o s with
    | none => rfl
    | some r => exact ih r.1 r.2

theorem emits_bind_of_run {p : Prog S α} {f : α → Prog S β} {s s' : σ} {a : α}
    (h : p.run H s = some (a, s')) :
    (p >>= f).emits H see s = p.emits H see s ++ (f a).emits H see s' := by
  rw [emits_bind, h]
  rfl

theorem emits_request (o : S.Op) (s : σ) : (request o : Prog S _).emits H see s = see o s := by
  rw [request, emits]
  cases H o s with
  | none => exact List.append_nil _
  | some r => exact List.append_nil _

/-- A request that has an answer, and what is seen of the rest. -/
theorem emits_request_bind {o : S.Op} {r : S.Res o} {f : S.Res o → Prog S β} {s s' : σ}
    (h : H o s = some (r, s')) :
    (request o >>= f).emits H see s = see o s ++ (f r).emits H see s' := by
  rw [emits_bind_of_run ((run_request o s).trans h), emits_request]

/-- To look at less of each request is to look at less of the whole. -/
theorem map_emits (f : E → F) (p : Prog S α) (s : σ) :
    (p.emits H see s).map f = p.emits H (fun o s => (see o s).map f) s := by
  induction p generalizing s with
  | ret a => rfl
  | call o k ih =>
    rw [emits, emits, List.map_append]
    refine congrArg ((see o s).map f ++ ·) ?_
    cases H o s with
    | none => rfl
    | some r => exact ih r.1 r.2

namespace Calls

variable {P : S.Op → Prop} {p : Prog S α}

/-- A program none of whose requests shows anything. -/
theorem emits_nil (hp : Calls P p) (blind : ∀ o, P o → ∀ s, see o s = []) (s : σ) :
    p.emits H see s = [] := by
  induction p generalizing s with
  | ret a => rfl
  | call o k ih =>
    rw [emits, blind o hp.1, List.nil_append]
    cases H o s with
    | none => rfl
    | some r => exact ih r.1 (hp.2 r.1) r.2

/-- From two states that its requests cannot tell apart, a program looks the same. -/
theorem emits_congr {R : σ → σ → Prop} (hp : Calls P p)
    (alike : ∀ o, P o → ∀ s t, R s t → see o s = see o t ∧
      ∃ r s' t', H o s = some (r, s') ∧ H o t = some (r, t') ∧ R s' t') {s t : σ} (h : R s t) :
    p.emits H see s = p.emits H see t := by
  induction p generalizing s t with
  | ret a => rfl
  | call o k ih =>
    obtain ⟨hsee, r, s', t', hs, ht, hR⟩ := alike o hp.1 s t h
    rw [emits, emits, hsee, hs, ht]
    exact congrArg (see o t ++ ·) (ih r (hp.2 r) hR)

end Calls

end Emits

/-- Over two signatures, a program over the first shows what it does there. -/
theorem emits_lift {H : Handler S σ} {K : Handler T σ} {see : S.Op → σ → List E}
    {see' : T.Op → σ → List E} (p : Prog S α) (s : σ) :
    (p.lift : Prog (S.sum T) α).emits (H.sum K) (Sum.elim see see') s = p.emits H see s := by
  induction p generalizing s with
  | ret a => rfl
  | call o k ih =>
    refine congrArg (see o s ++ ·) ?_
    show (H o s).elim [] (fun r => ((k r.1).lift).emits (H.sum K) (Sum.elim see see') r.2) =
      (H o s).elim [] fun r => (k r.1).emits H see r.2
    cases H o s with
    | none => rfl
    | some r => exact ih r.1 r.2

end Ebotula.Library.Prog
