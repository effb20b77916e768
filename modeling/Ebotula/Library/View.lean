import Ebotula.Library.Interleave

/-!
# Programs seen through a view

Of a shared state only a part may matter, its view. `View` says of each operation what it
does to the view: it answers from the view and changes it, or it has nothing to do with it
and may answer anything. What a program makes of the view is then a matter of the program
alone, as long as the answers that are left open make no difference: `Yields` is that
relation, and `Yields.run_ends` and `Yields.step` say how programs run by it, alone and
among others.

A job that is handled after another one may begin before the other has ended, as long as
it can still catch up: from whatever view the first job leaves, what is left of the second
yields what the whole of it yields. `in_order` is that rule.
-/

set_option autoImplicit false

namespace Ebotula.Library

/-- What an operation with replies in `R` does, as far as a view in `V` is concerned. A
`stuck` operation is never answered, and `wild` stands for what is not requested. -/
inductive Act (R V : Type) where
  | apart
  | on (f : V → R × V)
  | stuck
  | wild

/-- What each operation does to a view. -/
abbrev View (S : Sig) (V : Type) := (o : S.Op) → Act (S.Res o) V

namespace View

variable {S : Sig} {V α β σ : Type} {view : View S V} {get : σ → V} {H : Handler S σ}

/-- The handler does what the view says. -/
def Lawful (view : View S V) (get : σ → V) (H : Handler S σ) : Prop :=
  ∀ o s, match view o with
    | .apart => ∃ r s', H o s = some (r, s') ∧ get s' = get s
    | .on f => ∃ s', H o s = some ((f (get s)).1, s') ∧ get s' = (f (get s)).2
    | .stuck => H o s = none
    | .wild => True

section Lawful

variable (lawful : Lawful view get H) {o : S.Op} (s : σ)

include lawful

theorem Lawful.apart (ho : view o = .apart) : ∃ r s', H o s = some (r, s') ∧ get s' = get s := by
  have := lawful o s
  rwa [ho] at this

theorem Lawful.on {f : V → S.Res o × V} (ho : view o = .on f) :
    ∃ s', H o s = some ((f (get s)).1, s') ∧ get s' = (f (get s)).2 := by
  have := lawful o s
  rwa [ho] at this

theorem Lawful.stuck (ho : view o = .stuck) : H o s = none := by
  have := lawful o s
  rwa [ho] at this

end Lawful

/-- From the view `v` the program comes to the view `v'`, or gets stuck for `none`,
whatever the operations answer that have nothing to do with the view. -/
def Yields (view : View S V) : Prog S α → V → Option V → Prop
  | .ret _, v, v' => v' = some v
  | .call o k, v, v' =>
    match view o with
    | .apart => ∀ r, Yields view (k r) v v'
    | .on f => Yields view (k (f v).1) (f v).2 v'
    | .stuck => v' = none
    | .wild => False

/-- The same for a program that ends, with the value it returns. -/
def Gives (view : View S V) : Prog S α → V → α → V → Prop
  | .ret a, v, a', v' => a' = a ∧ v' = v
  | .call o k, v, a', v' =>
    match view o with
    | .apart => ∀ r, Gives view (k r) v a' v'
    | .on f => Gives view (k (f v).1) (f v).2 a' v'
    | _ => False

/-- An operation that leaves the view as it is. -/
def Keeps (view : View S V) (o : S.Op) : Prop :=
  match view o with
  | .apart => True
  | .on f => ∀ v, (f v).2 = v
  | _ => False

/-- An operation whose answer is a matter of the view alone. -/
def Steady (view : View S V) (o : S.Op) : Prop :=
  match view o with
  | .apart => ∃ r : S.Res o, ∀ r', r' = r
  | .on _ => True
  | _ => False

variable {p : Prog S α} {q : α → Prog S β} {v v₁ : V} {v' : Option V}

/-! ## Rules -/

theorem Yields.bind {a : α} (hp : Gives view p v a v₁) (hq : Yields view (q a) v₁ v') :
    Yields view (p >>= q) v v' := by
  show Yields view (p.bind q) v v'
  induction p generalizing v with
  | ret b =>
    obtain ⟨rfl, rfl⟩ := hp
    exact hq
  | call o k ih =>
    cases hact : view o <;> simp only [Gives, Prog.bind, Yields, hact] at hp ⊢
    · exact fun r => ih r (hp r)
    · exact ih _ hp

/-- A program that keeps the view, in front of others. -/
theorem Yields.keep {P : α → Prop} (hp : p.Calls view.Keeps) (hP : p.Returns P)
    (hq : ∀ a, P a → Yields view (q a) v v') : Yields view (p >>= q) v v' := by
  show Yields view (p.bind q) v v'
  induction p with
  | ret a => exact hq a hP
  | call o k ih =>
    have ho := hp.1
    cases hact : view o <;> simp only [Keeps, Prog.bind, Yields, hact] at ho ⊢
    · exact fun r => ih r (hp.2 r) (hP r)
    · rw [ho v]
      exact ih _ (hp.2 _) (hP _)

theorem Yields.request {o : S.Op} {f : V → S.Res o × V} {q : S.Res o → Prog S β}
    (ho : view o = .on f) (hq : Yields view (q (f v).1) (f v).2 v') :
    Yields view (Prog.request o >>= q) v v' := by
  show Yields view (.call o q) v v'
  rw [Yields, ho]
  exact hq

theorem Yields.stuck {o : S.Op} {k : S.Res o → Prog S α} (ho : view o = .stuck) :
    Yields view (.call o k) v none := by
  rw [Yields, ho]

/-- A program that keeps the view yields it. -/
theorem Yields.of_keeps (hp : p.Calls view.Keeps) : Yields view p v (some v) := by
  induction p with
  | ret a => rfl
  | call o k ih =>
    have ho := hp.1
    cases hact : view o <;> simp only [Keeps, Yields, hact] at ho ⊢
    · exact fun r => ih r (hp.2 r)
    · rw [ho v]
      exact ih _ (hp.2 _)

/-- A program that comes to others by requests that keep the view yields what they do. -/
theorem Yields.of_awaits {Q : Prog S α → Prop} (hp : p.Awaits view.Keeps Q)
    (hQ : ∀ q, Q q → Yields view q v v') : Yields view p v v' := by
  induction p with
  | ret a => exact hQ _ hp
  | call o k ih =>
    rcases hp with hp | ⟨ho, hp⟩
    · exact hQ _ hp
    · cases hact : view o <;> simp only [Keeps, Yields, hact] at ho ⊢
      · exact fun r => ih r (hp r)
      · rw [ho v]
        exact ih _ (hp _)

/-- A program all of whose answers are a matter of the view gives something. -/
theorem Gives.of_steady (hp : p.Calls view.Steady) : ∀ v, ∃ a v', Gives view p v a v' := by
  induction p with
  | ret a => exact fun v => ⟨a, v, rfl, rfl⟩
  | call o k ih =>
    intro v
    have ho := hp.1
    cases hact : view o <;> simp only [Steady, Gives, hact] at ho ⊢
    · obtain ⟨r, hr⟩ := ho
      obtain ⟨a, v', h⟩ := ih r (hp.2 r) v
      exact ⟨a, v', fun r' => hr r' ▸ h⟩
    · exact ih _ (hp.2 _) _

/-! ## Runs -/

/-- Run alone, a program comes to what it yields. -/
theorem Yields.run_ends (lawful : view.Lawful get H) {s : σ} {p : Prog S α}
    (h : Yields view p (get s) (some v)) : ∃ a s', p.run H s = some (a, s') ∧ get s' = v := by
  induction p generalizing s with
  | ret a => exact ⟨a, s, rfl, (Option.some.inj h).symm⟩
  | call o k ih =>
    cases hact : view o <;> simp only [Yields, hact, reduceCtorEq] at h
    · obtain ⟨r, s₁, hr, hs₁⟩ := lawful.apart s hact
      obtain ⟨a, s', hrun, hs'⟩ := ih r (hs₁ ▸ h r)
      exact ⟨a, s', by rw [Prog.run, hr, Option.bind_some, hrun], hs'⟩
    · obtain ⟨s₁, hr, hs₁⟩ := lawful.on s hact
      obtain ⟨a, s', hrun, hs'⟩ := ih _ (hs₁ ▸ h)
      exact ⟨a, s', by rw [Prog.run, hr, Option.bind_some, hrun], hs'⟩

/-- A program yields one thing only. -/
theorem Yields.unique (lawful : view.Lawful get H) {s : σ} {p : Prog S α} {a b : Option V}
    (ha : Yields view p (get s) a) (hb : Yields view p (get s) b) : a = b := by
  induction p generalizing s with
  | ret _ => exact ha.trans hb.symm
  | call o k ih =>
    cases hact : view o <;> simp only [Yields, hact] at ha hb
    · obtain ⟨r, s₁, -, hs₁⟩ := lawful.apart s hact
      exact ih r (hs₁ ▸ ha r) (hs₁ ▸ hb r)
    · obtain ⟨s₁, -, hs₁⟩ := lawful.on s hact
      exact ih _ (hs₁ ▸ ha) (hs₁ ▸ hb)
    · exact ha.trans hb.symm

/-- One request of a program: what is left yields the same from the view as it is then. -/
theorem Yields.step (lawful : view.Lawful get H) {s s' : σ} {o : S.Op} {k : S.Res o → Prog S α}
    {r : S.Res o} (h : Yields view (.call o k) (get s) v') (hrun : H o s = some (r, s')) :
    Yields view (k r) (get s') v' := by
  cases hact : view o <;> simp only [Yields, hact] at h
  · obtain ⟨r₁, s₁, hr, hs₁⟩ := lawful.apart s hact
    obtain ⟨rfl, rfl⟩ := Prod.mk.inj (Option.some.inj (hr.symm.trans hrun))
    exact hs₁ ▸ h r₁
  · obtain ⟨s₁, hr, hs₁⟩ := lawful.on s hact
    obtain ⟨rfl, rfl⟩ := Prod.mk.inj (Option.some.inj (hr.symm.trans hrun))
    exact hs₁ ▸ h
  · rw [lawful.stuck s hact] at hrun
    cases hrun

/-- A request that keeps the view keeps it. -/
theorem Keeps.step (lawful : view.Lawful get H) {s s' : σ} {o : S.Op} {r : S.Res o}
    (ho : view.Keeps o) (hrun : H o s = some (r, s')) : get s' = get s := by
  cases hact : view o <;> simp only [Keeps, hact] at ho
  · obtain ⟨r₁, s₁, hr, hs₁⟩ := lawful.apart s hact
    obtain ⟨-, rfl⟩ := Prod.mk.inj (Option.some.inj (hr.symm.trans hrun))
    exact hs₁
  · obtain ⟨s₁, hr, hs₁⟩ := lawful.on s hact
    obtain ⟨-, rfl⟩ := Prod.mk.inj (Option.some.inj (hr.symm.trans hrun))
    exact hs₁.trans (ho _)

/-! ## One job after another -/

section Order

variable {Hs : Bool → Handler S σ} {c c' : Threads S Bool σ} {ps : Bool → Prog S Unit} {j : Bool}

/-- What is left of a job can catch up: from every state it yields what the whole job does. -/
def CatchesUp (view : View S V) (get : σ → V) (whole rest : Prog S Unit) : Prop :=
  ∀ s v', Yields view whole (get s) v' → Yields view rest (get s) v'

/-- The job `false` changes the view only while the job `true` can catch up, and `true`
only when what is left of `false` keeps it. -/
def InOrder (view : View S V) (get : σ → V) (Hs : Bool → Handler S σ) (ps : Bool → Prog S Unit)
    (c : Threads S Bool σ) (j : Bool) : Prop :=
  ∀ c', c.step Hs j = some c' → get c'.shared ≠ get c.shared →
    match j with
    | false => CatchesUp view get (ps true) (c.left true)
    | true => (c.left false).Calls view.Keeps

/-- What the runs keep: until the second job changes the view, both yield what they are to
yield from it; from then on the first keeps it. -/
inductive Ordered (view : View S V) (get : σ → V) (ps : Bool → Prog S Unit) (v₀ : V)
    (c : Threads S Bool σ) : Prop
  | waiting (first : Option V) : Yields view (ps false) v₀ first →
      Yields view (c.left false) (get c.shared) first →
      (∀ v, ∃ v', Yields view (ps true) v v') →
      (∀ v', Yields view (ps true) (get c.shared) v' →
        Yields view (c.left true) (get c.shared) v') → Ordered view get ps v₀ c
  | passed (v₁ : V) (second : Option V) : Yields view (ps false) v₀ (some v₁) →
      (c.left false).Calls view.Keeps → Yields view (ps true) v₁ second →
      Yields view (c.left true) (get c.shared) second → Ordered view get ps v₀ c

variable {v₀ : V} {s : σ} {es : List Bool}

theorem Ordered.start (hfirst : ∃ v', Yields view (ps false) (get s) v')
    (hsecond : ∀ v, ∃ v', Yields view (ps true) v v') :
    Ordered view get ps (get s) ⟨ps, s⟩ := by
  obtain ⟨first, hfirst⟩ := hfirst
  exact .waiting first hfirst hfirst hsecond fun _ => id

theorem Ordered.step (lawful : ∀ j, view.Lawful get (Hs j)) (h : Ordered view get ps v₀ c)
    (inOrder : InOrder view get Hs ps c j) (hstep : c.step Hs j = some c') :
    Ordered view get ps v₀ c' := by
  have hchange := inOrder c' hstep
  obtain ⟨o, k, r, s', hleft, hrun, rfl⟩ := Threads.step_cases hstep
  have hother : Function.update c.left j (k r) (!j) = c.left (!j) :=
    Function.update_of_ne (by cases j <;> decide) _ _
  have hself : Function.update c.left j (k r) j = k r := Function.update_self ..
  cases h with
  | waiting first hwhole hfirst hsome hsecond =>
    cases j with
    | false =>
      rw [hleft] at hfirst
      refine .waiting first hwhole (hself ▸ hfirst.step (lawful false) hrun) hsome ?_
      dsimp only
      rw [show Function.update c.left false (k r) true = c.left true from hother]
      by_cases hview : get s' = get c.shared
      · rwa [hview]
      · exact hchange hview s'
    | true =>
      by_cases hview : get s' = get c.shared
      · refine .waiting first hwhole ?_ hsome fun v' hv' => ?_
        · dsimp only
          rw [show Function.update c.left true (k r) false = c.left false from hother, hview]
          exact hfirst
        · dsimp only at hv' ⊢
          have hrest := hsecond v' (hview ▸ hv')
          rw [hleft] at hrest
          exact hself ▸ hrest.step (lawful true) hrun
      · have hkeeps := hchange hview
        obtain ⟨second, hsecond'⟩ := hsome (get c.shared)
        have hrest := hsecond second hsecond'
        rw [hleft] at hrest
        obtain rfl := hfirst.unique (lawful false) (.of_keeps hkeeps)
        refine .passed (get c.shared) second hwhole ?_ hsecond'
          (hself ▸ hrest.step (lawful true) hrun)
        exact (show Function.update c.left true (k r) false = c.left false from hother) ▸ hkeeps
  | passed v₁ second hwhole hkeeps hsecond hrest =>
    cases j with
    | false =>
      rw [hleft] at hkeeps
      have hview : get s' = get c.shared := Keeps.step (lawful false) hkeeps.1 hrun
      refine .passed v₁ second hwhole (hself ▸ hkeeps.2 r) hsecond ?_
      dsimp only
      rw [show Function.update c.left false (k r) true = c.left true from hother, hview]
      exact hrest
    | true =>
      rw [hleft] at hrest
      refine .passed v₁ second hwhole ?_ hsecond (hself ▸ hrest.step (lawful true) hrun)
      exact (show Function.update c.left true (k r) false = c.left false from hother) ▸ hkeeps

/-- Two jobs that keep the order leave the view as the one after the other does. -/
theorem in_order (lawful : ∀ j, view.Lawful get (Hs j))
    (hfirst : ∃ v', Yields view (ps false) (get s) v')
    (hsecond : ∀ v, ∃ v', Yields view (ps true) v v')
    (run : Run (Threads.step Hs) (InOrder view get Hs ps) ⟨ps, s⟩ es c) (ended : c.Ended) :
    ∃ s', Threads.serially Hs ps [false, true] s = some s' ∧ get s' = get c.shared := by
  have hordered : Ordered view get ps (get s) c :=
    run.invariant (fun _ _ _ h inOrder hstep => h.step lawful inOrder hstep)
      (.start hfirst hsecond)
  obtain ⟨v₁, h₁, h₂⟩ : ∃ v₁, Yields view (ps false) (get s) (some v₁) ∧
      Yields view (ps true) v₁ (some (get c.shared)) := by
    cases hordered with
    | waiting first hwhole hrest hsome hcatch =>
      rw [ended false] at hrest
      obtain ⟨v', hv'⟩ := hsome (get c.shared)
      have hrest' := hcatch v' hv'
      rw [ended true] at hrest'
      exact ⟨get c.shared, hrest ▸ hwhole, hrest' ▸ hv'⟩
    | passed v₁ second hwhole _ hsecond' hrest =>
      rw [ended true] at hrest
      exact ⟨v₁, hwhole, hrest ▸ hsecond'⟩
  obtain ⟨⟨⟩, s₁, hrun₁, rfl⟩ := h₁.run_ends (lawful false)
  obtain ⟨⟨⟩, s₂, hrun₂, hs₂⟩ := h₂.run_ends (lawful true)
  refine ⟨s₂, ?_, hs₂⟩
  simp only [Threads.serially, List.foldlM_cons, List.foldlM_nil, hrun₁, hrun₂, Option.map_some,
    Option.bind_eq_bind, Option.bind_some]
  rfl

end Order

end View

end Ebotula.Library
