import Ebotula.Library.Interleave
import Mathlib.Data.Fintype.Card

/-!
# Read, compute, write

Threads that share a cell. Each reads it once, computes a new value from what it has
read and writes it once, among other requests that leave the cell alone. Nothing locks
the cell, so a value may be stale when it is written.

`Cell` classifies the operations of a signature, and `InPhase` says of what is left of a
program how far it has come: it has not read yet, it has read a value, or it has written.
`InPhase.run_ends` is the rule of one transaction on its own, and `serializable` that of
the runs: as long as every write finds the threads that have read before it indifferent to
what it writes, the cell ends as it does when the threads run one after the other, in the
order of their writes.
-/

set_option autoImplicit false

namespace Ebotula.Library

/-- What an operation does to a cell. A `stuck` operation is never answered, and `wild`
stands for what no transaction requests. -/
inductive Touch (V : Type) where
  | read
  | write (v : V)
  | other
  | stuck
  | wild

/-- How the operations of a signature touch a cell, and what a reading one sees there. -/
structure Cell (S : Sig) (V : Type) where
  touch : S.Op → Touch V
  seen : (o : S.Op) → S.Res o → Option V

/-- How far a transaction has come. -/
inductive Phase (V : Type) where
  | before
  | read (v : V)
  | done

namespace Cell

variable {S : Sig} {V α β σ : Type} {cell : Cell S V} {get : σ → Option V} {H : Handler S σ}
  {f : V → Option V} {ph : Phase V}

/-- The handler does to the cell what the classification says, wherever the cell has a
content. -/
structure Lawful (cell : Cell S V) (get : σ → Option V) (H : Handler S σ) : Prop where
  does : ∀ o s r s' v, H o s = some (r, s') → get s = some v →
    match cell.touch o with
    | .read => cell.seen o r = some v ∧ get s' = some v
    | .write v' => get s' = some v'
    | .other => get s' = some v
    | .stuck => False
    | .wild => True
  answers : ∀ o s, cell.touch o ≠ .stuck → cell.touch o ≠ .wild → ∃ r, H o s = some r

/-- What the rest of a transaction makes of the content of the cell. -/
def outcome (f : V → Option V) : Phase V → V → Option V
  | .before, v => f v
  | .read u, _ => f u
  | .done, v => some v

/-- What is left of a transaction that writes `f` of what it reads; it gets stuck where
`f` has no value. -/
def InPhase (cell : Cell S V) (f : V → Option V) : Prog S α → Phase V → Prop
  | .ret _, .before => ∀ v, f v = some v
  | .ret _, .read _ => False
  | .ret _, .done => True
  | .call o k, ph =>
    match cell.touch o with
    | .read => ph = .before ∧ ∀ r v, cell.seen o r = some v → InPhase cell f (k r) (.read v)
    | .write v' => ∃ v, ph = .read v ∧ f v = some v' ∧ ∀ r, InPhase cell f (k r) .done
    | .other => ∀ r, InPhase cell f (k r) ph
    | .stuck => ∀ v, outcome f ph v = none
    | .wild => False

/-- The next request that touches the cell can be a write: the thread has read it. -/
inductive WritesFirst (cell : Cell S V) : Prog S α → Prop
  | write {o : S.Op} {k : S.Res o → Prog S α} {v : V} :
      cell.touch o = .write v → WritesFirst cell (.call o k)
  | other {o : S.Op} {k : S.Res o → Prog S α} (r : S.Res o) :
      cell.touch o = .other → WritesFirst cell (k r) → WritesFirst cell (.call o k)

/-! ## Building transactions -/

/-- Requests that leave the cell alone, in front of a transaction. -/
theorem InPhase.bind {p : Prog S α} {q : α → Prog S β}
    (hp : p.Calls fun o => cell.touch o = .other) (hq : ∀ a, InPhase cell f (q a) ph) :
    InPhase cell f (p >>= q) ph := by
  show InPhase cell f (p.bind q) ph
  induction p with
  | ret a => exact hq a
  | call o k ih =>
    rw [Prog.bind, InPhase, hp.1]
    exact fun r => ih r (hp.2 r)

/-- After its write, or without one, a transaction may only leave the cell alone. -/
theorem InPhase.done {p : Prog S α} (hp : p.Calls fun o => cell.touch o = .other) :
    InPhase cell f p .done := by
  induction p with
  | ret a => trivial
  | call o k ih =>
    rw [InPhase, hp.1]
    exact fun r => ih r (hp.2 r)

theorem InPhase.idle {p : Prog S α} (hp : p.Calls fun o => cell.touch o = .other)
    (hf : ∀ v, f v = some v) : InPhase cell f p .before := by
  induction p with
  | ret a => exact hf
  | call o k ih =>
    rw [InPhase, hp.1]
    exact fun r => ih r (hp.2 r)

theorem InPhase.read {o : S.Op} {q : S.Res o → Prog S α} (ho : cell.touch o = .read)
    (h : ∀ r v, cell.seen o r = some v → InPhase cell f (q r) (.read v)) :
    InPhase cell f (Prog.request o >>= q) .before := by
  show InPhase cell f (.call o q) .before
  rw [InPhase, ho]
  exact ⟨rfl, h⟩

theorem InPhase.write {o : S.Op} {q : S.Res o → Prog S α} {v v' : V}
    (ho : cell.touch o = .write v') (hf : f v = some v') (h : ∀ r, InPhase cell f (q r) .done) :
    InPhase cell f (Prog.request o >>= q) (.read v) := by
  show InPhase cell f (.call o q) (.read v)
  rw [InPhase, ho]
  exact ⟨v, rfl, hf, h⟩

theorem InPhase.stuck {o : S.Op} {q : S.Res o → Prog S α} {v : V} (ho : cell.touch o = .stuck)
    (hf : f v = none) : InPhase cell f (Prog.request o >>= q) (.read v) := by
  show InPhase cell f (.call o q) (.read v)
  rw [InPhase, ho]
  exact fun _ => hf

/-- Before it has read, a transaction does not write. -/
theorem InPhase.not_writesFirst {p : Prog S α} (h : InPhase cell f p .before) :
    ¬ WritesFirst cell p := by
  intro hw
  induction hw with
  | write ho =>
    rw [InPhase, ho] at h
    obtain ⟨v, hv, -⟩ := h
    cases hv
  | other r ho _ ih =>
    rw [InPhase, ho] at h
    exact ih (h r)

/-! ## A transaction on its own -/

/-- Run alone, a transaction ends where it has an outcome, with that in the cell. -/
theorem InPhase.run_ends (lawful : cell.Lawful get H) {p : Prog S α} {s : σ} {v v' : V}
    (h : InPhase cell f p ph) (hv : get s = some v) (ho : outcome f ph v = some v') :
    ∃ a s', p.run H s = some (a, s') ∧ get s' = some v' := by
  induction p generalizing ph s v with
  | ret a =>
    refine ⟨a, s, rfl, hv.trans ?_⟩
    cases ph with
    | before => exact (h v).symm.trans ho
    | read u => exact h.elim
    | done => exact ho
  | call o k ih =>
    rw [InPhase] at h
    have request {t : Touch V} (ht : cell.touch o = t) (h₁ : t ≠ .stuck) (h₂ : t ≠ .wild) :
        ∃ r s₁, H o s = some (r, s₁) ∧ ∀ a s', (k r).run H s₁ = some (a, s') →
          (Prog.call o k).run H s = some (a, s') := by
      obtain ⟨⟨r, s₁⟩, hr⟩ := lawful.answers o s (ht ▸ h₁) (ht ▸ h₂)
      refine ⟨r, s₁, hr, fun a s' hrun => ?_⟩
      rw [Prog.run, hr, Option.bind_some, hrun]
    cases htouch : cell.touch o with
    | read =>
      obtain ⟨r, s₁, hr, hrest⟩ := request htouch (by rintro ⟨⟩) (by rintro ⟨⟩)
      have hlaw := lawful.does o s r s₁ v hr hv
      rw [htouch] at h hlaw
      obtain ⟨rfl, hread⟩ := h
      obtain ⟨a, s', hrun, hget⟩ := @ih r (.read v) s₁ v (hread r v hlaw.1) hlaw.2 ho
      exact ⟨a, s', hrest a s' hrun, hget⟩
    | write w =>
      obtain ⟨r, s₁, hr, hrest⟩ := request htouch (by rintro ⟨⟩) (by rintro ⟨⟩)
      have hlaw := lawful.does o s r s₁ v hr hv
      rw [htouch] at h hlaw
      obtain ⟨u, rfl, hf, hdone⟩ := h
      obtain ⟨a, s', hrun, hget⟩ := ih r (hdone r) hlaw (hf.symm.trans ho)
      exact ⟨a, s', hrest a s' hrun, hget⟩
    | other =>
      obtain ⟨r, s₁, hr, hrest⟩ := request htouch (by rintro ⟨⟩) (by rintro ⟨⟩)
      have hlaw := lawful.does o s r s₁ v hr hv
      rw [htouch] at h hlaw
      obtain ⟨a, s', hrun, hget⟩ := ih r (h r) hlaw ho
      exact ⟨a, s', hrest a s' hrun, hget⟩
    | stuck =>
      rw [htouch] at h
      rw [h v] at ho
      cases ho
    | wild =>
      rw [htouch] at h
      exact h.elim

/-! ## Transactions side by side -/

section Threads

variable {ι : Type} [DecidableEq ι] {Hs : ι → Handler S σ} {fs : ι → V → Option V} {x₀ : V}
  {c c' : Threads S ι σ} {i : ι}

/-- The write of a thread makes no difference to the threads that have read the cell and
are yet to write it: they compute from the new content what they compute from the old. -/
def Indifferent (cell : Cell S V) (get : σ → Option V) (fs : ι → V → Option V)
    (c : Threads S ι σ) (i : ι) : Prop :=
  ∀ o v', c.next i = some o → cell.touch o = .write v' → ∀ j, j ≠ i →
    WritesFirst cell (c.left j) → ∀ x, get c.shared = some x → fs i x = some v' → fs j v' = fs j x

/-- The cell holds what the threads that have written it make of `x₀` one after the other,
and who is yet to write has read a value as good as the present one. -/
structure Serial (cell : Cell S V) (get : σ → Option V) (fs : ι → V → Option V) (x₀ : V)
    (c : Threads S ι σ) (phase : ι → Phase V) (order : List ι) (x : V) : Prop where
  content : get c.shared = some x
  folded : order.foldlM (fun x i => fs i x) x₀ = some x
  nodup : order.Nodup
  mem_iff : ∀ i, i ∈ order ↔ phase i = .done
  inPhase : ∀ i, InPhase cell (fs i) (c.left i) (phase i)
  fresh : ∀ i v, phase i = .read v → WritesFirst cell (c.left i) → fs i v = fs i x

omit [DecidableEq ι] in
theorem Serial.start {ps : ι → Prog S Unit} {s : σ} (h : ∀ i, InPhase cell (fs i) (ps i) .before)
    (hs : get s = some x₀) : Serial cell get fs x₀ ⟨ps, s⟩ (fun _ => .before) [] x₀ where
  content := hs
  folded := rfl
  nodup := .nil
  mem_iff := fun i => iff_of_false List.not_mem_nil fun h => by cases h
  inPhase := h
  fresh := fun i v hv => by cases hv

section Step

variable {phase : ι → Phase V} {order : List ι} {x v' : V} {s' : σ} {p : Prog S Unit} {ph : Phase V}

/-- The programs of the others, and their phases, are as they were. -/
theorem Serial.inPhase_update (h : Serial cell get fs x₀ c phase order x)
    (hi : InPhase cell (fs i) p ph) (j : ι) :
    InPhase cell (fs j) (Function.update c.left i p j) (Function.update phase i ph j) := by
  by_cases hj : j = i
  · subst hj
    rwa [Function.update_self, Function.update_self]
  · rw [Function.update_of_ne hj, Function.update_of_ne hj]
    exact h.inPhase j

/-- A thread has read the cell. -/
theorem Serial.read (h : Serial cell get fs x₀ c phase order x) (hbefore : phase i = .before)
    (hi : InPhase cell (fs i) p (.read x)) (hs : get s' = some x) :
    Serial cell get fs x₀ ⟨Function.update c.left i p, s'⟩
      (Function.update phase i (.read x)) order x where
  content := hs
  folded := h.folded
  nodup := h.nodup
  mem_iff := fun j => by
    by_cases hji : j = i
    · subst hji
      rw [Function.update_self, h.mem_iff, hbefore]
      exact iff_of_false (fun h => by cases h) fun h => by cases h
    · rw [Function.update_of_ne hji, h.mem_iff]
  inPhase := h.inPhase_update hi
  fresh := fun j v hj hw => by
    by_cases hji : j = i
    · subst hji
      rw [Function.update_self] at hj
      cases hj
      rfl
    · dsimp only at hw
      rw [Function.update_of_ne hji] at hj hw
      exact h.fresh j v hj hw

/-- A thread has written the cell: it is the next one in the order. -/
theorem Serial.write (h : Serial cell get fs x₀ c phase order x) {u : V}
    (hread : phase i = .read u) (hx : fs i x = some v') (hi : InPhase cell (fs i) p .done)
    (hs : get s' = some v')
    (hsame : ∀ j, j ≠ i → WritesFirst cell (c.left j) → fs j v' = fs j x) :
    Serial cell get fs x₀ ⟨Function.update c.left i p, s'⟩
      (Function.update phase i .done) (order ++ [i]) v' where
  content := hs
  folded := by
    rw [List.foldlM_append, h.folded]
    simp only [Option.bind_eq_bind, Option.bind_some, List.foldlM_cons, List.foldlM_nil, hx]
    rfl
  nodup := by
    have hi : i ∉ order := fun hmem => by
      rw [h.mem_iff, hread] at hmem
      cases hmem
    exact List.nodup_append.mpr ⟨h.nodup, List.nodup_cons.mpr ⟨List.not_mem_nil, .nil⟩,
      fun a ha b hb hab => hi (List.mem_singleton.mp hb ▸ hab ▸ ha)⟩
  mem_iff := fun j => by
    by_cases hji : j = i
    · subst hji
      rw [Function.update_self]
      exact iff_of_true (List.mem_append_right _ List.mem_cons_self) rfl
    · rw [Function.update_of_ne hji, List.mem_append, h.mem_iff, List.mem_singleton,
        or_iff_left hji]
  inPhase := h.inPhase_update hi
  fresh := fun j v hj hw => by
    by_cases hji : j = i
    · subst hji
      rw [Function.update_self] at hj
      cases hj
    · dsimp only at hw
      rw [Function.update_of_ne hji] at hj hw
      rw [h.fresh j v hj hw, hsame j hji hw]

/-- A thread has made a request that leaves the cell alone. -/
theorem Serial.other (h : Serial cell get fs x₀ c phase order x)
    (hi : InPhase cell (fs i) p (phase i)) (hs : get s' = some x)
    (hwrites : WritesFirst cell p → WritesFirst cell (c.left i)) :
    Serial cell get fs x₀ ⟨Function.update c.left i p, s'⟩ phase order x where
  content := hs
  folded := h.folded
  nodup := h.nodup
  mem_iff := h.mem_iff
  inPhase := fun j => by
    have hj := h.inPhase_update hi j
    rwa [Function.update_eq_self] at hj
  fresh := fun j v hj hw => by
    refine h.fresh j v hj ?_
    dsimp only at hw
    by_cases hji : j = i
    · subst hji
      rw [Function.update_self] at hw
      exact hwrites hw
    · rwa [Function.update_of_ne hji] at hw

/-- One request of one thread. -/
theorem Serial.step (lawful : ∀ i, cell.Lawful get (Hs i))
    (h : Serial cell get fs x₀ c phase order x)
    (indifferent : Indifferent cell get fs c i) (hstep : c.step Hs i = some c') :
    ∃ phase' order' x', Serial cell get fs x₀ c' phase' order' x' := by
  obtain ⟨o, k, r, s', hleft, hrun, rfl⟩ := Threads.step_cases hstep
  have hlaw := (lawful i).does o c.shared r s' x hrun h.content
  have hphase := h.inPhase i
  rw [hleft, InPhase] at hphase
  split at hphase
  · next ho =>
    rw [ho] at hlaw
    obtain ⟨hbefore, hread⟩ := hphase
    exact ⟨_, _, _, h.read hbefore (hread r x hlaw.1) hlaw.2⟩
  · next v' ho =>
    rw [ho] at hlaw
    obtain ⟨u, hread, hf, hdone⟩ := hphase
    have hx : fs i x = some v' := by
      rw [← h.fresh i u hread (hleft ▸ .write ho), hf]
    have hnext : c.next i = some o := by rw [Threads.next, hleft, Prog.next_call]
    exact ⟨_, _, _, h.write hread hx (hdone r) hlaw fun j hji hw =>
      indifferent o v' hnext ho j hji hw x h.content hx⟩
  · next ho =>
    rw [ho] at hlaw
    exact ⟨_, _, _, h.other (hphase r) hlaw fun hw => hleft ▸ .other r ho hw⟩
  · next ho =>
    rw [ho] at hlaw
    exact hlaw.elim
  · exact hphase.elim

end Step

omit [DecidableEq ι] in
/-- Transactions one after the other end where their outcomes do. -/
theorem serially_ends (lawful : ∀ i, cell.Lawful get (Hs i)) {ps : ι → Prog S Unit}
    (h : ∀ i, InPhase cell (fs i) (ps i) .before) {order : List ι} {s : σ} {x y : V}
    (hs : get s = some x) (hfold : order.foldlM (fun x i => fs i x) x = some y) :
    ∃ s', Threads.serially Hs ps order s = some s' ∧ get s' = some y := by
  induction order generalizing s x with
  | nil => exact ⟨s, rfl, hs.trans hfold⟩
  | cons i order ih =>
    rw [List.foldlM_cons] at hfold
    obtain ⟨x₁, hx₁, hrest⟩ := Option.bind_eq_some_iff.mp hfold
    obtain ⟨a, s₁, hrun, hs₁⟩ := (h i).run_ends (lawful i) hs hx₁
    obtain ⟨s', hs', hget⟩ := ih hs₁ hrest
    refine ⟨s', ?_, hget⟩
    rw [Threads.serially, List.foldlM_cons, hrun]
    exact hs'

/-- Threads that run side by side, each write indifferent to those who have read before
it, leave the cell as some order of the threads does in which they run one by one. -/
theorem serializable [Fintype ι] (lawful : ∀ i, cell.Lawful get (Hs i)) {ps : ι → Prog S Unit}
    {s : σ} {es : List ι} (h : ∀ i, InPhase cell (fs i) (ps i) .before) (hs : get s = some x₀)
    (run : Run (Threads.step Hs) (Indifferent cell get fs) ⟨ps, s⟩ es c) (ended : c.Ended) :
    ∃ order : List ι, order.Nodup ∧ (∀ i, i ∈ order) ∧
      ∃ s', Threads.serially Hs ps order s = some s' ∧ get s' = get c.shared := by
  obtain ⟨phase, order, x, hserial⟩ :=
    run.invariant (I := fun c => ∃ phase order x, Serial cell get fs x₀ c phase order x)
      (fun _ _ _ ⟨_, _, _, hserial⟩ indifferent hstep => hserial.step lawful indifferent hstep)
      ⟨_, _, _, .start h hs⟩
  -- a thread that has ended without a write changes nothing wherever it stands
  have idle {i : ι} (hi : i ∉ order) (v : V) : fs i v = some v := by
    have hphase := hserial.inPhase i
    rw [ended i] at hphase
    rw [hserial.mem_iff] at hi
    cases hp : phase i with
    | before => rw [hp] at hphase; exact hphase v
    | read u => rw [hp] at hphase; exact hphase.elim
    | done => exact absurd hp hi
  have idlers {l : List ι} (hl : ∀ i ∈ l, i ∉ order) :
      l.foldlM (fun x i => fs i x) x = some x := by
    induction l with
    | nil => rfl
    | cons i l ih =>
      rw [List.foldlM_cons, idle (hl i List.mem_cons_self)]
      exact ih fun j hj => hl j (List.mem_cons_of_mem _ hj)
  let rest := (Finset.univ : Finset ι).toList.filter (· ∉ order)
  have hrest : ∀ i ∈ rest, i ∉ order := fun i hi => of_decide_eq_true (List.mem_filter.mp hi).2
  refine ⟨order ++ rest, ?_, fun i => ?_, ?_⟩
  · exact List.nodup_append.mpr ⟨hserial.nodup, (Finset.nodup_toList _).filter _,
      fun a ha b hb hab => hrest b hb (hab ▸ ha)⟩
  · rw [List.mem_append, List.mem_filter]
    by_cases hi : i ∈ order
    · exact .inl hi
    · exact .inr ⟨Finset.mem_toList.mpr (Finset.mem_univ i), decide_eq_true hi⟩
  · rw [hserial.content]
    refine serially_ends lawful h hs ?_
    rw [List.foldlM_append, hserial.folded]
    exact idlers hrest

end Threads

end Cell

end Ebotula.Library
