import Ebotula.Library.Prog
import Ebotula.Library.Run
import Mathlib.Logic.Function.Basic

/-!
# Interleavings

Programs that run side by side over one shared state. A step of the interleaving is
one request of one thread, so the operations of the signature are what is atomic. The
threads are a family over any index type, and a schedule is a list of indices: the
machine of `Library.Run` whose events are the threads that move. A worker that runs
several programs one after the other is several threads here, so a law about all
schedules speaks of it too.

What a thread does next can be read off what is left of its program (`Prog.next`).
`Prog.Follows` bounds a program by what it may request right after what: it is how a
law knows that a request uses the reply the thread has just received. `Prog.Until` bounds
it up to a request whose reply decides about the rest.
-/

set_option autoImplicit false

namespace Ebotula.Library

namespace Prog

variable {S : Sig} {α β γ : Type}

/-- The operation a program requests next, unless it has ended. -/
def next : Prog S α → Option S.Op
  | ret _ => none
  | call o _ => some o

@[simp] theorem next_call (o : S.Op) (k : S.Res o → Prog S α) : (call o k).next = some o := rfl

/-- The next request, if there is one, satisfies `Q`. -/
def Starts (Q : S.Op → Prop) (p : Prog S α) : Prop := ∀ o ∈ p.next, Q o

/-- Whenever the program requests `o'` right after `o` was answered with `r`, `P o r o'`. -/
def Follows (P : (o : S.Op) → S.Res o → S.Op → Prop) : Prog S α → Prop
  | ret _ => True
  | call o k => ∀ r, (k r).Starts (P o r) ∧ (k r).Follows P

theorem Calls.starts {Q : S.Op → Prop} {p : Prog S α} (h : Calls Q p) : p.Starts Q := by
  intro o ho
  cases p with
  | ret a => cases ho
  | call o' k =>
    cases ho
    exact h.1

theorem Starts.mono {P Q : S.Op → Prop} {p : Prog S α} (h : p.Starts P) (hPQ : ∀ o, P o → Q o) :
    p.Starts Q := fun o ho => hPQ o (h o ho)

/-- A program begins with the requests of its first part, or with those of the second
where the first makes none. -/
theorem Starts.bind {Q : S.Op → Prop} {p : Prog S α} {f : α → Prog S β} (hp : p.Starts Q)
    (hf : ∀ a, (f a).Starts Q) : (p >>= f).Starts Q := by
  cases p with
  | ret a => exact hf a
  | call o k => exact hp

section Follows

variable {P : (o : S.Op) → S.Res o → S.Op → Prop}

/-- Requests that may follow anything. -/
def Free (P : (o : S.Op) → S.Res o → S.Op → Prop) (o' : S.Op) : Prop := ∀ o r, P o r o'

/-- A program and, in every continuation of it, a program that begins with a request
that may follow anything. -/
theorem Follows.bind {p : Prog S α} {f : α → Prog S β} (hp : p.Follows P)
    (start : ∀ a, (f a).Starts (Free P)) (hf : ∀ a, (f a).Follows P) : (p >>= f).Follows P := by
  show (p.bind f).Follows P
  induction p with
  | ret a => exact hf a
  | call o k ih =>
    intro r
    obtain ⟨hnext, hrest⟩ := hp r
    exact ⟨hnext.bind fun a => (start a).mono fun _ h => h o r, ih r hrest⟩

theorem Calls.follows {p : Prog S α} (h : Calls (Free P) p) : p.Follows P := by
  induction p with
  | ret a => trivial
  | call o k ih => exact fun r => ⟨(h.2 r).starts.mono fun _ h' => h' o r, ih r (h.2 r)⟩

end Follows

section Until

variable {P stop : S.Op → Prop} {Q : (o : S.Op) → S.Res o → Prog S α → Prop}

/-- The program keeps to `P` until it makes a request of `stop`; with the reply `r` to that
request the rest of it satisfies `Q`. -/
def Until (P stop : S.Op → Prop) (Q : (o : S.Op) → S.Res o → Prog S α → Prop) : Prog S α → Prop
  | ret _ => True
  | call o k => (stop o ∧ ∀ r, Q o r (k r)) ∨ (P o ∧ ∀ r, (k r).Until P stop Q)

theorem Calls.until {p : Prog S α} (h : Calls P p) : p.Until P stop Q := by
  induction p with
  | ret a => trivial
  | call o k ih => exact .inr ⟨h.1, fun r => ih r (h.2 r)⟩

/-- Requests of `P` in front do no harm. -/
theorem Until.bind {p : Prog S β} {f : β → Prog S α} (hp : Calls P p)
    (hf : ∀ b, (f b).Until P stop Q) : (p >>= f).Until P stop Q := by
  show (p.bind f).Until P stop Q
  induction p with
  | ret b => exact hf b
  | call o k ih => exact .inr ⟨hp.1, fun r => ih r (hp.2 r)⟩

theorem Until.request {o : S.Op} {f : S.Res o → Prog S α} (ho : stop o) (hf : ∀ r, Q o r (f r)) :
    (Prog.request o >>= f).Until P stop Q := .inl ⟨ho, hf⟩

end Until

/-- The program comes to `Q` by requests of `P`, whatever they are answered. -/
def Awaits (P : S.Op → Prop) (Q : Prog S α → Prop) : Prog S α → Prop
  | ret a => Q (ret a)
  | call o k => Q (call o k) ∨ (P o ∧ ∀ r, (k r).Awaits P Q)

theorem Awaits.of {P : S.Op → Prop} {Q : Prog S α → Prop} {p : Prog S α} (h : Q p) :
    p.Awaits P Q := by
  cases p with
  | ret a => exact h
  | call o k => exact .inl h

end Prog

/-- What is left of each thread's program, and the state the threads share. -/
structure Threads (S : Sig) (ι σ : Type) where
  left : ι → Prog S Unit
  shared : σ

namespace Threads

variable {S : Sig} {ι σ : Type} [DecidableEq ι] {H : ι → Handler S σ} {c c' : Threads S ι σ}
  {i j : ι}

/-- One request of one thread. A thread that has ended takes no step. -/
def step (H : ι → Handler S σ) (c : Threads S ι σ) (i : ι) : Option (Threads S ι σ) :=
  match c.left i with
  | .ret _ => none
  | .call o k => (H i o c.shared).map fun r => ⟨Function.update c.left i (k r.1), r.2⟩

/-- The runs of programs one after the other, in the order given. -/
def serially (Hs : ι → Handler S σ) (ps : ι → Prog S Unit) (order : List ι) (s : σ) : Option σ :=
  order.foldlM (fun s i => ((ps i).run (Hs i) s).map Prod.snd) s

/-- The operation a thread requests next. -/
def next (c : Threads S ι σ) (i : ι) : Option S.Op := (c.left i).next

omit [DecidableEq ι] in
theorem next_eq_some {c : Threads S ι σ} {i : ι} {o : S.Op} :
    c.next i = some o ↔ ∃ k, c.left i = .call o k := by
  rw [next]
  cases c.left i with
  | ret a => exact ⟨fun h => (by cases h), fun ⟨k, h⟩ => (by cases h)⟩
  | call o' k => exact ⟨fun h => by cases h; exact ⟨k, rfl⟩, fun ⟨k', h⟩ => by cases h; rfl⟩

omit [DecidableEq ι] in
theorem next_eq_none {c : Threads S ι σ} {i : ι} : c.next i = none ↔ c.left i = .ret () := by
  rw [next]
  cases c.left i with
  | ret a => exact iff_of_true rfl rfl
  | call o k => exact iff_of_false nofun nofun

omit [DecidableEq ι] in
theorem ended_of_next {c : Threads S ι σ} {i : ι} (h : (c.next i).isSome = false) :
    c.left i = .ret () := by
  refine next_eq_none.mp (Option.not_isSome_iff_eq_none.mp fun hsome => ?_)
  rw [hsome] at h
  cases h

/-- Every thread has ended. -/
def Ended (c : Threads S ι σ) : Prop := ∀ i, c.left i = .ret ()

theorem step_call {o : S.Op} {k : S.Res o → Prog S Unit} (h : c.left i = .call o k) :
    c.step H i = (H i o c.shared).map fun r => ⟨Function.update c.left i (k r.1), r.2⟩ := by
  rw [step, h]

/-- What a step is: the thread's request was answered, and it goes on with the reply. -/
theorem step_cases (h : c.step H i = some c') : ∃ o k r s', c.left i = .call o k ∧
    H i o c.shared = some (r, s') ∧ c' = ⟨Function.update c.left i (k r), s'⟩ := by
  rw [step] at h
  split at h
  · cases h
  · next o k hleft =>
    obtain ⟨⟨r, s'⟩, hr, he⟩ := Option.map_eq_some_iff.mp h
    exact ⟨o, k, r, s', hleft, hr, he.symm⟩

theorem next_update_self {p : Prog S Unit} {s : σ} :
    (⟨Function.update c.left i p, s⟩ : Threads S ι σ).next i = p.next :=
  congrArg Prog.next (Function.update_self ..)

theorem next_update_of_ne {p : Prog S Unit} {s : σ} (h : j ≠ i) :
    (⟨Function.update c.left i p, s⟩ : Threads S ι σ).next j = c.next j :=
  congrArg Prog.next (Function.update_of_ne h _ _)

/-- What holds of the program of the thread that has moved and of the programs of the
others holds of all. -/
theorem update_left {P : ι → Prog S Unit → Prop} {p : Prog S Unit} (hi : P i p)
    (h : ∀ j, j ≠ i → P j (c.left j)) (j : ι) : P j (Function.update c.left i p j) := by
  by_cases hj : j = i
  · subst hj
    rwa [Function.update_self]
  · rw [Function.update_of_ne hj]
    exact h j hj

/-- What holds of every program that is left, a step keeps if it keeps it for the thread
that moves. -/
theorem step_left {P : Prog S Unit → Prop}
    (keep : ∀ (o : S.Op) (k : S.Res o → Prog S Unit) (r : S.Res o), P (.call o k) → P (k r))
    (hstep : c.step H i = some c') (h : ∀ j, P (c.left j)) : ∀ j, P (c'.left j) := by
  obtain ⟨o, k, r, s', hleft, -, rfl⟩ := step_cases hstep
  exact update_left (P := fun _ => P) (keep o k r (hleft ▸ h i)) fun j _ => h j

/-- A thread that has ended has taken its first step: until then the others have gone on without
it. -/
theorem run_first {ok : Threads S ι σ → ι → Prop} {es : List ι} {o : S.Op}
    {k : S.Res o → Prog S Unit} (run : Run (step H) ok c es c') (hleft : c.left i = .call o k)
    (hended : c'.left i = .ret ()) :
    ∃ before after c₁ r s, es = before ++ i :: after ∧ Run (step H) ok c before c₁ ∧
      H i o c₁.shared = some (r, s) ∧
      Run (step H) ok ⟨Function.update c₁.left i (k r), s⟩ after c' := by
  induction run with
  | nil =>
    rw [hleft] at hended
    cases hended
  | @cons c c₂ _ j es hok hstep rest ih =>
    by_cases hj : j = i
    · subst hj
      obtain ⟨o', k', r, s, hl, hr, rfl⟩ := step_cases hstep
      rw [hleft] at hl
      cases hl
      exact ⟨[], es, c, r, s, rfl, .nil c, hr, rest⟩
    · have hwaits : c₂.left i = .call o k := by
        obtain ⟨o', k', r, s, -, -, rfl⟩ := step_cases hstep
        exact (Function.update_of_ne (Ne.symm hj) _ _).trans hleft
      obtain ⟨before, after, c₁, r, s, rfl, run₁, hr, run₂⟩ := ih hwaits hended
      exact ⟨j :: before, after, c₁, r, s, rfl, .cons hok hstep run₁, hr, run₂⟩

end Threads

/-! ## Pools -/

/-- Workers that take jobs from a queue, and what is left of each job. -/
structure Pool (S : Sig) (κ ι σ : Type) where
  queue : List κ
  busy : ι → Option κ
  jobs : Threads S κ σ

namespace Pool

variable {S : Sig} {κ ι σ : Type} [DecidableEq κ] [DecidableEq ι] {H : κ → Handler S σ}
  {ok : Threads S κ σ → κ → Prop} {p p' : Pool S κ ι σ} {es : List ι}

/-- One step of one worker: an idle one takes the job at the head of the queue, a busy one
makes the next request of its job, or is done with it. -/
def step (H : κ → Handler S σ) (p : Pool S κ ι σ) (i : ι) : Option (Pool S κ ι σ) :=
  match p.busy i with
  | none =>
    match p.queue with
    | [] => none
    | j :: queue => some { p with queue, busy := Function.update p.busy i (some j) }
  | some j =>
    match p.jobs.left j with
    | .ret _ => some { p with busy := Function.update p.busy i none }
    | .call .. => (p.jobs.step H j).map fun jobs => { p with jobs }

/-- A step leaves every job as it is but the one of the worker that moves. -/
theorem step_left {i : ι} {j : κ} (hj : p.busy i ≠ some j) (h : step H p i = some p') :
    p'.jobs.left j = p.jobs.left j := by
  rw [step] at h
  split at h
  · split at h
    · cases h
    · cases h
      rfl
  · next j' hj' =>
    split at h
    · cases h
      rfl
    · obtain ⟨jobs, hjobs, rfl⟩ := Option.map_eq_some_iff.mp h
      obtain ⟨o, k, r, s', -, -, rfl⟩ := Threads.step_cases hjobs
      exact Function.update_of_ne (fun e => hj (hj'.trans (congrArg some e.symm))) _ _

/-- A condition on the jobs, for the job of the worker that moves. -/
def OnJobs (ok : Threads S κ σ → κ → Prop) (p : Pool S κ ι σ) (i : ι) : Prop :=
  ∀ j, p.busy i = some j → ok p.jobs j

/-- A run of the workers is an interleaving of the jobs. -/
theorem run_jobs (run : Run (step H) (OnJobs ok) p es p') :
    ∃ js, Run (Threads.step H) ok p.jobs js p'.jobs := by
  induction run with
  | nil => exact ⟨[], .nil _⟩
  | @cons p₁ p₂ _ i _ hok hstep _ ih =>
    obtain ⟨js, run⟩ := ih
    rw [step] at hstep
    split at hstep
    · split at hstep
      · cases hstep
      · cases hstep
        exact ⟨js, run⟩
    · next j hj =>
      split at hstep
      · cases hstep
        exact ⟨js, run⟩
      · obtain ⟨jobs, hjobs, rfl⟩ := Option.map_eq_some_iff.mp hstep
        exact ⟨j :: js, .cons (hok j hj) hjobs run⟩

end Pool

end Ebotula.Library
