import Ebotula.Shutdown
import Ebotula.Laws.Queue
import Ebotula.Library.Run

/-!
# Which workers end

Once the main thread has left `flushQueue`, the queue is empty and `stop` is set, and nobody is
left to push. From there on a worker is inside `popQueue` or it is not, and no step changes that:
one that is inside finds the queue empty, waits, wakes up and finds it empty again, and
`popQueue` does not look at `stop`. One that is not inside finds `stop` set and returns.
So the workers that end are those that are not inside `popQueue` at the broadcast.
-/

set_option autoImplicit false

namespace Ebotula

open Library QueueHeap

/-- In `popQueue`, waiting or not. -/
def WorkerState.InPopQueue (state : WorkerState) : Prop := state = .popping ∨ state = .waiting

instance (state : WorkerState) : Decidable state.InPopQueue :=
  inferInstanceAs (Decidable (_ ∨ _))

namespace MainState

/-- The main thread has left its loop. -/
def stopped : MainState → Bool
  | looking | receiving => false
  | _ => true

/-- The main thread has found the queue empty. -/
def emptied : MainState → Bool
  | broadcasting | joining _ | done => true
  | _ => false

/-- The main thread has returned from `flushQueue`. -/
def flushed : MainState → Bool
  | joining _ | done => true
  | _ => false

theorem flushed_cases {main : MainState} (h : main.flushed) :
    (∃ worker, main = .joining worker) ∨ main = .done := by
  cases main with
  | joining worker => exact .inl ⟨worker, rfl⟩
  | done => exact .inr rfl
  | looking | receiving | flushing | popping | waiting | broadcasting => cases h

theorem flushed_later {main : MainState} (h : main.flushed) :
    main.emptied ∧ main.stopped := by
  rcases flushed_cases h with ⟨worker, rfl⟩ | rfl
  · exact ⟨rfl, rfl⟩
  · exact ⟨rfl, rfl⟩

end MainState

namespace Process

variable {n : Nat} {p p' : Process n} {e : ThreadEvent n} {i : Fin n}

/-- The queue is a ring, and what the main thread has found out about it and about `stop`
stays so. -/
structure Sound (p : Process n) : Prop where
  ring : ∃ l queue, p.heap.Ring p.pCommandQueue l queue ∧ (p.main.emptied → queue = [])
  stopped : p.main.stopped → p.stop = true

theorem init_sound : (init n).Sound where
  ring := ⟨[], [], ring_initQueue, nofun⟩
  stopped := nofun

/-- A pop leaves a ring, and an empty queue empty. -/
theorem popQueue_ring {heap : QueueHeap} {s : Addr} {l : List Addr} {queue : List QueueData}
    (h : heap.Ring s l queue) :
    (queue = [] ∧ popQueue heap (some s) = some (.waits, heap)) ∨
      ∃ d queue' heap' l', queue = d :: queue' ∧
        popQueue heap (some s) = some (.returns (some d), heap') ∧ heap'.Ring s l' queue' := by
  cases queue with
  | nil =>
    obtain rfl := h.eq_nil
    exact .inl ⟨rfl, h.popQueue_none⟩
  | cons d queue =>
    obtain ⟨l, a, rfl⟩ := h.eq_concat
    obtain ⟨heap', hpop, hring⟩ := h.popQueue_some
    exact .inr ⟨d, queue, heap', l, rfl, hpop, hring⟩

theorem Sound.worker (h : p.Sound) (hstep : p.stepWorker i = some p') : p'.Sound := by
  obtain ⟨l, queue, hring, hempty⟩ := h.ring
  unfold stepWorker at hstep
  split at hstep
  · cases hstep
    exact ⟨⟨l, queue, hring, hempty⟩, h.stopped⟩
  · rcases popQueue_ring hring with ⟨rfl, hpop⟩ | ⟨d, queue, heap', l', rfl, hpop, hring'⟩
    · rw [hpop] at hstep
      cases hstep
      exact ⟨⟨l, [], hring, hempty⟩, h.stopped⟩
    · rw [hpop] at hstep
      cases hstep
      exact ⟨⟨l', queue, hring', fun he => nomatch hempty he⟩, h.stopped⟩
  · cases hstep
    exact ⟨⟨l, queue, hring, hempty⟩, h.stopped⟩
  · cases hstep
  · cases hstep

theorem Sound.main (h : p.Sound) (hstep : p.stepMain = some p') : p'.Sound := by
  obtain ⟨l, queue, hring, hempty⟩ := h.ring
  have hstopped := h.stopped
  unfold stepMain at hstep
  split at hstep
  · cases hstep
    refine ⟨⟨l, queue, hring, fun he => ?_⟩, fun hs => ?_⟩
    · cases hstop : p.stop <;> simp [hstop, MainState.emptied] at he
    · cases hstop : p.stop
      · simp [hstop, MainState.stopped] at hs
      · rfl
  · cases hstep
    exact ⟨⟨l, queue, hring, nofun⟩, nofun⟩
  · next hmain =>
    rw [hring.isfullQueue] at hstep
    cases hstep
    refine ⟨⟨l, queue, hring, fun he => ?_⟩, fun _ => hstopped (by rw [hmain]; rfl)⟩
    cases queue with
    | nil => rfl
    | cons d queue => cases he
  · next hmain =>
    rcases popQueue_ring hring with ⟨rfl, hpop⟩ | ⟨d, queue, heap', l', rfl, hpop, hring'⟩
    · rw [hpop] at hstep
      cases hstep
      exact ⟨⟨l, [], hring, nofun⟩, fun _ => hstopped (by rw [hmain]; rfl)⟩
    · rw [hpop] at hstep
      cases hstep
      exact ⟨⟨l', queue, hring', nofun⟩, fun _ => hstopped (by rw [hmain]; rfl)⟩
  · next hmain =>
    cases hstep
    exact ⟨⟨l, queue, hring, fun _ => hempty (by rw [hmain]; rfl)⟩,
      fun _ => hstopped (by rw [hmain]; rfl)⟩
  · next hmain =>
    split at hstep
    · split at hstep
      · cases hstep
        exact ⟨⟨l, queue, hring, fun _ => hempty (by rw [hmain]; rfl)⟩,
          fun _ => hstopped (by rw [hmain]; rfl)⟩
      · cases hstep
    · cases hstep
      exact ⟨⟨l, queue, hring, fun _ => hempty (by rw [hmain]; rfl)⟩,
        fun _ => hstopped (by rw [hmain]; rfl)⟩
  · cases hstep
  · cases hstep

theorem signal_eq {woken : Option (Fin n)} (h : p.signal woken = some p') :
    p'.heap = p.heap ∧ p'.pCommandQueue = p.pCommandQueue ∧ p'.main = p.main ∧
      p'.stop = p.stop := by
  cases woken with
  | none =>
    obtain ⟨-, he⟩ := Option.ite_none_right_eq_some.mp h
    cases he
    exact ⟨rfl, rfl, rfl, rfl⟩
  | some i =>
    obtain ⟨-, he⟩ := Option.ite_none_right_eq_some.mp h
    cases he
    exact ⟨rfl, rfl, rfl, rfl⟩

theorem Sound.step (h : p.Sound) (hstep : p.step e = some p') : p'.Sound := by
  cases e with
  | setStop =>
    cases hstep
    exact ⟨h.ring, fun _ => rfl⟩
  | worker i => exact h.worker hstep
  | wake i =>
    obtain ⟨-, he⟩ := Option.ite_none_right_eq_some.mp hstep
    cases he
    exact ⟨h.ring, h.stopped⟩
  | main => exact h.main hstep
  | wakeMain =>
    obtain ⟨hmain, he⟩ := Option.ite_none_right_eq_some.mp hstep
    cases he
    obtain ⟨l, queue, hring, -⟩ := h.ring
    exact ⟨⟨l, queue, hring, nofun⟩, fun _ => h.stopped (by rw [hmain]; rfl)⟩
  | push mallocs command woken =>
    obtain ⟨hmain, hpush⟩ := Option.ite_none_right_eq_some.mp hstep
    obtain ⟨l, queue, hring, -⟩ := h.ring
    have hbusy {p' : Process n} (hm : p'.main = p.main) :
        ¬ p'.main.emptied ∧ ¬ p'.main.stopped := by
      rw [hm, hmain]
      exact ⟨nofun, nofun⟩
    cases hrefusal : refusal mallocs command with
    | some status =>
      rw [hring.pushQueue_refused hrefusal] at hpush
      have hne : status ≠ .success := by
        unfold refusal at hrefusal
        split_ifs at hrefusal <;> cases hrefusal <;> nofun
      have hsame : p' = p := by
        cases status with
        | success => exact absurd rfl hne
        | _ => exact (Option.some.inj hpush).symm
      exact hsame ▸ h
    | none =>
      obtain ⟨heap', hsuccess, hring'⟩ := hring.pushQueue_accepted hrefusal
      rw [hsuccess] at hpush
      obtain ⟨hheap, hqueue, hm, hstop⟩ := signal_eq hpush
      have hmade :
          p'.heap.Ring p'.pCommandQueue (p.heap.unused :: l) (queue ++ [copyOf command]) := by
        rw [hheap, hqueue]
        exact hring'
      exact ⟨⟨_, _, hmade, fun he => absurd he (hbusy hm).1⟩, fun hs => absurd hs (hbusy hm).2⟩

/-! ## After the flush -/

/-- What a worker does once the queue stays empty and `stop` set. -/
inductive GoesOn : WorkerState → WorkerState → Prop
  | same (state : WorkerState) : GoesOn state state
  | returns : GoesOn .looking .returned
  | waits : GoesOn .popping .waiting
  | wakes : GoesOn .waiting .popping
  | ends {pCommand : Option QueueData} : GoesOn (.executing pCommand) .looking

/-- It does not leave `popQueue`, and does not call it again. -/
theorem GoesOn.inPopQueue {s t : WorkerState} (h : GoesOn s t) :
    t.InPopQueue ↔ s.InPopQueue := by
  cases h <;> simp [WorkerState.InPopQueue]

theorem goesOn_move {state : WorkerState} (h : GoesOn (p.workers i) state) (j : Fin n) :
    GoesOn (p.workers j) ((p.move i state).workers j) := by
  by_cases hj : j = i
  · subst hj
    simpa only [move, Function.update_self] using h
  · simpa only [move, Function.update_of_ne hj] using GoesOn.same _

/-- Once the main thread has returned from `flushQueue`, nobody pushes. -/
theorem Sound.goesOn (h : p.Sound) (hflushed : p.main.flushed) (hstep : p.step e = some p') :
    p'.main.flushed ∧ ∀ j, GoesOn (p.workers j) (p'.workers j) := by
  obtain ⟨l, queue, hring, hempty⟩ := h.ring
  obtain ⟨hemptied, hleft⟩ := MainState.flushed_later hflushed
  have hstop := h.stopped hleft
  obtain rfl := hempty hemptied
  cases e with
  | setStop =>
    cases hstep
    exact ⟨hflushed, fun j => .same _⟩
  | worker i =>
    change p.stepWorker i = some p' at hstep
    unfold stepWorker at hstep
    split at hstep
    · next hworker =>
      rw [hstop, if_pos rfl] at hstep
      cases hstep
      exact ⟨hflushed, goesOn_move (hworker ▸ .returns)⟩
    · next hworker =>
      rcases popQueue_ring hring with ⟨-, hpop⟩ | ⟨d, queue, heap', l', he, -⟩
      · rw [hpop] at hstep
        cases hstep
        exact ⟨hflushed, goesOn_move (p := p) (hworker ▸ .waits)⟩
      · cases he
    · next hworker =>
      cases hstep
      exact ⟨hflushed, goesOn_move (hworker ▸ .ends)⟩
    · cases hstep
    · cases hstep
  | wake i =>
    obtain ⟨hworker, he⟩ := Option.ite_none_right_eq_some.mp hstep
    cases he
    exact ⟨hflushed, goesOn_move (hworker ▸ .wakes)⟩
  | main =>
    change p.stepMain = some p' at hstep
    rcases MainState.flushed_cases hflushed with ⟨worker, hmain⟩ | hmain
    · simp only [stepMain, hmain] at hstep
      split at hstep
      · obtain ⟨-, he⟩ := Option.ite_none_right_eq_some.mp hstep
        cases he
        exact ⟨rfl, fun j => .same _⟩
      · cases hstep
        exact ⟨rfl, fun j => .same _⟩
    · simp only [stepMain, hmain] at hstep
      cases hstep
  | wakeMain =>
    obtain ⟨hmain, -⟩ := Option.ite_none_right_eq_some.mp hstep
    rw [hmain] at hflushed
    cases hflushed
  | push mallocs command woken =>
    obtain ⟨hmain, -⟩ := Option.ite_none_right_eq_some.mp hstep
    rw [hmain] at hflushed
    cases hflushed

/-- The step with which the main thread returns from `flushQueue`. -/
theorem flushed_of_step (hbefore : p.main.flushed = false) (hafter : p'.main.flushed)
    (hstep : p.step e = some p') : e = .main ∧ p.main = .broadcasting ∧
      ∀ i, (p'.workers i).InPopQueue ↔ (p.workers i).InPopQueue := by
  have hother (hm : p'.main = p.main) : False := by
    rw [hm, hbefore] at hafter
    cases hafter
  cases e with
  | setStop =>
    cases hstep
    exact (hother rfl).elim
  | worker i =>
    refine (hother ?_).elim
    change p.stepWorker i = some p' at hstep
    unfold stepWorker at hstep
    split at hstep
    · cases hstep
      rfl
    · obtain ⟨⟨answer, heap⟩, -, he⟩ := Option.bind_eq_some_iff.mp hstep
      cases answer <;> cases he <;> rfl
    · cases hstep
      rfl
    · cases hstep
    · cases hstep
  | wake i =>
    obtain ⟨-, he⟩ := Option.ite_none_right_eq_some.mp hstep
    cases he
    exact (hother rfl).elim
  | main =>
    change p.stepMain = some p' at hstep
    unfold stepMain at hstep
    split at hstep
    · cases hstep
      cases hstop : p.stop <;> simp [hstop, MainState.flushed] at hafter
    · cases hstep
      cases hafter
    · obtain ⟨full, -, he⟩ := Option.bind_eq_some_iff.mp hstep
      cases full <;> cases he <;> cases hafter
    · obtain ⟨⟨answer, heap⟩, -, he⟩ := Option.bind_eq_some_iff.mp hstep
      cases answer <;> cases he <;> cases hafter
    · next hmain =>
      cases hstep
      refine ⟨rfl, hmain, fun i => ?_⟩
      show (if p.workers i = .waiting then WorkerState.popping else p.workers i).InPopQueue ↔ _
      split
      · next hw => simp [hw, WorkerState.InPopQueue]
      · rfl
    · next hmain =>
      rw [hmain] at hbefore
      cases hbefore
    · cases hstep
    · next hmain =>
      rw [hmain] at hbefore
      cases hbefore
  | wakeMain =>
    obtain ⟨-, he⟩ := Option.ite_none_right_eq_some.mp hstep
    cases he
    cases hafter
  | push mallocs command woken =>
    refine (hother ?_).elim
    obtain ⟨-, hpush⟩ := Option.ite_none_right_eq_some.mp hstep
    obtain ⟨⟨status, heap⟩, -, he⟩ := Option.bind_eq_some_iff.mp hpush
    cases status with
    | success => exact (signal_eq he).2.2.1
    | error | memoryAllocError | noElementLeft | nullPointerAsInParameter =>
      cases he
      rfl

/-! ## Runs -/

/-- Every step that is possible. -/
abbrev Any (_ : Process n) (_ : ThreadEvent n) : Prop := True

/-- The worker can still reach the end of its loop. -/
def CanReturn (p : Process n) (i : Fin n) : Prop :=
  ∃ es p', Run Process.step Any p es p' ∧ p'.workers i = .returned

/-- When the main thread broadcasts, no worker is inside `popQueue`. -/
def LeavesNobody (p : Process n) (e : ThreadEvent n) : Prop :=
  e = .main → p.main = .broadcasting → ∀ i, ¬ (p.workers i).InPopQueue

/-- The main thread waits for a worker that waits for an element of an empty queue. -/
def Deadlocked (p : Process n) : Prop :=
  p.main.flushed ∧ ∃ i, p.workers i = .waiting ∧
    isemptyQueue p.heap (some p.pCommandQueue) = some true

theorem Sound.run {ok : Process n → ThreadEvent n → Prop} {es : List (ThreadEvent n)}
    (h : p.Sound) (run : Run Process.step ok p es p') : p'.Sound :=
  run.invariant (fun _ _ _ h _ hstep => h.step hstep) h

/-- Behind the flush a run lets no worker into `popQueue` and none out. -/
theorem Sound.run_flushed {es : List (ThreadEvent n)} (h : p.Sound) (hflushed : p.main.flushed)
    (run : Run Process.step Any p es p') :
    (p'.workers i).InPopQueue ↔ (p.workers i).InPopQueue := by
  induction run with
  | nil => rfl
  | cons _ hstep _ ih =>
    obtain ⟨hnext, hgo⟩ := h.goesOn hflushed hstep
    exact (ih (h.step hstep) hnext).trans (hgo i).inPopQueue

/-- Where a run has come behind the flush, it has come there by the broadcast. -/
theorem Sound.broadcast {es : List (ThreadEvent n)} (h : p.Sound) (hbefore : p.main.flushed = false)
    (hafter : p'.main.flushed) (run : Run Process.step Any p es p') :
    ∃ es₁ b es₂, es = es₁ ++ .main :: es₂ ∧ Run Process.step Any p es₁ b ∧
      b.main = .broadcasting ∧ ∀ i, (p'.workers i).InPopQueue ↔ (b.workers i).InPopQueue := by
  induction run with
  | nil =>
    rw [hbefore] at hafter
    cases hafter
  | @cons s t u e es _ hstep rest ih =>
    cases ht : t.main.flushed with
    | true =>
      obtain ⟨rfl, hbroadcast, hsame⟩ := flushed_of_step hbefore ht hstep
      refine ⟨[], s, es, rfl, .nil _, hbroadcast, fun i => ?_⟩
      exact ((h.step hstep).run_flushed ht rest).trans (hsame i)
    | false =>
      obtain ⟨es₁, b, es₂, rfl, run, hbroadcast, hsame⟩ := ih (h.step hstep) ht hafter
      exact ⟨e :: es₁, b, es₂, rfl, .cons trivial hstep run, hbroadcast, hsame⟩

/-- A worker that is not inside `popQueue` finds `stop` set. -/
theorem Sound.canReturn (h : p.Sound) (hflushed : p.main.flushed)
    (hout : ¬ (p.workers i).InPopQueue) : p.CanReturn i := by
  have hstop := h.stopped (MainState.flushed_later hflushed).2
  have hlooking {p : Process n} (hs : p.stop = true) (hw : p.workers i = .looking) :
      p.step (.worker i) = some (p.move i .returned) := by
    show p.stepWorker i = _
    simp only [stepWorker, hw, hs, if_true]
  cases hw : p.workers i with
  | looking =>
    exact ⟨[.worker i], _, .cons trivial (hlooking hstop hw) (.nil _), Function.update_self ..⟩
  | popping => exact absurd (.inl hw) hout
  | waiting => exact absurd (.inr hw) hout
  | executing pCommand =>
    have hexecuted : p.step (.worker i) = some (p.move i .looking) := by
      show p.stepWorker i = _
      simp only [stepWorker, hw]
    exact ⟨[.worker i, .worker i], _, .cons trivial hexecuted
      (.cons trivial (hlooking hstop (Function.update_self ..)) (.nil _)),
      Function.update_self ..⟩
  | returned => exact ⟨[], p, .nil _, hw⟩

/-- A worker can return exactly when it is not inside `popQueue`. -/
theorem Sound.canReturn_iff (h : p.Sound) (hflushed : p.main.flushed) :
    p.CanReturn i ↔ ¬ (p.workers i).InPopQueue := by
  refine ⟨fun ⟨es, p', run, hreturned⟩ hin => ?_, h.canReturn hflushed⟩
  have hin' := (h.run_flushed hflushed run).mpr hin
  rw [hreturned] at hin'
  rcases hin' with he | he <;> cases he

/-- Where the broadcast leaves nobody behind, nobody is inside `popQueue` from there on. -/
theorem Sound.leaves {es : List (ThreadEvent n)} (h : p.Sound)
    (hout : p.main.flushed → ∀ i, ¬ (p.workers i).InPopQueue)
    (run : Run Process.step LeavesNobody p es p') :
    p'.main.flushed → ∀ i, ¬ (p'.workers i).InPopQueue := by
  have hkeep : ∀ (s : Process n) e t,
      (s.Sound ∧ (s.main.flushed → ∀ i, ¬ (s.workers i).InPopQueue)) → LeavesNobody s e →
        s.step e = some t → t.Sound ∧ (t.main.flushed → ∀ i, ¬ (t.workers i).InPopQueue) := by
    intro s e t ⟨hs, hnobody⟩ hok hstep
    refine ⟨hs.step hstep, fun ht i => ?_⟩
    cases hm : s.main.flushed with
    | true =>
      rw [((hs.goesOn hm hstep).2 i).inPopQueue]
      exact hnobody hm i
    | false =>
      obtain ⟨he, hbroadcast, hsame⟩ := flushed_of_step hm ht hstep
      rw [hsame i]
      exact hok he hbroadcast i
  exact (run.invariant hkeep ⟨h, hout⟩).2

/-- The bot's threads end. In every run in which no worker is inside `popQueue` when the main
thread broadcasts, every worker can still return once the main thread has left `flushQueue`, and
nobody waits for a worker that waits for an element. In every run, exactly those workers can
return then that were not inside `popQueue` at the broadcast. -/
theorem shutdown_ends (n : Nat) :
    (∀ es (p : Process n), Run Process.step LeavesNobody (init n) es p →
      (p.main.flushed → ∀ i, p.CanReturn i) ∧ ¬ p.Deadlocked) ∧
    ∀ es (p : Process n), Run Process.step Any (init n) es p → p.main.flushed →
      ∃ es₁ b es₂, es = es₁ ++ .main :: es₂ ∧ Run Process.step Any (init n) es₁ b ∧
        b.main = .broadcasting ∧ ∀ i, p.CanReturn i ↔ ¬ (b.workers i).InPopQueue := by
  refine ⟨fun es p run => ?_, fun es p run hflushed => ?_⟩
  · have hsound := init_sound.run run
    have hnobody := init_sound.leaves nofun run
    refine ⟨fun hflushed i => hsound.canReturn hflushed (hnobody hflushed i), ?_⟩
    rintro ⟨hflushed, i, hwaiting, -⟩
    exact hnobody hflushed i (.inr hwaiting)
  · obtain ⟨es₁, b, es₂, hes, hb, hbroadcast, hsame⟩ := init_sound.broadcast rfl hflushed run
    refine ⟨es₁, b, es₂, hes, hb, hbroadcast, fun i => ?_⟩
    rw [(init_sound.run run).canReturn_iff hflushed, hsame i]

/-- A worker that has looked at `stop` before the broadcast. -/
theorem shutdown_of_one_worker :
    ∃ p : Process 1, p.main.flushed ∧ p.CanReturn 0 ∧ ¬ p.Deadlocked := by
  obtain ⟨p, run, hflushed⟩ : ∃ p, Run Process.step LeavesNobody (init 1)
      [.setStop, .worker 0, .main, .main, .main] p ∧ p.main.flushed := by
    refine ⟨_, .cons nofun rfl (.cons nofun rfl (.cons ?_ rfl (.cons ?_ rfl (.cons ?_ rfl
      (.nil _))))), rfl⟩
    · exact fun _ h => nomatch h
    · exact fun _ h => nomatch h
    · intro _ _ i
      obtain rfl : i = 0 := Subsingleton.elim _ _
      rintro (h | h) <;> cases h
  obtain ⟨hreturn, hlive⟩ := (shutdown_ends 1).1 _ p run
  exact ⟨p, hflushed, hreturn hflushed 0, hlive⟩

/-- One worker that waits when the main thread leaves: it wakes up, finds the queue empty, and
waits again. -/
def lateWaiter : List (ThreadEvent 1) :=
  [.worker 0, .worker 0, .setStop, .main, .main, .main, .worker 0]

/-- Its main thread waits for that worker, and the worker can never return. -/
theorem worker_left_waiting : ∃ p : Process 1, Run Process.step Any (init 1) lateWaiter p ∧
    p.stop = true ∧ p.main = .joining 0 ∧ p.Deadlocked ∧ ¬ p.CanReturn 0 := by
  have hend : (Run.steps Process.step (fun _ _ => true) (init 1) lateWaiter).map
      (fun p => (p.stop, p.main, p.workers 0, isemptyQueue p.heap (some p.pCommandQueue))) =
        some (true, .joining 0, .waiting, some true) := by decide +kernel
  obtain ⟨p, hsteps, hp⟩ := Option.map_eq_some_iff.mp hend
  simp only [Prod.mk.injEq] at hp
  obtain ⟨hstop, hmain, hworker, hempty⟩ := hp
  have run : Run Process.step Any (init 1) lateWaiter p :=
    (Run.of_steps hsteps).mono fun _ _ _ => trivial
  have hflushed : p.main.flushed := by rw [hmain]; rfl
  refine ⟨p, run, hstop, hmain, ⟨hflushed, 0, hworker, hempty⟩, fun hreturn => ?_⟩
  exact ((init_sound.run run).canReturn_iff hflushed).mp hreturn (.inr hworker)

end Process

end Ebotula
