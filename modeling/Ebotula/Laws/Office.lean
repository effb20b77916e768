import Ebotula.Laws.Shutdown

/-!
# The office

What the threads and their queue are for: an office in which the main thread hands in commands
and the workers take them, one at a time, from a list. `Process` does the same with the nodes and
the pointers of `queue.c`. `represents_step` is the one comparison of the two: step for step the
process and its office go together, so what holds of every run of the office holds of every run
of the process. A receipt says what a step has done to the queue.
-/

set_option autoImplicit false

namespace Ebotula

open Library

/-- What a step does to the queue. -/
inductive Receipt (n : Nat)
  /-- The main thread has handed in a command. -/
  | accepted (command : QueueData)
  /-- A worker has taken it. -/
  | taken (worker : Fin n) (command : QueueData)
  /-- The main thread has taken it and thrown it away. -/
  | flushed (command : QueueData)
  deriving DecidableEq, Repr

/-- The process as it is meant. -/
structure Office (n : Nat) where
  queue : List QueueData
  stop : Bool
  main : MainState
  workers : Fin n → WorkerState

namespace Office

variable {n : Nat}

def init (n : Nat) : Office n := ⟨[], false, .looking, fun _ => .looking⟩

def move (o : Office n) (i : Fin n) (state : WorkerState) : Office n :=
  { o with workers := Function.update o.workers i state }

/-- The next step of a worker that does not wait. -/
def serveWorker (o : Office n) (i : Fin n) : Option (List (Receipt n) × Office n) :=
  match o.workers i with
  | .looking => some ([], o.move i (if o.stop then .returned else .popping))
  | .popping =>
    match o.queue with
    | [] => some ([], o.move i .waiting)
    | d :: queue => some ([.taken i d], { o with queue }.move i (.executing (some d)))
  | .executing _ => some ([], o.move i .looking)
  | .waiting | .returned => none

/-- The next step of the main thread, unless it waits. -/
def serveMain (o : Office n) : Option (List (Receipt n) × Office n) :=
  match o.main with
  | .looking => some ([], { o with main := if o.stop then .flushing else .receiving })
  | .receiving => some ([], { o with main := .looking })
  | .flushing => some ([], { o with main := if o.queue = [] then .broadcasting else .popping })
  | .popping =>
    match o.queue with
    | [] => some ([], { o with main := .waiting })
    | d :: queue => some ([.flushed d], { o with queue, main := .flushing })
  | .broadcasting =>
    some ([], { o with
      main := .joining 0
      workers := fun i => if o.workers i = .waiting then .popping else o.workers i })
  | .joining worker =>
    if h : worker < n then
      if o.workers ⟨worker, h⟩ = .returned then some ([], { o with main := .joining (worker + 1) })
      else none
    else some ([], { o with main := .done })
  | .waiting | .done => none

/-- The workers after a signal that wakes `woken`. -/
def signal (o : Office n) : (woken : Option (Fin n)) → Option (Office n)
  | none => if ∀ i, o.workers i ≠ .waiting then some o else none
  | some i => if o.workers i = .waiting then some (o.move i .popping) else none

def serve (o : Office n) : ThreadEvent n → Option (List (Receipt n) × Office n)
  | .setStop => some ([], { o with stop := true })
  | .worker i => o.serveWorker i
  | .wake i => if o.workers i = .waiting then some ([], o.move i .popping) else none
  | .main => o.serveMain
  | .wakeMain => if o.main = .waiting then some ([], { o with main := .popping }) else none
  | .push mallocs command woken =>
    if o.main = .receiving then
      match refusal mallocs command with
      | some _ => some ([], o)
      | none =>
        (signal { o with queue := o.queue ++ [copyOf command] } woken).map fun o =>
          ([.accepted (copyOf command)], o)
    else none

def step (o : Office n) (e : ThreadEvent n) : Option (Office n) := (o.serve e).map Prod.snd

/-- What the step of an event does to the queue. -/
def receipts (o : Office n) (e : ThreadEvent n) : List (Receipt n) :=
  ((o.serve e).map Prod.fst).getD []

theorem step_of_serve {o o' : Office n} {e : ThreadEvent n} {r : List (Receipt n)}
    (h : o.serve e = some (r, o')) : o.step e = some o' ∧ o.receipts e = r := by
  rw [step, receipts, h]
  exact ⟨rfl, rfl⟩

theorem serve_of_step {o o' : Office n} {e : ThreadEvent n} (h : o.step e = some o') :
    o.serve e = some (o.receipts e, o') := by
  obtain ⟨⟨r, o'⟩, hserve, rfl⟩ := Option.map_eq_some_iff.mp h
  rw [hserve, (step_of_serve hserve).2]

end Office

namespace Process

variable {n : Nat}

/-- What the step of an event does to the queue, by what `pushQueue` and `popQueue` answer. -/
def receipts (p : Process n) : ThreadEvent n → List (Receipt n)
  | .worker i => if p.workers i = .popping then popped (.taken i) else []
  | .main => if p.main = .popping then popped .flushed else []
  | .push mallocs command _ =>
    if p.main = .receiving then
      match pushQueue p.heap mallocs (some p.pCommandQueue) command with
      | some (.success, _) => [.accepted (copyOf command)]
      | _ => []
    else []
  | .setStop | .wake _ | .wakeMain => []
where
  popped (receipt : QueueData → Receipt n) : List (Receipt n) :=
    match popQueue p.heap (some p.pCommandQueue) with
    | some (.returns (some d), _) => [receipt d]
    | _ => []

/-- The process and its office: the ring holds what is in the list. -/
structure Represents (p : Process n) (o : Office n) : Prop where
  ring : ∃ l, p.heap.Ring p.pCommandQueue l o.queue
  stop : p.stop = o.stop
  main : p.main = o.main
  workers : p.workers = o.workers

theorem init_represents : (init n).Represents (.init n) :=
  ⟨⟨[], ring_initQueue⟩, rfl, rfl, rfl⟩

/-! ## Step for step -/

variable {p p' : Process n} {o o' : Office n} {l : List Addr} {i : Fin n}

/-- What the process sees of a step is what the office does, and they stay alike. -/
def Agree (p : Process n) (o : Office n) (e : ThreadEvent n) : Prop :=
  Option.Rel (fun p' r => p.receipts e = r.1 ∧ p'.Represents r.2) (p.step e) (o.serve e)

theorem Represents.move (h : p.Represents o) (i : Fin n) (state : WorkerState) :
    (p.move i state).Represents (o.move i state) where
  ring := h.ring
  stop := h.stop
  main := h.main
  workers := congrArg (fun workers : Fin n → WorkerState => Function.update workers i state)
    h.workers

/-- A pop takes the oldest command out of the ring as out of the list. -/
theorem Represents.pop (h : p.Represents o) :
    (o.queue = [] ∧ popQueue p.heap (some p.pCommandQueue) = some (.waits, p.heap)) ∨
      ∃ d queue heap, o.queue = d :: queue ∧
        popQueue p.heap (some p.pCommandQueue) = some (.returns (some d), heap) ∧
        { p with heap }.Represents { o with queue } := by
  obtain ⟨l, hring⟩ := h.ring
  rcases popQueue_ring hring with hempty | ⟨d, queue, heap, l', hqueue, hpop, hring'⟩
  · exact .inl hempty
  · exact .inr ⟨d, queue, heap, hqueue, hpop, ⟨l', hring'⟩, h.stop, h.main, h.workers⟩

theorem agree_worker (h : p.Represents o) (i : Fin n) : p.Agree o (.worker i) := by
  have hstep : p.step (.worker i) = p.stepWorker i := rfl
  have hserve : o.serve (.worker i) = o.serveWorker i := rfl
  unfold Agree
  rw [hstep, hserve, stepWorker, Office.serveWorker, ← congrFun h.workers i, receipts]
  cases hw : p.workers i with
  | looking =>
    rw [h.stop]
    exact .some ⟨rfl, h.move i _⟩
  | popping =>
    rcases h.pop with ⟨hqueue, hpop⟩ | ⟨d, queue, heap, hqueue, hpop, h'⟩
    · rw [hqueue, receipts.popped, hpop]
      exact .some ⟨rfl, h.move i _⟩
    · rw [hqueue, receipts.popped, hpop]
      exact .some ⟨rfl, h'.move i _⟩
  | waiting | returned => exact .none
  | executing pCommand => exact .some ⟨rfl, h.move i _⟩

theorem agree_main (h : p.Represents o) : p.Agree o .main := by
  have hstep : p.step .main = p.stepMain := rfl
  have hserve : o.serve .main = o.serveMain := rfl
  have hpop := h.pop
  obtain ⟨queue, stop, main, workers⟩ := o
  obtain ⟨⟨l, hring⟩, hstop, hmain, hworkers⟩ := h
  dsimp only at hring hstop hmain hworkers hpop
  subst hstop hmain hworkers
  unfold Agree
  rw [hstep, hserve, stepMain, Office.serveMain, receipts]
  dsimp only
  cases hm : p.main with
  | looking => exact .some ⟨rfl, ⟨l, hring⟩, rfl, rfl, rfl⟩
  | receiving => exact .some ⟨rfl, ⟨l, hring⟩, rfl, rfl, rfl⟩
  | flushing =>
    dsimp only
    rw [hring.isfullQueue]
    cases queue with
    | nil => exact .some ⟨rfl, ⟨l, hring⟩, rfl, rfl, rfl⟩
    | cons d queue => exact .some ⟨rfl, ⟨l, hring⟩, rfl, rfl, rfl⟩
  | popping =>
    rcases hpop with ⟨rfl, hpop⟩ | ⟨d, queue, heap, rfl, hpop, h'⟩
    · rw [receipts.popped, hpop]
      exact .some ⟨rfl, ⟨l, hring⟩, rfl, rfl, rfl⟩
    · rw [receipts.popped, hpop]
      exact .some ⟨rfl, h'.ring, rfl, rfl, rfl⟩
  | waiting | done => exact .none
  | broadcasting => exact .some ⟨rfl, ⟨l, hring⟩, rfl, rfl, rfl⟩
  | joining worker =>
    have hother : ¬ MainState.joining worker = .popping := fun h => by cases h
    rw [if_neg hother]
    dsimp only
    split
    · split
      · exact .some ⟨rfl, ⟨l, hring⟩, rfl, rfl, rfl⟩
      · exact .none
    · exact .some ⟨rfl, ⟨l, hring⟩, rfl, rfl, rfl⟩

theorem agree_push (h : p.Represents o) (mallocs : Mallocs) (command : QueueElement)
    (woken : Option (Fin n)) : p.Agree o (.push mallocs command woken) := by
  obtain ⟨queue, stop, main, workers⟩ := o
  obtain ⟨⟨l, hring⟩, hstop, hmain, hworkers⟩ := h
  dsimp only at hring hstop hmain hworkers
  subst hstop hmain hworkers
  unfold Agree
  rw [step, Office.serve, receipts]
  dsimp only
  by_cases hm : p.main = .receiving
  · rw [if_pos hm, if_pos hm, if_pos hm]
    cases hrefusal : refusal mallocs command with
    | some status =>
      have hne : status ≠ .success := by
        unfold refusal at hrefusal
        split_ifs at hrefusal <;> cases hrefusal <;> exact fun h => by cases h
      rw [hring.pushQueue_refused hrefusal]
      cases status with
      | success => exact absurd rfl hne
      | error | memoryAllocError | noElementLeft | nullPointerAsInParameter =>
        exact .some ⟨rfl, ⟨l, hring⟩, rfl, rfl, rfl⟩
    | none =>
      obtain ⟨heap, hsuccess, hring'⟩ := hring.pushQueue_accepted hrefusal
      have h' : { p with heap }.Represents
          ⟨queue ++ [copyOf command], p.stop, p.main, p.workers⟩ := ⟨⟨_, hring'⟩, rfl, rfl, rfl⟩
      rw [hsuccess]
      cases woken with
      | none =>
        dsimp only [Option.bind_eq_bind, Option.bind_some, signal, Office.signal]
        split
        · exact .some ⟨rfl, h'⟩
        · exact .none
      | some i =>
        dsimp only [Option.bind_eq_bind, Option.bind_some, signal, Office.signal]
        split
        · exact .some ⟨rfl, h'.move i _⟩
        · exact .none
  · rw [if_neg hm, if_neg hm, if_neg hm]
    exact .none

/-- The process and its office go together. -/
theorem agree_step (h : p.Represents o) (e : ThreadEvent n) : p.Agree o e := by
  cases e with
  | setStop => exact .some ⟨rfl, h.ring, rfl, h.main, h.workers⟩
  | worker i => exact agree_worker h i
  | wake i =>
    unfold Agree
    rw [step, Office.serve, ← congrFun h.workers i]
    split
    · exact .some ⟨rfl, h.move i _⟩
    · exact .none
  | main => exact agree_main h
  | wakeMain =>
    unfold Agree
    rw [step, Office.serve, ← h.main]
    split
    · exact .some ⟨rfl, h.ring, h.stop, rfl, h.workers⟩
    · exact .none
  | push mallocs command woken => exact agree_push h mallocs command woken

/-! ## Run for run -/

theorem Represents.step {e : ThreadEvent n} (h : p.Represents o) (hstep : p.step e = some p') :
    ∃ o', o.step e = some o' ∧ p'.Represents o' ∧ p.receipts e = o.receipts e := by
  have hagree := agree_step h e
  unfold Agree at hagree
  rw [hstep] at hagree
  cases hserve : o.serve e with
  | none =>
    rw [hserve] at hagree
    cases hagree
  | some r =>
    rw [hserve] at hagree
    obtain ⟨hreceipts, h'⟩ := Option.rel_some_some.mp hagree
    obtain ⟨hs, hr⟩ := Office.step_of_serve hserve
    exact ⟨r.2, hs, h', hreceipts.trans hr.symm⟩

theorem Represents.serve {e : ThreadEvent n} (h : p.Represents o) (hstep : o.step e = some o') :
    ∃ p', p.step e = some p' ∧ p'.Represents o' := by
  have hagree := agree_step h e
  unfold Agree at hagree
  rw [Office.serve_of_step hstep] at hagree
  cases hp : p.step e with
  | none =>
    rw [hp] at hagree
    cases hagree
  | some p' =>
    rw [hp] at hagree
    exact ⟨p', rfl, (Option.rel_some_some.mp hagree).2⟩

/-- Every run of the process is a run of its office, with the same receipts. -/
theorem Represents.run {es : List (ThreadEvent n)} (h : p.Represents o)
    (run : Run Process.step Any p es p') :
    ∃ o', Run Office.step (fun _ _ => True) o es o' ∧ p'.Represents o' ∧
      observed Process.step receipts p es = observed Office.step Office.receipts o es := by
  induction run generalizing o with
  | nil => exact ⟨o, .nil o, h, rfl⟩
  | cons _ hstep _ ih =>
    obtain ⟨o₁, hserve, h₁, hreceipts⟩ := h.step hstep
    obtain ⟨o', run', h', hobserved⟩ := ih h₁
    refine ⟨o', .cons trivial hserve run', h', ?_⟩
    rw [observed, observed, hstep, hserve, hreceipts, Option.map_some, Option.map_some, hobserved]

/-- Every run of the office is one of the process. -/
theorem Represents.serves {ok : ThreadEvent n → Prop} {es : List (ThreadEvent n)}
    (h : p.Represents o) (run : Run Office.step (fun _ e => ok e) o es o') :
    ∃ p', Run Process.step (fun _ e => ok e) p es p' ∧ p'.Represents o' :=
  run.simulate (R := fun (o : Office n) (p : Process n) => p.Represents o)
    (fun _ _ _ _ h hok hstep => by
      obtain ⟨p', hp, h'⟩ := h.serve hstep
      exact ⟨hok, p', hp, h'⟩) h

end Process

end Ebotula
