import Ebotula.Queue
import Mathlib.Data.Fintype.Basic

/-!
# The threads and their end

`AppMain` and its workers, as far as they meet at the command queue. A step is what one thread
does under the queue's mutex, a wait or a wake-up on `StopThreadCond`, or a look at `stop`. A
thread that has called `popQueue` and does not wait is about to take the mutex. Anyone may set
`stop` at any time: a signal, a command, or the main thread that lost its server.

A `pthread_cond_signal` wakes a waiting thread if there is one, and a thread may wake up without
one. The workers are all that waits when the main thread signals.
-/

set_option autoImplicit false

namespace Ebotula

/-- Where a worker is in `CommandExecutionThread`. -/
inductive WorkerState
  /-- At the head of its loop. -/
  | looking
  /-- In `popQueue`, without the mutex. -/
  | popping
  /-- In `pthread_cond_wait`. -/
  | waiting
  /-- Behind `popQueue`, with what it has returned. -/
  | executing (pCommand : Option QueueData)
  | returned
  deriving DecidableEq, Repr

/-- Where the main thread is in `AppMain`. -/
inductive MainState
  /-- At the head of its loop. -/
  | looking
  /-- In the loop. -/
  | receiving
  /-- At the head of the loop of `flushQueue`. -/
  | flushing
  /-- In the `popQueue` of `flushQueue`, without the mutex. -/
  | popping
  /-- In the `pthread_cond_wait` of that call. -/
  | waiting
  /-- In front of the `pthread_cond_broadcast` of `flushQueue`. -/
  | broadcasting
  /-- In the `pthread_join` for this worker. -/
  | joining (worker : Nat)
  | done
  deriving DecidableEq, Repr

/-- The threads, with `n` workers, and what they share. -/
structure Process (n : Nat) where
  heap : QueueHeap
  pCommandQueue : Addr
  stop : Bool
  main : MainState
  workers : Fin n → WorkerState

/-- What can happen next. -/
inductive ThreadEvent (n : Nat)
  | setStop
  /-- The next step of a worker. -/
  | worker (i : Fin n)
  /-- A wake-up of a waiting worker. -/
  | wake (i : Fin n)
  /-- The next step of the main thread. -/
  | main
  /-- A wake-up of the main thread. -/
  | wakeMain
  /-- The main thread pushes, and its signal wakes this worker. -/
  | push (mallocs : Mallocs) (command : QueueElement) (woken : Option (Fin n))

namespace Process

variable {n : Nat}

/-- All threads are started. -/
def init (n : Nat) : Process n where
  heap := (initQueue .empty).2
  pCommandQueue := (initQueue .empty).1
  stop := false
  main := .looking
  workers := fun _ => .looking

/-- A worker goes on. -/
def move (p : Process n) (i : Fin n) (state : WorkerState) : Process n :=
  { p with workers := Function.update p.workers i state }

/-- The next step of a worker that does not wait. -/
def stepWorker (p : Process n) (i : Fin n) : Option (Process n) :=
  match p.workers i with
  | .looking => some (p.move i (if p.stop then .returned else .popping))
  | .popping => do
    match ← popQueue p.heap (some p.pCommandQueue) with
    | (.waits, heap) => return { p with heap }.move i .waiting
    | (.returns pCommand, heap) => return { p with heap }.move i (.executing pCommand)
  | .executing _ => some (p.move i .looking)
  | .waiting | .returned => none

/-- The next step of the main thread, unless it waits. -/
def stepMain (p : Process n) : Option (Process n) :=
  match p.main with
  | .looking => some { p with main := if p.stop then .flushing else .receiving }
  | .receiving => some { p with main := .looking }
  | .flushing => do
    let full ← isfullQueue p.heap (some p.pCommandQueue)
    return { p with main := if full then .popping else .broadcasting }
  | .popping => do
    match ← popQueue p.heap (some p.pCommandQueue) with
    | (.waits, heap) => return { p with heap, main := .waiting }
    | (.returns _, heap) => return { p with heap, main := .flushing }
  | .broadcasting =>
    some { p with
      main := .joining 0
      workers := fun i => if p.workers i = .waiting then .popping else p.workers i }
  | .joining worker =>
    if h : worker < n then
      if p.workers ⟨worker, h⟩ = .returned then some { p with main := .joining (worker + 1) }
      else none
    else some { p with main := .done }
  | .waiting | .done => none

/-- The workers after a signal that wakes `woken`. -/
def signal (p : Process n) : (woken : Option (Fin n)) → Option (Process n)
  | none => if ∀ i, p.workers i ≠ .waiting then some p else none
  | some i => if p.workers i = .waiting then some (p.move i .popping) else none

/-- One step. -/
def step (p : Process n) : ThreadEvent n → Option (Process n)
  | .setStop => some { p with stop := true }
  | .worker i => p.stepWorker i
  | .wake i => if p.workers i = .waiting then some (p.move i .popping) else none
  | .main => p.stepMain
  | .wakeMain => if p.main = .waiting then some { p with main := .popping } else none
  | .push mallocs command woken =>
    if p.main = .receiving then do
      match ← pushQueue p.heap mallocs (some p.pCommandQueue) command with
      | (.success, heap) => signal { p with heap } woken
      | (_, heap) => return { p with heap }
    else none

end Process

end Ebotula
