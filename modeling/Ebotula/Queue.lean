import Ebotula.Types

/-!
# The queue

`queue.c`: a ring of nodes that starts and ends at a sentinel. A node is an address, and the
nodes in use are what is allocated there and not freed. Everything between the lock and the
unlock of `queue_mutex` is one function of the memory. It answers `none` where it would follow a
pointer that is NULL, or leads to no node: the program has no meaning from there on.

`popQueue` waits on `StopThreadCond` while the queue is empty. Here it answers `waits` then,
and has changed nothing: it is called once more when the thread wakes up.
-/

set_option autoImplicit false

namespace Ebotula

/-- `QueueExeStatus`. -/
inductive QueueExeStatus
  | success
  | error
  | memoryAllocError
  | noElementLeft
  | nullPointerAsInParameter
  deriving DecidableEq, Repr

/-- `QueueType`. -/
inductive QueueType
  | queueNone
  | queueSentinel
  deriving DecidableEq, Repr

/-- `QueueData` as a caller passes it: the bytes are those that `data` leads to. -/
structure QueueElement where
  t_size : Int
  data : Option (Nat → UInt8)

/-- `QueueData` as the queue stores it, with the copy that it has made. -/
structure QueueData where
  t_size : Int
  data : Option (List UInt8)
  deriving DecidableEq, Repr

/-- `struct tag_Queue`. The mutex and the condition are there, or the pointer is NULL. -/
structure Queue where
  next : Option Addr
  prev : Option Addr
  sentinel : Option Addr
  iterator : Option Addr
  queuetypeT : QueueType
  queuedataData : Option QueueData
  longCount : Nat
  queue_mutex : Bool
  stopThreadCond : Bool
  deriving DecidableEq, Repr

/-- The nodes in use, and the next unused address. -/
structure QueueHeap where
  nodes : Addr → Option Queue
  unused : Addr

/-- Which of the three allocations of `pushQueue` succeed. -/
structure Mallocs where
  queue : Bool
  queuedataData : Bool
  data : Bool
  deriving DecidableEq, Repr

/-- What a routine that may wait answers. -/
inductive Outcome (α : Type)
  | waits
  | returns (answer : α)
  deriving DecidableEq, Repr

namespace QueueHeap

/-- Writing a node that is in use. -/
def modify (heap : QueueHeap) (a : Option Addr) (f : Queue → Queue) : Option QueueHeap := do
  let a ← a
  let node ← heap.nodes a
  return { heap with nodes := Function.update heap.nodes a (some (f node)) }

/-- `malloc` of a node with its contents. -/
def alloc (heap : QueueHeap) (node : Queue) : Addr × QueueHeap :=
  (heap.unused,
    { nodes := Function.update heap.nodes heap.unused (some node)
      unused := heap.unused + 1 })

/-- `free` of a node. -/
def free (heap : QueueHeap) (a : Addr) : QueueHeap :=
  { heap with nodes := Function.update heap.nodes a none }

/-- No node is in use. -/
def empty : QueueHeap := ⟨fun _ => none, 0⟩

end QueueHeap

/-- `initQueue`, when its allocations succeed. -/
def initQueue (heap : QueueHeap) : Addr × QueueHeap :=
  heap.alloc
    { next := some heap.unused
      prev := some heap.unused
      sentinel := some heap.unused
      iterator := some heap.unused
      queuetypeT := .queueSentinel
      queuedataData := none
      longCount := 0
      queue_mutex := true
      stopThreadCond := true }

/-- The copy of an element that `pushQueue` stores. -/
def copyOf (queuedataElement : QueueElement) : QueueData where
  t_size := queuedataElement.t_size
  data :=
    if queuedataElement.t_size > 0 then
      queuedataElement.data.map fun bytes => List.ofFn fun i : Fin queuedataElement.t_size.toNat =>
        bytes i
    else none

/-- The sentinel of a queue, if the queue can be used. -/
def usable (heap : QueueHeap) (pqueueIn : Option Addr) : Option (Option (Addr × Queue)) :=
  match pqueueIn with
  | none => some none
  | some pqueueIn => do
    let queue ← heap.nodes pqueueIn
    match queue.sentinel with
    | none => return none
    | some s =>
      let sentinel ← heap.nodes s
      return if sentinel.queue_mutex ∧ sentinel.stopThreadCond then some (s, sentinel) else none

/-- The node that `pushQueue` links in. What it does not set is left as it is read nowhere. -/
def queueNode (next : Option Addr) (s : Addr) (copy : QueueData) : Queue where
  next := next
  prev := some s
  sentinel := some s
  iterator := none
  queuetypeT := .queueNone
  queuedataData := some copy
  longCount := 0
  queue_mutex := false
  stopThreadCond := false

/-- `pushQueue` from "assembling Queue" on, for the copy that was made. -/
def assemble (heap : QueueHeap) (s : Addr) (sentinel : Queue) (copy : QueueData) :
    Option QueueHeap := do
  let (new, heap) := heap.alloc (queueNode sentinel.next s copy)
  let first := if sentinel.longCount = 0 then some s else sentinel.next
  let heap ← heap.modify first fun n => { n with prev := some new }
  heap.modify (some s) fun n => { n with next := some new, longCount := n.longCount + 1 }

/-- `pushQueue`. -/
def pushQueue (heap : QueueHeap) (mallocs : Mallocs) (pqueueIn : Option Addr)
    (queuedataElement : QueueElement) : Option (QueueExeStatus × QueueHeap) := do
  match ← usable heap pqueueIn with
  | none => return (.nullPointerAsInParameter, heap)
  | some (s, sentinel) =>
    if queuedataElement.t_size > 0 ∧ queuedataElement.data.isNone then
      return (.nullPointerAsInParameter, heap)
    if !mallocs.queue || !mallocs.queuedataData then return (.memoryAllocError, heap)
    if queuedataElement.t_size > 0 ∧ !mallocs.data then return (.memoryAllocError, heap)
    let heap ← assemble heap s sentinel (copyOf queuedataElement)
    return (.success, heap)

/-- `popQueue` under "poping", for the node in front of the sentinel. -/
def takeOut (heap : QueueHeap) (s own pqueueOld : Addr) (old : Queue) : Option QueueHeap := do
  let heap ← heap.modify (some s) fun n => { n with prev := old.prev }
  let heap ← heap.modify old.prev fun n => { n with next := some own }
  let heap ← heap.modify (some own) fun n => { n with longCount := n.longCount - 1 }
  return heap.free pqueueOld

/-- `popQueue` up to the next time it waits. -/
def popQueue (heap : QueueHeap) (pqueueIn : Option Addr) :
    Option (Outcome (Option QueueData) × QueueHeap) := do
  match ← usable heap pqueueIn with
  | none => return (.returns none, heap)
  | some (s, sentinel) =>
    if sentinel.longCount ≤ 0 then return (.waits, heap)
    -- `pqueueWork` is the sentinel from here on, and this its own `sentinel`
    let own ← sentinel.sentinel
    if (← heap.nodes own).prev ≠ some own then
      let pqueueOld ← sentinel.prev
      let old ← heap.nodes pqueueOld
      let heap ← takeOut heap s own pqueueOld old
      -- the unlock goes through `pqueueIn` once more
      let _ ← usable heap pqueueIn
      return (.returns old.queuedataData, heap)
    return (.returns none, heap)

/-- `isemptyQueue`, which does not look at the condition. -/
def isemptyQueue (heap : QueueHeap) (pqueueIn : Option Addr) : Option Bool :=
  match pqueueIn with
  | none => some true
  | some pqueueIn => do
    let queue ← heap.nodes pqueueIn
    match queue.sentinel with
    | none => return true
    | some s =>
      let sentinel ← heap.nodes s
      return !sentinel.queue_mutex || sentinel.longCount == 0

/-- `isfullQueue`. -/
def isfullQueue (heap : QueueHeap) (pqueueIn : Option Addr) : Option Bool :=
  (isemptyQueue heap pqueueIn).map (!·)

/-- The loop of `flushQueue`. Every turn takes a node out, and every node is below the fuel. -/
def flushLoop : (fuel : Nat) → QueueHeap → Option Addr → Option (Outcome Unit × QueueHeap)
  | 0, _, _ => none
  | fuel + 1, heap, pqueueIn => do
    if !(← isfullQueue heap pqueueIn) then return (.returns (), heap)
    match ← popQueue heap pqueueIn with
    | (.waits, heap) => return (.waits, heap)
    | (.returns _, heap) => flushLoop fuel heap pqueueIn

/-- `flushQueue`. -/
def flushQueue (heap : QueueHeap) (pqueueIn : Option Addr) :
    Option (Outcome QueueExeStatus × QueueHeap) :=
  match pqueueIn with
  | none => some (.returns .nullPointerAsInParameter, heap)
  | some pqueueIn => do
    match ← flushLoop (heap.unused + 1) heap (some pqueueIn) with
    | (.waits, heap) => return (.waits, heap)
    | (.returns _, heap) => return (.returns .success, heap)

/-! ## The iterator -/

/-- `SetIterToFirstQueue`: a macro, that neither locks nor looks for NULL. -/
def setIterToFirstQueue (heap : QueueHeap) (pqueueIn : Option Addr) : Option QueueHeap := do
  let queue ← heap.nodes (← pqueueIn)
  heap.modify queue.sentinel fun n => { n with iterator := queue.sentinel }

/-- `getNextitrQueue`. -/
def getNextitrQueue (heap : QueueHeap) (pqueueIn : Option Addr) :
    Option (Option QueueData × QueueHeap) :=
  match pqueueIn with
  | none => some (none, heap)
  | some pqueueIn => do
    let s ← (← heap.nodes pqueueIn).sentinel
    let sentinel ← heap.nodes s
    -- the lock is taken without a look at it
    if !sentinel.queue_mutex then none
    if sentinel.longCount ≠ 0 then
      let iterator ← heap.nodes (← sentinel.iterator)
      if some s ≠ iterator.next then
        let next ← iterator.next
        let heap ← heap.modify (some s) fun n => { n with iterator := some next }
        return ((← heap.nodes next).queuedataData, heap)
    return (none, heap)

/-! ## Calls -/

/-- A call for the queue that `initQueue` has made. -/
inductive QueueCall
  | pushQueue (mallocs : Mallocs) (queuedataElement : QueueElement)
  | popQueue
  | flushQueue

/-- What a call answers. -/
inductive QueueAnswer
  | pushed (status : QueueExeStatus)
  | popped (answer : Outcome (Option QueueData))
  | flushed (answer : Outcome QueueExeStatus)
  deriving DecidableEq, Repr

/-- One call, for the queue at `s`. -/
def QueueCall.run (heap : QueueHeap) (s : Addr) :
    QueueCall → Option (QueueAnswer × QueueHeap)
  | .pushQueue mallocs queuedataElement => do
    let (status, heap) ← Ebotula.pushQueue heap mallocs (some s) queuedataElement
    return (.pushed status, heap)
  | .popQueue => do
    let (answer, heap) ← Ebotula.popQueue heap (some s)
    return (.popped answer, heap)
  | .flushQueue => do
    let (answer, heap) ← Ebotula.flushQueue heap (some s)
    return (.flushed answer, heap)

/-- One call after the other. -/
def runCalls (s : Addr) : QueueHeap → List QueueCall → Option (List QueueAnswer × QueueHeap)
  | heap, [] => some ([], heap)
  | heap, call :: calls => do
    let (answer, heap) ← call.run heap s
    let (answers, heap) ← runCalls s heap calls
    return (answer :: answers, heap)

/-- `getNextitrQueue` as many times, for the queue at `pqueueIn`. -/
def nextItems (pqueueIn : Option Addr) :
    (times : Nat) → QueueHeap → Option (List (Option QueueData) × QueueHeap)
  | 0, heap => some ([], heap)
  | times + 1, heap => do
    let (answer, heap) ← getNextitrQueue heap pqueueIn
    let (answers, heap) ← nextItems pqueueIn times heap
    return (answer :: answers, heap)

/-- A call for the queue, or one for its iterator. -/
inductive IteratorCall
  | queue (call : QueueCall)
  | setIterToFirstQueue
  | getNextitrQueue

/-- What one call leaves of the queue at `s`. -/
def IteratorCall.step (s : Addr) (heap : QueueHeap) : IteratorCall → Option QueueHeap
  | .queue call => (call.run heap s).map (·.2)
  | .setIterToFirstQueue => Ebotula.setIterToFirstQueue heap (some s)
  | .getNextitrQueue => (Ebotula.getNextitrQueue heap (some s)).map (·.2)

end Ebotula
