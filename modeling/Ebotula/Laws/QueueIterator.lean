import Ebotula.Laws.Queue
import Ebotula.Library.Run

/-!
# The iterator of a queue

The sentinel keeps a pointer to the node that was answered last. `getNextitrQueue` only moves this
pointer: a queue is the same before and after, but for the iterator (`turn`), and after a reset
the calls answer the nodes of the ring in their order, then nothing more.

The pointer is moved by these two operations alone. `pushQueue` links new nodes in behind the
sentinel, so the iterator stays on its node; but `popQueue` frees the node in front of the
sentinel, wherever the iterator is. `SparesIterator` is what a step has to meet.
-/

set_option autoImplicit false

namespace Ebotula

open Library

namespace QueueHeap

/-- `iterator` of a node. -/
def iteratorOf (heap : QueueHeap) (a : Addr) : Option Addr := (heap.nodes a).bind (·.iterator)

/-- The same queue with its iterator at another place. -/
def turn (heap : QueueHeap) (s : Addr) (i : Option Addr) : QueueHeap :=
  { heap with
    nodes := Function.update heap.nodes s ((heap.nodes s).map fun n => { n with iterator := i }) }

/-- The iterator is at the sentinel, or at a node that `next` leads to from there. -/
def IteratorLinked (heap : QueueHeap) (s : Addr) : Prop :=
  ∃ i, heap.iteratorOf s = some i ∧ (i = s ∨ ∃ ring, heap.ringByNext s = some ring ∧ i ∈ ring)

end QueueHeap

open QueueHeap

section Turn

variable {heap : QueueHeap} {s q a : Addr} {i j : Option Addr} {l xs ys : List Addr}
  {queue : List QueueData}

theorem nodes_turn_self :
    (heap.turn s i).nodes s = (heap.nodes s).map fun n => { n with iterator := i } :=
  Function.update_self ..

theorem nodes_turn_of_ne (ha : a ≠ s) : (heap.turn s i).nodes a = heap.nodes a :=
  Function.update_of_ne ha ..

/-- A field other than the iterator is read as before. -/
theorem bind_turn {α : Type} (f : Queue → Option α)
    (hf : ∀ node, f { node with iterator := i } = f node) :
    ((heap.turn s i).nodes a).bind f = (heap.nodes a).bind f := by
  by_cases ha : a = s
  · subst ha
    rw [nodes_turn_self]
    cases heap.nodes a with
    | none => rfl
    | some node => exact hf node
  · rw [nodes_turn_of_ne ha]

@[simp] theorem nextOf_turn : (heap.turn s i).nextOf a = heap.nextOf a :=
  bind_turn _ fun _ => rfl

@[simp] theorem prevOf_turn : (heap.turn s i).prevOf a = heap.prevOf a :=
  bind_turn _ fun _ => rfl

@[simp] theorem sentinelOf_turn : (heap.turn s i).sentinelOf a = heap.sentinelOf a :=
  bind_turn _ fun _ => rfl

@[simp] theorem dataOf_turn : (heap.turn s i).dataOf a = heap.dataOf a :=
  bind_turn _ fun _ => rfl

theorem longCount_turn :
    ((heap.turn s i).nodes a).map (·.longCount) = (heap.nodes a).map (·.longCount) := by
  rw [Option.map_eq_bind, Option.map_eq_bind]
  exact bind_turn _ fun _ => rfl

theorem isSome_turn : ((heap.turn s i).nodes a).isSome = (heap.nodes a).isSome := by
  have hmap := congrArg Option.isSome (@longCount_turn heap s a i)
  rwa [Option.isSome_map, Option.isSome_map] at hmap

@[simp] theorem turn_turn : (heap.turn s i).turn s j = heap.turn s j := by
  refine congrArg (QueueHeap.mk · heap.unused) ?_
  show Function.update (Function.update heap.nodes s _) s _ = _
  rw [Function.update_idem, nodes_turn_self, Option.map_map]
  rfl

theorem nodes_turn {node : Queue} (hnode : heap.nodes s = some node) :
    (heap.turn s i).nodes s = some { node with iterator := i } := by
  rw [nodes_turn_self, hnode, Option.map_some]

theorem turn_self (hs : (heap.nodes s).isSome) : heap.turn s (heap.iteratorOf s) = heap := by
  obtain ⟨node, hnode⟩ := Option.isSome_iff_exists.mp hs
  have hmap : (heap.nodes s).map (fun n => { n with iterator := heap.iteratorOf s }) =
      heap.nodes s := by
    rw [iteratorOf, hnode, Option.bind_some, Option.map_some]
  rw [QueueHeap.turn, hmap, Function.update_eq_self]

/-- A ring does not depend on its iterator. -/
theorem QueueHeap.Ring.turn (h : heap.Ring s l queue) (i : Option Addr) :
    (heap.turn s i).Ring s l queue := by
  obtain ⟨node, hnode, hs⟩ := h.node
  exact
    { nodup := h.nodup
      node := ⟨_, nodes_turn hnode, hs.next, hs.prev, hs.sentinel, hs.count, hs.mutex, hs.cond⟩
      links := h.links.congr (fun a _ => prevOf_turn) fun a _ => nextOf_turn
      owner := fun a ha => sentinelOf_turn.trans (h.owner a ha)
      data := (List.map_congr_left fun a _ => dataOf_turn).trans h.data
      used := fun a => by rw [isSome_turn, h.used]
      below := h.below }

end Turn

/-! ## One pass through the queue -/

section Pass

variable {heap : QueueHeap} {s q a : Addr} {i : Option Addr} {l xs ys : List Addr}
  {queue : List QueueData}

/-- Every node of the ring, the sentinel too, leads to the sentinel. -/
theorem QueueHeap.Ring.toSentinel (h : heap.Ring s l queue) (hq : q ∈ s :: l) :
    ∃ node, heap.nodes q = some node ∧ node.sentinel = some s := by
  obtain ⟨node, hnode⟩ := Option.isSome_iff_exists.mp ((h.used q).mpr hq)
  refine ⟨node, hnode, ?_⟩
  rcases List.mem_cons.mp hq with rfl | hq
  · obtain ⟨sentinel, hsentinel, hs⟩ := h.node
    obtain rfl := Option.some.inj (hnode.symm.trans hsentinel)
    exact hs.sentinel
  · have howner := h.owner q hq
    rwa [sentinelOf, hnode, Option.bind_some] at howner

/-- Behind the first nodes of a ring, or behind the sentinel, come the others. -/
theorem QueueHeap.Ring.nextOf_last (h : heap.Ring s (xs ++ ys) queue)
    (ha : xs.getLast?.or (some s) = some a) : heap.nextOf a = ys.head?.or (some s) := by
  rcases List.eq_nil_or_concat xs with rfl | ⟨xs, b, rfl⟩
  · obtain ⟨node, hnode, hs⟩ := h.node
    obtain rfl : s = a := Option.some.inj ha
    rw [nextOf, hnode, Option.bind_some, hs.next, List.nil_append]
  · rw [List.concat_eq_append, List.getLast?_concat, Option.some_or] at ha
    obtain rfl : b = a := Option.some.inj ha
    have hlinks := h.links
    rw [List.concat_eq_append, List.append_assoc] at hlinks
    exact hlinks.links.2

theorem QueueHeap.Ring.setIter (h : heap.Ring s l queue) (hq : q ∈ s :: l) :
    setIterToFirstQueue heap (some q) = some (heap.turn s (some s)) := by
  obtain ⟨node, hnode, hsentinel⟩ := h.toSentinel hq
  obtain ⟨sentinel, hs, -⟩ := h.node
  simp only [setIterToFirstQueue, modify, QueueHeap.turn, hnode, hsentinel, hs, Option.bind_eq_bind,
    Option.bind_some, Option.pure_def, Option.map_some]

/-- With the iterator behind some of the nodes, a call answers the next one and moves there. -/
theorem QueueHeap.Ring.getNextitrQueue (h : heap.Ring s (xs ++ ys) queue)
    (hq : q ∈ s :: (xs ++ ys)) (hi : heap.iteratorOf s = xs.getLast?.or (some s)) :
    getNextitrQueue heap (some q) = some (match ys with
      | [] => (none, heap)
      | a :: _ => (heap.dataOf a, heap.turn s (some a))) := by
  obtain ⟨node, hnode, hsentinel⟩ := h.toSentinel hq
  obtain ⟨sentinel, hs, hring⟩ := h.node
  obtain ⟨last, hlast⟩ : ∃ last, xs.getLast?.or (some s) = some last := by
    cases xs.getLast? <;> exact ⟨_, rfl⟩
  have hiterator : sentinel.iterator = some last := by
    rwa [iteratorOf, hs, Option.bind_some, hlast] at hi
  have hnext := h.nextOf_last hlast
  obtain ⟨current, hcurrent, hlinked⟩ : ∃ current, heap.nodes last = some current ∧
      current.next = ys.head?.or (some s) := by
    unfold nextOf at hnext
    cases hc : heap.nodes last with
    | none =>
      rw [hc] at hnext
      cases ys <;> cases hnext
    | some current =>
      rw [hc, Option.bind_some] at hnext
      exact ⟨current, rfl, hnext⟩
  have hcount := hring.count
  cases ys with
  | nil =>
    have hend : current.next = some s := hlinked
    simp only [Ebotula.getNextitrQueue, hnode, hsentinel, hs, hring.mutex, hiterator, hcurrent,
      hend, Option.bind_eq_bind, Option.bind_some, Bool.not_true, Bool.false_eq_true, if_false,
      ne_eq, not_true_eq_false, Option.pure_def, ite_self]
  | cons a ys =>
    have hend : current.next = some a := hlinked
    have has : a ≠ s := fun he => (List.nodup_cons.mp h.nodup).1
      (he ▸ List.mem_append_right _ List.mem_cons_self)
    have hother : ¬ some s = some a := fun he => has (Option.some.inj he).symm
    have hsome : ¬ sentinel.longCount = 0 := by
      rw [hcount, List.length_append, List.length_cons]
      omega
    obtain ⟨new, hnew⟩ := Option.isSome_iff_exists.mp ((h.used a).mpr
      (List.mem_cons_of_mem _ (List.mem_append_right _ List.mem_cons_self)))
    simp only [Ebotula.getNextitrQueue, hnode, hsentinel, hs, hring.mutex, hiterator, hcurrent,
      hend, hsome, hother, hnew, modify, QueueHeap.turn, dataOf, Function.update_of_ne has,
      Option.bind_eq_bind, Option.bind_some, Bool.not_true, Bool.false_eq_true, if_false, if_true,
      ne_eq, not_false_eq_true, Option.pure_def, Option.map_some]

/-- From a place in the ring on, the calls answer the nodes that are left, and then nothing. -/
theorem QueueHeap.Ring.nextItems (h : heap.Ring s (xs ++ ys) queue)
    (hq : q ∈ s :: (xs ++ ys)) (hi : heap.iteratorOf s = xs.getLast?.or (some s)) (times : Nat) :
    nextItems (some q) times heap =
      some ((ys.map heap.dataOf ++ List.replicate times none).take times,
        heap.turn s ((xs ++ ys.take times).getLast?.or (some s))) := by
  have hself := turn_self ((h.used s).mpr List.mem_cons_self)
  induction times generalizing heap xs ys with
  | zero =>
    rw [List.take_zero, List.take_zero, List.append_nil, ← hi, hself]
    rfl
  | succ times ih =>
    rw [Ebotula.nextItems, h.getNextitrQueue hq hi]
    cases ys with
    | nil =>
      have hrest := ih h hq hi hself
      simp only [Option.bind_eq_bind, Option.bind_some, hrest, Option.pure_def, List.map_nil,
        List.nil_append, List.take_nil, List.take_replicate, Nat.min_self]
      rfl
    | cons a ys =>
      have hxs : xs ++ a :: ys = (xs ++ [a]) ++ ys := (List.append_cons ..)
      have hturned := h.turn (some a)
      rw [hxs] at hturned hq
      have hat : (heap.turn s (some a)).iteratorOf s = (xs ++ [a]).getLast?.or (some s) := by
        obtain ⟨node, hnode, -⟩ := h.node
        rw [iteratorOf, nodes_turn hnode, List.getLast?_concat]
        rfl
      have hrest := ih hturned hq hat (turn_self ((hturned.used s).mpr List.mem_cons_self))
      have hdata : ys.map (heap.turn s (some a)).dataOf = ys.map heap.dataOf :=
        List.map_congr_left fun b _ => dataOf_turn
      -- one answer more behind the others is out of sight
      have hmore : (ys.map heap.dataOf ++ List.replicate (times + 1) none).take times =
          (ys.map heap.dataOf ++ List.replicate times none).take times := by
        rw [List.replicate_succ', ← List.append_assoc]
        refine List.take_append_of_le_length ?_
        rw [List.length_append, List.length_replicate]
        exact Nat.le_add_left ..
      simp only [Option.bind_eq_bind, Option.bind_some, hrest, hdata, hmore, turn_turn,
        Option.pure_def, List.map_cons, List.cons_append, List.take_succ_cons, List.append_assoc,
        List.nil_append]

/-- A pass is complete. After a reset the calls answer the data of all elements, each once and
the newest first, and from then on nothing; and the queue is as it was. -/
theorem iteration_complete (h : heap.Ring s l queue) (hq : q ∈ s :: l) (times : Nat) :
    ∃ first after, setIterToFirstQueue heap (some q) = some first ∧
      nextItems (some q) times first =
        some ((queue.reverse.map some ++ List.replicate times none).take times, after) ∧
      after.Ring s l queue ∧
      ∀ a, after.nextOf a = heap.nextOf a ∧ after.prevOf a = heap.prevOf a ∧
        after.dataOf a = heap.dataOf a ∧
        (after.nodes a).map (·.longCount) = (heap.nodes a).map (·.longCount) := by
  have hfirst := h.turn (some s)
  have hat : (heap.turn s (some s)).iteratorOf s = ([] : List Addr).getLast?.or (some s) := by
    obtain ⟨node, hnode, -⟩ := h.node
    rw [iteratorOf, nodes_turn hnode]
    rfl
  have hitems := QueueHeap.Ring.nextItems (List.nil_append l ▸ hfirst) hq hat times
  rw [hfirst.data, turn_turn] at hitems
  refine ⟨_, _, h.setIter hq, hitems, h.turn _, fun a => ?_⟩
  exact ⟨nextOf_turn, prevOf_turn, dataOf_turn, longCount_turn⟩

/-- Two elements were pushed, and a pass meets the second one first. -/
theorem iteration_complete_of_two :
    ∃ heap, runCalls 0 (initQueue .empty).2
        [.pushQueue ⟨true, true, true⟩ ⟨2, some fun i => i.toUInt8⟩,
          .pushQueue ⟨true, true, true⟩ ⟨0, none⟩] =
        some ([.pushed .success, .pushed .success], heap) ∧
      ∃ first after, setIterToFirstQueue heap (some 0) = some first ∧
        nextItems (some 0) 3 first =
          some ([some ⟨0, none⟩, some ⟨2, some [0, 1]⟩, none], after) := by
  obtain ⟨heap, l, hrun, hring⟩ := QueueHeap.Ring.calls
    (show Ring _ _ [] Fifo.empty.content from ring_initQueue)
    [.pushQueue ⟨true, true, true⟩ ⟨2, some fun i => i.toUInt8⟩,
      .pushQueue ⟨true, true, true⟩ ⟨0, none⟩]
  obtain ⟨first, after, hfirst, hitems, -⟩ :=
    iteration_complete hring (q := 0) List.mem_cons_self 3
  exact ⟨heap, hrun, first, after, hfirst, hitems⟩

end Pass

/-! ## The iterator and the nodes in use -/

/-- The iterator stays on a node that is linked in: the node that a pop frees is another one, and
a flush meets an iterator that is at the sentinel. -/
def IteratorCall.SparesIterator (heap : QueueHeap) (s : Addr) : IteratorCall → Prop
  | .queue .popQueue => heap.iteratorOf s = some s ∨ heap.iteratorOf s ≠ heap.prevOf s
  | .queue .flushQueue => heap.iteratorOf s = some s
  | _ => True

section Frame

variable {heap heap' : QueueHeap} {s a : Addr} {l : List Addr} {queue : List QueueData}

theorem iteratorOf_modify {p : Option Addr} {f : Queue → Queue}
    (h : heap.modify p f = some heap') (hf : ∀ node, (f node).iterator = node.iterator) :
    heap'.iteratorOf a = heap.iteratorOf a := by
  obtain ⟨b, -, h⟩ := Option.bind_eq_some_iff.mp h
  obtain ⟨node, hnode, h⟩ := Option.bind_eq_some_iff.mp h
  obtain rfl := Option.some.inj h
  by_cases ha : a = b
  · subst ha
    simp only [iteratorOf, Function.update_self, hnode, Option.bind_some, hf]
  · simp only [iteratorOf, Function.update_of_ne ha]

theorem iteratorOf_assemble {sentinel : Queue} {copy : QueueData}
    (h : assemble heap s sentinel copy = some heap') (hs : s ≠ heap.unused) :
    heap'.iteratorOf s = heap.iteratorOf s := by
  obtain ⟨linked, hlinked, h⟩ := Option.bind_eq_some_iff.mp h
  rw [iteratorOf_modify h fun _ => rfl, iteratorOf_modify hlinked fun _ => rfl]
  simp only [iteratorOf, Function.update_of_ne hs]

theorem iteratorOf_takeOut {own : Addr} {old : Queue}
    (h : takeOut heap s own a old = some heap') (hs : s ≠ a) :
    heap'.iteratorOf s = heap.iteratorOf s := by
  obtain ⟨first, hfirst, h⟩ := Option.bind_eq_some_iff.mp h
  obtain ⟨second, hsecond, h⟩ := Option.bind_eq_some_iff.mp h
  obtain ⟨third, hthird, h⟩ := Option.bind_eq_some_iff.mp h
  obtain rfl := Option.some.inj h
  have hthird' := iteratorOf_modify (a := s) hthird fun _ => rfl
  rw [← iteratorOf_modify (a := s) hfirst fun _ => rfl,
    ← iteratorOf_modify (a := s) hsecond fun _ => rfl, ← hthird']
  simp only [iteratorOf, QueueHeap.free, Function.update_of_ne hs]

/-- A push does not touch the iterator. -/
theorem QueueHeap.Ring.iteratorOf_pushQueue (h : heap.Ring s l queue) {mallocs : Mallocs}
    {element : QueueElement} {status : QueueExeStatus}
    (hpush : pushQueue heap mallocs (some s) element = some (status, heap')) :
    heap'.iteratorOf s = heap.iteratorOf s := by
  by_cases hstatus : status = .success
  · obtain ⟨node, -, -, husable⟩ := h.usable
    have hs : s ≠ heap.unused := fun he => h.unused_notMem (he ▸ List.mem_cons_self)
    simp only [pushQueue, husable, Option.bind_eq_bind, Option.bind_some] at hpush
    subst hstatus
    split_ifs at hpush
    · cases hpush
    · cases hpush
    · cases hpush
    · obtain ⟨made, hmade, hpush⟩ := Option.bind_eq_some_iff.mp hpush
      obtain rfl := (Prod.mk.inj (Option.some.inj hpush)).2
      exact iteratorOf_assemble hmade hs
  · rw [pushQueue_error hpush hstatus]

/-- Nor does a pop, also when it frees the node that the iterator is at. -/
theorem QueueHeap.Ring.iteratorOf_popQueue (h : heap.Ring s l queue)
    {answer : Outcome (Option QueueData)}
    (hpop : popQueue heap (some s) = some (answer, heap')) :
    heap'.iteratorOf s = heap.iteratorOf s := by
  obtain ⟨node, hnode, hs, husable⟩ := h.usable
  have hsame {r : Outcome (Option QueueData)} (hr : some (r, heap) = some (answer, heap')) :
      heap'.iteratorOf s = heap.iteratorOf s := by
    obtain rfl := (Prod.mk.inj (Option.some.inj hr)).2
    rfl
  simp only [popQueue, husable, Option.bind_eq_bind, Option.bind_some, hs.sentinel, hnode]
    at hpop
  split_ifs at hpop with hempty hprev
  · exact hsame hpop
  · obtain ⟨a, ha, hpop⟩ := Option.bind_eq_some_iff.mp hpop
    obtain ⟨old, -, hpop⟩ := Option.bind_eq_some_iff.mp hpop
    obtain ⟨made, hmade, hpop⟩ := Option.bind_eq_some_iff.mp hpop
    obtain ⟨_, -, hpop⟩ := Option.bind_eq_some_iff.mp hpop
    obtain rfl := (Prod.mk.inj (Option.some.inj hpop)).2
    refine iteratorOf_takeOut hmade fun he => hprev ?_
    rw [ha, he]
  · exact hsame hpop

theorem QueueHeap.Ring.iteratorOf_flushLoop (h : heap.Ring s l queue) {fuel : Nat}
    {answer : Outcome Unit} (hloop : Ebotula.flushLoop fuel heap (some s) = some (answer, heap')) :
    heap'.iteratorOf s = heap.iteratorOf s := by
  induction fuel generalizing heap l queue with
  | zero => cases hloop
  | succ fuel ih =>
    rw [Ebotula.flushLoop, h.isfullQueue] at hloop
    cases queue with
    | nil =>
      obtain rfl := (Prod.mk.inj (Option.some.inj hloop)).2
      rfl
    | cons d queue =>
      obtain ⟨l, a, rfl⟩ := h.eq_concat
      obtain ⟨rest, hpop, hrest⟩ := h.popQueue_some
      simp only [List.isEmpty_cons, Bool.not_false, Bool.not_true, Bool.false_eq_true, if_false,
        Option.bind_eq_bind, Option.bind_some, hpop] at hloop
      exact (ih hrest hloop).trans (h.iteratorOf_popQueue hpop)

theorem QueueHeap.Ring.iteratorOf_flushQueue (h : heap.Ring s l queue)
    {answer : Outcome QueueExeStatus}
    (hflush : Ebotula.flushQueue heap (some s) = some (answer, heap')) :
    heap'.iteratorOf s = heap.iteratorOf s := by
  obtain ⟨⟨done, after⟩, hloop, hflush⟩ := Option.bind_eq_some_iff.mp hflush
  have hafter : after = heap' := by
    cases done <;> exact (Prod.mk.inj (Option.some.inj hflush)).2
  exact hafter ▸ h.iteratorOf_flushLoop hloop

end Frame

section Runs

variable {heap : QueueHeap} {s : Addr} {l : List Addr} {queue : List QueueData}

theorem QueueHeap.Ring.iteratorLinked_iff (h : heap.Ring s l queue) :
    heap.IteratorLinked s ↔ ∃ i ∈ s :: l, heap.iteratorOf s = some i := by
  have hwalk := h.walks.1
  constructor
  · rintro ⟨i, hi, rfl | ⟨ring, hring, hmem⟩⟩
    · exact ⟨i, List.mem_cons_self, hi⟩
    · obtain rfl := Option.some.inj (hwalk.symm.trans hring)
      exact ⟨i, List.mem_cons_of_mem _ hmem, hi⟩
  · rintro ⟨i, hmem, hi⟩
    rcases List.mem_cons.mp hmem with rfl | hmem
    · exact ⟨i, hi, .inl rfl⟩
    · exact ⟨i, hi, .inr ⟨l, hwalk, hmem⟩⟩

/-- With another ring and the same iterator, it is a matter of the nodes that are left. -/
theorem QueueHeap.Ring.iteratorLinked_iff_mem {i : Addr} (h : heap.Ring s l queue)
    (hi : heap.iteratorOf s = some i) : heap.IteratorLinked s ↔ i ∈ s :: l := by
  rw [h.iteratorLinked_iff, hi]
  constructor
  · rintro ⟨j, hmem, hj⟩
    exact Option.some.inj hj ▸ hmem
  · exact fun hmem => ⟨i, hmem, rfl⟩

/-- An iterator in the ring is behind some of its nodes, and before the others. -/
theorem getLast?_of_mem {i : Addr} (hi : i ∈ s :: l) :
    ∃ xs ys, l = xs ++ ys ∧ xs.getLast?.or (some s) = some i := by
  rcases List.mem_cons.mp hi with rfl | hi
  · exact ⟨[], l, rfl, rfl⟩
  · obtain ⟨xs, ys, rfl⟩ := List.append_of_mem hi
    refine ⟨xs ++ [i], ys, List.append_cons .., ?_⟩
    rw [List.getLast?_concat, Option.some_or]

/-- A call can be made, and the iterator is linked in behind it exactly if the call spares it. -/
def IteratorCall.Steps (call : IteratorCall) (heap : QueueHeap) (s : Addr) : Prop :=
  ∃ heap' l' queue', call.step s heap = some heap' ∧ heap'.Ring s l' queue' ∧
    (heap'.IteratorLinked s ↔ call.SparesIterator heap s)

theorem QueueHeap.Ring.steps_pushQueue (h : heap.Ring s l queue)
    (hlinked : heap.IteratorLinked s) (mallocs : Mallocs) (element : QueueElement) :
    (IteratorCall.queue (.pushQueue mallocs element)).Steps heap s := by
  obtain ⟨i, hmem, hi⟩ := h.iteratorLinked_iff.mp hlinked
  cases hrefusal : refusal mallocs element with
  | some status =>
    have hpush := h.pushQueue_refused hrefusal
    refine ⟨heap, l, queue, ?_, h, iff_of_true hlinked trivial⟩
    simp only [IteratorCall.step, QueueCall.run, hpush, Option.bind_eq_bind,
      Option.bind_some, Option.pure_def, Option.map_some]
  | none =>
    obtain ⟨heap', hpush, hring⟩ := h.pushQueue_accepted hrefusal
    have hi' := (h.iteratorOf_pushQueue hpush).trans hi
    refine ⟨heap', _, _, ?_, hring, iff_of_true ?_ trivial⟩
    · simp only [IteratorCall.step, QueueCall.run, hpush, Option.bind_eq_bind,
        Option.bind_some, Option.pure_def, Option.map_some]
    · refine (hring.iteratorLinked_iff_mem hi').mpr ?_
      rcases List.mem_cons.mp hmem with rfl | hmem
      · exact List.mem_cons_self
      · exact List.mem_cons_of_mem _ (List.mem_cons_of_mem _ hmem)

/-- Of a ring without its last node everything is left but this node. -/
theorem mem_front_iff {i a : Addr} (hnodup : (s :: (l ++ [a])).Nodup)
    (hmem : i ∈ s :: (l ++ [a])) : i ∈ s :: l ↔ some i = some s ∨ some i ≠ some a := by
  obtain ⟨-, hnodup⟩ := List.nodup_cons.mp hnodup
  have hal := (List.nodup_append.mp hnodup).2.2
  constructor
  · intro hleft
    rcases List.mem_cons.mp hleft with rfl | hleft
    · exact .inl rfl
    · exact .inr fun he => hal i hleft a List.mem_cons_self (Option.some.inj he)
  · rintro (his | hia)
    · exact Option.some.inj his ▸ List.mem_cons_self
    · simp only [List.mem_cons, List.mem_append, List.not_mem_nil, or_false] at hmem ⊢
      rcases hmem with his | hleft | he
      · exact .inl his
      · exact .inr hleft
      · exact absurd (congrArg some he) hia

theorem QueueHeap.Ring.steps_popQueue (h : heap.Ring s l queue)
    (hlinked : heap.IteratorLinked s) : (IteratorCall.queue .popQueue).Steps heap s := by
  obtain ⟨i, hmem, hi⟩ := h.iteratorLinked_iff.mp hlinked
  obtain ⟨node, hnode, hs⟩ := h.node
  have hprev : heap.prevOf s = l.getLast?.or (some s) := by
    rw [prevOf, hnode, Option.bind_some, hs.prev]
  cases queue with
  | nil =>
    obtain rfl := h.eq_nil
    have his : i = s := List.mem_singleton.mp hmem
    refine ⟨heap, [], [], ?_, h, iff_of_true hlinked (.inl (his ▸ hi))⟩
    simp only [IteratorCall.step, QueueCall.run, h.popQueue_none, Option.bind_eq_bind,
      Option.bind_some, Option.pure_def, Option.map_some]
  | cons d queue =>
    obtain ⟨l, a, rfl⟩ := h.eq_concat
    obtain ⟨heap', hpop, hring⟩ := h.popQueue_some
    have hi' := (h.iteratorOf_popQueue hpop).trans hi
    refine ⟨heap', l, queue, ?_, hring, ?_⟩
    · simp only [IteratorCall.step, QueueCall.run, hpop, Option.bind_eq_bind,
        Option.bind_some, Option.pure_def, Option.map_some]
    · -- the node `a` in front of the sentinel is the only one that is gone
      rw [hring.iteratorLinked_iff_mem hi', IteratorCall.SparesIterator, hi, hprev,
        List.getLast?_concat, Option.some_or]
      exact mem_front_iff h.nodup hmem

theorem QueueHeap.Ring.steps_flushQueue (h : heap.Ring s l queue)
    (hlinked : heap.IteratorLinked s) : (IteratorCall.queue .flushQueue).Steps heap s := by
  obtain ⟨i, -, hi⟩ := h.iteratorLinked_iff.mp hlinked
  obtain ⟨heap', hflush, hring⟩ := h.flushQueue
  have hi' := (h.iteratorOf_flushQueue hflush).trans hi
  refine ⟨heap', [], [], ?_, hring, ?_⟩
  · simp only [IteratorCall.step, QueueCall.run, hflush, Option.bind_eq_bind,
      Option.bind_some, Option.pure_def, Option.map_some]
  · rw [hring.iteratorLinked_iff_mem hi', IteratorCall.SparesIterator, hi,
      List.mem_singleton, Option.some_inj]

/-- Behind a move the iterator is at a node of the ring. -/
theorem QueueHeap.Ring.iteratorLinked_turn {i : Addr} (h : heap.Ring s l queue)
    (hmem : i ∈ s :: l) : (heap.turn s (some i)).IteratorLinked s := by
  obtain ⟨node, hnode, -⟩ := h.node
  refine ((h.turn (some i)).iteratorLinked_iff_mem ?_).mpr hmem
  rw [iteratorOf, nodes_turn hnode]
  rfl

theorem QueueHeap.Ring.steps_getNextitrQueue (h : heap.Ring s l queue)
    (hlinked : heap.IteratorLinked s) : IteratorCall.getNextitrQueue.Steps heap s := by
  obtain ⟨i, hmem, hi⟩ := h.iteratorLinked_iff.mp hlinked
  obtain ⟨xs, ys, rfl, hlast⟩ := getLast?_of_mem hmem
  have hnext := h.getNextitrQueue List.mem_cons_self (hi.trans hlast.symm)
  cases ys with
  | nil =>
    refine ⟨heap, _, queue, ?_, h, iff_of_true hlinked trivial⟩
    rw [IteratorCall.step, hnext]
    rfl
  | cons a ys =>
    refine ⟨heap.turn s (some a), _, queue, ?_, h.turn _, iff_of_true ?_ trivial⟩
    · rw [IteratorCall.step, hnext]
      rfl
    · exact h.iteratorLinked_turn (.tail _ (List.mem_append_right _ List.mem_cons_self))

/-- One call, while the iterator is linked in: it can be made, and the iterator is linked in
behind it exactly if the call spares it. -/
theorem QueueHeap.Ring.step (h : heap.Ring s l queue) (hlinked : heap.IteratorLinked s)
    (call : IteratorCall) : call.Steps heap s := by
  cases call with
  | queue call =>
    cases call with
    | pushQueue mallocs element => exact h.steps_pushQueue hlinked mallocs element
    | popQueue => exact h.steps_popQueue hlinked
    | flushQueue => exact h.steps_flushQueue hlinked
  | setIterToFirstQueue =>
    refine ⟨_, l, queue, h.setIter List.mem_cons_self, h.turn _, iff_of_true ?_ trivial⟩
    exact h.iteratorLinked_turn List.mem_cons_self
  | getNextitrQueue => exact h.steps_getNextitrQueue hlinked

/-- Over a run: the iterator is linked in all the time exactly if every step spares it. -/
theorem QueueHeap.Ring.along_iff (h : heap.Ring s l queue) (hlinked : heap.IteratorLinked s)
    (calls : List IteratorCall) :
    Along (fun heap call => IteratorCall.step s heap call)
        (fun _ _ after => after.IteratorLinked s) heap calls ↔
      ∃ last, Run (fun heap call => IteratorCall.step s heap call)
        (fun before call => call.SparesIterator before s) heap calls last := by
  induction calls generalizing heap l queue with
  | nil => exact iff_of_true trivial ⟨heap, .nil heap⟩
  | cons call calls ih =>
    obtain ⟨heap', l', queue', hstep, hring, hiff⟩ := h.step hlinked call
    constructor
    · intro hall
      obtain ⟨hafter, hrest⟩ := hall heap' hstep
      obtain ⟨last, hrun⟩ := (ih hring hafter).mp hrest
      exact ⟨last, .cons (hiff.mp hafter) hstep hrun⟩
    · rintro ⟨last, hrun⟩ heap'' hstep'
      obtain rfl := Option.some.inj (hstep.symm.trans hstep')
      cases hrun with
      | cons hspares hfirst hrest =>
        obtain rfl := Option.some.inj (hstep.symm.trans hfirst)
        have hafter := hiff.mpr hspares
        exact ⟨hafter, (ih hring hafter).mpr ⟨last, hrest⟩⟩

theorem iteratorLinked_initQueue :
    (initQueue .empty).2.IteratorLinked (initQueue .empty).1 :=
  ⟨_, rfl, .inl rfl⟩

/-- When the iterator is on a node of the queue all the time: in the run of any calls from
`initQueue` on, after every call, exactly if no pop takes the node that the iterator is at, and
the queue is flushed only with the iterator at the sentinel. All the calls can then be made. -/
theorem iterator_linked_iff (calls : List IteratorCall) :
    (initQueue .empty).2.IteratorLinked (initQueue .empty).1 ∧
    (Along (fun heap call => IteratorCall.step (initQueue .empty).1 heap call)
        (fun _ _ after => after.IteratorLinked (initQueue .empty).1) (initQueue .empty).2 calls ↔
      ∃ last, Run (fun heap call => IteratorCall.step (initQueue .empty).1 heap call)
        (fun before call => call.SparesIterator before (initQueue .empty).1)
        (initQueue .empty).2 calls last) :=
  ⟨iteratorLinked_initQueue, ring_initQueue.along_iff iteratorLinked_initQueue calls⟩

/-- A pop frees the node that was answered last, and the iterator stays there. -/
theorem iterator_dangles :
    ¬ ∀ calls : List IteratorCall,
      Along (fun heap call => IteratorCall.step (initQueue .empty).1 heap call)
        (fun _ _ after => after.IteratorLinked (initQueue .empty).1)
        (initQueue .empty).2 calls := by
  intro hall
  have hrun := hall [.queue (.pushQueue ⟨true, true, true⟩ ⟨0, none⟩), .getNextitrQueue,
    .queue .popQueue]
  obtain ⟨-, hpushed⟩ := hrun _ rfl
  obtain ⟨-, hanswered⟩ := hpushed _ rfl
  obtain ⟨⟨i, hi, hplace⟩, -⟩ := hanswered _ rfl
  obtain rfl : 1 = i := Option.some.inj hi
  rcases hplace with hzero | ⟨ring, hring, hmem⟩
  · cases hzero
  · obtain rfl : [] = ring := Option.some.inj hring
    cases hmem

end Runs

end Ebotula
