import Ebotula.Queue
import Ebotula.Library.Chain

/-!
# The queue is a FIFO

`Ring` is what the pointers of a queue keep: the nodes in use are the sentinel and one chain,
linked in both directions, that starts and ends at it, and the counter counts them. A push
links a node in behind the sentinel and a pop takes out the one in front of it, so the data come
out in the order in which they went in. `Fifo` is what the queue is for: everything that
was ever accepted, and how much of it has been taken out.
-/

set_option autoImplicit false

namespace Ebotula

open Library

namespace QueueHeap

/-- `next` of a node. -/
def nextOf (heap : QueueHeap) (a : Addr) : Option Addr := (heap.nodes a).bind (·.next)

/-- `prev` of a node. -/
def prevOf (heap : QueueHeap) (a : Addr) : Option Addr := (heap.nodes a).bind (·.prev)

/-- `sentinel` of a node. -/
def sentinelOf (heap : QueueHeap) (a : Addr) : Option Addr := (heap.nodes a).bind (·.sentinel)

/-- The data of a node. -/
def dataOf (heap : QueueHeap) (a : Addr) : Option QueueData :=
  (heap.nodes a).bind (·.queuedataData)

/-- The sentinel of a queue with the nodes `l`, in the order of `next`. -/
structure IsSentinel (s : Addr) (l : List Addr) (node : Queue) : Prop where
  next : node.next = l.head?.or (some s)
  prev : node.prev = l.getLast?.or (some s)
  sentinel : node.sentinel = some s
  count : node.longCount = l.length
  mutex : node.queue_mutex = true
  cond : node.stopThreadCond = true

/-- The nodes in use are the sentinel `s` and the nodes `l`, newest first, with the data `queue`,
oldest first. -/
structure Ring (heap : QueueHeap) (s : Addr) (l : List Addr) (queue : List QueueData) : Prop where
  nodup : (s :: l).Nodup
  node : ∃ node, heap.nodes s = some node ∧ IsSentinel s l node
  links : Seg heap.prevOf heap.nextOf (some s) l (some s)
  owner : ∀ a ∈ l, heap.sentinelOf a = some s
  data : l.map heap.dataOf = queue.reverse.map some
  used : ∀ a, (heap.nodes a).isSome ↔ a ∈ s :: l
  below : ∀ a ∈ s :: l, a < heap.unused

end QueueHeap

open QueueHeap

section Ring

variable {heap : QueueHeap} {s a : Addr} {l : List Addr} {queue : List QueueData} {d : QueueData}

theorem ring_initQueue : (initQueue .empty).2.Ring (initQueue .empty).1 [] [] where
  nodup := List.nodup_singleton _
  node := ⟨_, rfl, rfl, rfl, rfl, rfl, rfl, rfl⟩
  links := trivial
  owner := fun a ha => nomatch ha
  data := rfl
  used := fun a => by
    show (Function.update (fun _ => none) 0 _ a).isSome ↔ a ∈ [0]
    by_cases ha : a = 0
    · simp only [ha, Function.update_self, Option.isSome_some, List.mem_singleton]
    · simp only [Function.update_of_ne ha, Option.isSome_none, Bool.false_eq_true,
        List.mem_singleton, ha]
  below := fun a ha => List.mem_singleton.mp ha ▸ Nat.zero_lt_one

theorem QueueHeap.Ring.usable (h : heap.Ring s l queue) :
    ∃ node, heap.nodes s = some node ∧ IsSentinel s l node ∧
      usable heap (some s) = some (some (s, node)) := by
  obtain ⟨node, hnode, hs⟩ := h.node
  refine ⟨node, hnode, hs, ?_⟩
  simp only [Ebotula.usable, hnode, Option.bind_eq_bind, Option.bind_some, hs.sentinel, hs.mutex,
    hs.cond, and_self, if_true, Option.pure_def]

theorem QueueHeap.Ring.length_eq (h : heap.Ring s l queue) : l.length = queue.length := by
  have hlength := congrArg List.length h.data
  rwa [List.length_map, List.length_map, List.length_reverse] at hlength

/-- The nodes of a ring are below the next address. -/
theorem QueueHeap.Ring.length_le (h : heap.Ring s l queue) : l.length < heap.unused := by
  have hsub : s :: l ⊆ List.range heap.unused := fun a ha => List.mem_range.mpr (h.below a ha)
  simpa only [List.length_range, List.length_cons, Nat.succ_le_iff] using
    h.nodup.length_le_of_subset hsub

theorem QueueHeap.Ring.isfullQueue (h : heap.Ring s l queue) :
    isfullQueue heap (some s) = some (!queue.isEmpty) := by
  obtain ⟨node, hnode, hs⟩ := h.node
  simp only [Ebotula.isfullQueue, isemptyQueue, hnode, Option.bind_eq_bind, Option.bind_some,
    hs.sentinel, hs.mutex, hs.count, h.length_eq, Option.pure_def, Option.map_some]
  cases queue <;> rfl

/-! ## A node is linked in -/

/-- What a push writes: the new node, the sentinel, and the link back of the node that was the
first one. -/
structure Pushed (heap heap' : QueueHeap) (s : Addr) (l : List Addr) (d : QueueData) : Prop where
  unused : heap'.unused = heap.unused + 1
  sentinel : ∃ node, heap'.nodes s = some node ∧ IsSentinel s (heap.unused :: l) node
  new : ∃ node, heap'.nodes heap.unused = some node ∧ node.next = l.head?.or (some s) ∧
    node.prev = some s ∧ node.sentinel = some s ∧ node.queuedataData = some d
  first : ∀ a ∈ l.head?, ∃ node, heap.nodes a = some node ∧
    heap'.nodes a = some { node with prev := some heap.unused }
  others : ∀ a, a ≠ s → a ≠ heap.unused → a ∉ l.head? → heap'.nodes a = heap.nodes a

theorem QueueHeap.Ring.unused_notMem (h : heap.Ring s l queue) : heap.unused ∉ s :: l :=
  fun hmem => Nat.lt_irrefl _ (h.below _ hmem)

theorem QueueHeap.Ring.assemble (h : heap.Ring s l queue) (d : QueueData) {node : Queue}
    (hnode : heap.nodes s = some node) (hs : IsSentinel s l node) :
    ∃ heap', assemble heap s node d = some heap' ∧ Pushed heap heap' s l d := by
  have hnew := h.unused_notMem
  have hsnew : s ≠ heap.unused := fun he => hnew (he ▸ List.mem_cons_self)
  cases l with
  | nil =>
    -- the sentinel is the neighbour on both sides
    refine ⟨
      { nodes := Function.update
          (Function.update
            (Function.update heap.nodes heap.unused (some (queueNode node.next s d)))
            s (some { node with prev := some heap.unused }))
          s (some { node with
            prev := some heap.unused
            next := some heap.unused
            longCount := node.longCount + 1 })
        unused := heap.unused + 1 }, ?_, ?_⟩
    · simp only [Ebotula.assemble, alloc, modify, hs.count, List.length_nil, if_true,
        Option.bind_eq_bind, Option.bind_some, Function.update_of_ne hsnew, hnode,
        Option.pure_def, Function.update_self]
    · exact
        { unused := rfl
          sentinel := ⟨_, Function.update_self .., rfl, rfl, hs.sentinel,
            congrArg (· + 1) hs.count, hs.mutex, hs.cond⟩
          new := by
            refine ⟨queueNode node.next s d, ?_, hs.next, rfl, rfl, rfl⟩
            simp only [Function.update_of_ne hsnew.symm, Function.update_self]
          first := fun a ha => nomatch ha
          others := fun a has hanew _ => by
            simp only [Function.update_of_ne has, Function.update_of_ne hanew] }
  | cons f l =>
    have hfs : f ≠ s := fun he => (List.nodup_cons.mp h.nodup).1 (he ▸ List.mem_cons_self)
    have hfnew : f ≠ heap.unused := fun he =>
      hnew (he ▸ List.mem_cons_of_mem _ List.mem_cons_self)
    obtain ⟨first, hfirst⟩ := Option.isSome_iff_exists.mp
      ((h.used f).mpr (List.mem_cons_of_mem _ List.mem_cons_self))
    have hnext : node.next = some f := hs.next
    refine ⟨
      { nodes := Function.update
          (Function.update
            (Function.update heap.nodes heap.unused (some (queueNode node.next s d)))
            f (some { first with prev := some heap.unused }))
          s (some { node with next := some heap.unused, longCount := node.longCount + 1 })
        unused := heap.unused + 1 }, ?_, ?_⟩
    · simp only [Ebotula.assemble, alloc, modify, hs.count, List.length_cons,
        Nat.add_one_ne_zero, if_false, hnext, Option.bind_eq_bind, Option.bind_some,
        Function.update_of_ne hfnew, hfirst, Option.pure_def, Function.update_of_ne hfs.symm,
        Function.update_of_ne hsnew, hnode]
    · exact
        { unused := rfl
          sentinel := ⟨_, Function.update_self .., rfl, hs.prev, hs.sentinel,
            congrArg (· + 1) hs.count, hs.mutex, hs.cond⟩
          new := by
            refine ⟨queueNode node.next s d, ?_, hs.next, rfl, rfl, rfl⟩
            simp only [Function.update_of_ne hsnew.symm, Function.update_of_ne hfnew.symm,
              Function.update_self]
          first := fun a ha => by
            obtain rfl : f = a := Option.some.inj ha
            refine ⟨first, hfirst, ?_⟩
            simp only [Function.update_of_ne hfs, Function.update_self]
          others := fun a has hanew haf => by
            have haf' : a ≠ f := fun he => haf (he ▸ rfl)
            simp only [Function.update_of_ne has, Function.update_of_ne hanew,
              Function.update_of_ne haf'] }

/-- Of a node that is written only in its links, the rest stays. -/
theorem QueueHeap.congr_of_update {heap heap' : QueueHeap} {node : Queue} {f : Queue → Queue}
    {a : Addr} (hold : heap.nodes a = some node) (hnew : heap'.nodes a = some (f node))
    (hsentinel : (f node).sentinel = node.sentinel)
    (hdata : (f node).queuedataData = node.queuedataData) :
    heap'.sentinelOf a = heap.sentinelOf a ∧ heap'.dataOf a = heap.dataOf a := by
  simp only [sentinelOf, dataOf, hold, hnew, Option.bind_some, hsentinel, hdata, and_self]

theorem Pushed.ring {heap' : QueueHeap} (hp : Pushed heap heap' s l d)
    (h : heap.Ring s l queue) : heap'.Ring s (heap.unused :: l) (queue ++ [d]) := by
  obtain ⟨hs, hnodup⟩ := List.nodup_cons.mp h.nodup
  have hunused := h.unused_notMem
  obtain ⟨sentinel, hsentinel, hring⟩ := hp.sentinel
  obtain ⟨new, hnew, hnext, hprev, howner, hdata⟩ := hp.new
  have hne {a : Addr} (ha : a ∈ l) : a ≠ s ∧ a ≠ heap.unused :=
    ⟨fun he => hs (he ▸ ha), fun he => hunused (he ▸ List.mem_cons_of_mem _ ha)⟩
  -- the nodes that were there keep all but a link back
  have hkept {a : Addr} (ha : a ∈ l) : heap'.nextOf a = heap.nextOf a ∧
      heap'.sentinelOf a = heap.sentinelOf a ∧ heap'.dataOf a = heap.dataOf a := by
    by_cases hfirst : a ∈ l.head?
    · obtain ⟨node, hold, hwritten⟩ := hp.first a hfirst
      refine ⟨?_, congr_of_update (f := fun n => { n with prev := some heap.unused }) hold
        hwritten rfl rfl⟩
      simp only [nextOf, hold, hwritten, Option.bind_some]
    · have hsame := hp.others a (hne ha).1 (hne ha).2 hfirst
      simp only [nextOf, sentinelOf, dataOf, hsame, and_self]
  refine
    { nodup := ?_
      node := ⟨sentinel, hsentinel, hring⟩
      links := ⟨?_, ?_, ?_⟩
      owner := ?_
      data := ?_
      used := ?_
      below := ?_ }
  · refine List.nodup_cons.mpr ⟨?_, List.nodup_cons.mpr ⟨?_, hnodup⟩⟩
    · intro hmem
      rcases List.mem_cons.mp hmem with he | hmem
      · exact hunused (he ▸ List.mem_cons_self)
      · exact hs hmem
    · exact fun hmem => hunused (List.mem_cons_of_mem _ hmem)
  · rw [prevOf, hnew, Option.bind_some, hprev]
  · rw [nextOf, hnew, Option.bind_some, hnext]
  · refine h.links.relinkFirst hnodup (fun a ha => (hkept ha).1) (fun a ha => ?_)
      fun a ha hfirst => ?_
    · obtain ⟨node, -, hwritten⟩ := hp.first a ha
      rw [prevOf, hwritten, Option.bind_some]
    · rw [prevOf, prevOf, hp.others a (hne ha).1 (hne ha).2 hfirst]
  · intro a ha
    rcases List.mem_cons.mp ha with rfl | ha
    · rw [sentinelOf, hnew, Option.bind_some, howner]
    · rw [(hkept ha).2.1, h.owner a ha]
  · have hmap : l.map heap'.dataOf = l.map heap.dataOf :=
      List.map_congr_left fun a ha => (hkept ha).2.2
    rw [List.map_cons, hmap, h.data, dataOf, hnew, Option.bind_some, hdata,
      List.reverse_append, List.reverse_singleton, List.singleton_append, List.map_cons]
  · intro a
    by_cases has : a = s
    · simp only [has, hsentinel, Option.isSome_some, List.mem_cons_self]
    by_cases hanew : a = heap.unused
    · simp only [hanew, hnew, Option.isSome_some, List.mem_cons, true_or, or_true]
    have hmem : a ∈ s :: heap.unused :: l ↔ a ∈ s :: l := by
      simp only [List.mem_cons, has, hanew, false_or]
    rw [hmem, ← h.used]
    by_cases hfirst : a ∈ l.head?
    · obtain ⟨node, hold, hwritten⟩ := hp.first a hfirst
      rw [hold, hwritten, Option.isSome_some, Option.isSome_some]
    · rw [hp.others a has hanew hfirst]
  · intro a ha
    rw [hp.unused]
    rcases List.mem_cons.mp ha with rfl | ha
    · exact Nat.lt_succ_of_lt (h.below _ List.mem_cons_self)
    · rcases List.mem_cons.mp ha with rfl | ha
      · exact Nat.lt_succ_self _
      · exact Nat.lt_succ_of_lt (h.below a (List.mem_cons_of_mem _ ha))

/-- Why a queue that can be used refuses an element. -/
def refusal (mallocs : Mallocs) (queuedataElement : QueueElement) : Option QueueExeStatus :=
  if queuedataElement.t_size > 0 ∧ queuedataElement.data.isNone then
    some .nullPointerAsInParameter
  else if !mallocs.queue || !mallocs.queuedataData then some .memoryAllocError
  else if queuedataElement.t_size > 0 ∧ !mallocs.data then some .memoryAllocError
  else none

theorem QueueHeap.Ring.pushQueue_refused (h : heap.Ring s l queue) {mallocs : Mallocs}
    {element : QueueElement} {status : QueueExeStatus}
    (hrefusal : refusal mallocs element = some status) :
    pushQueue heap mallocs (some s) element = some (status, heap) := by
  obtain ⟨node, -, -, husable⟩ := h.usable
  simp only [pushQueue, husable, Option.bind_eq_bind, Option.bind_some]
  unfold refusal at hrefusal
  split_ifs at hrefusal with hnull hnode hdata
  · obtain rfl := Option.some.inj hrefusal
    rw [if_pos hnull]
    rfl
  · obtain rfl := Option.some.inj hrefusal
    rw [if_neg hnull, if_pos hnode]
    rfl
  · obtain rfl := Option.some.inj hrefusal
    rw [if_neg hnull, if_neg hnode, if_pos hdata]
    rfl

theorem QueueHeap.Ring.pushQueue_accepted (h : heap.Ring s l queue) {mallocs : Mallocs}
    {element : QueueElement} (hrefusal : refusal mallocs element = none) :
    ∃ heap', pushQueue heap mallocs (some s) element = some (.success, heap') ∧
      heap'.Ring s (heap.unused :: l) (queue ++ [copyOf element]) := by
  obtain ⟨node, hnode, hs, husable⟩ := h.usable
  obtain ⟨heap', hassemble, hpushed⟩ := h.assemble (copyOf element) hnode hs
  refine ⟨heap', ?_, hpushed.ring h⟩
  unfold refusal at hrefusal
  split_ifs at hrefusal with hnull hfailed hdata
  simp only [pushQueue, husable, Option.bind_eq_bind, Option.bind_some, hnull, hfailed, hdata,
    if_false, Bool.false_eq_true, hassemble, Option.pure_def]

/-- A push that answers an error, of whatever queue, has changed nothing. -/
theorem pushQueue_error {heap' : QueueHeap} {mallocs : Mallocs} {pqueueIn : Option Addr}
    {element : QueueElement} {status : QueueExeStatus}
    (hrun : pushQueue heap mallocs pqueueIn element = some (status, heap'))
    (hstatus : status ≠ .success) : heap' = heap := by
  unfold pushQueue at hrun
  obtain ⟨ready, -, hrun⟩ := Option.bind_eq_some_iff.mp hrun
  have hsame {st : QueueExeStatus} (hr : some (st, heap) = some (status, heap')) :
      heap' = heap := (Prod.mk.inj (Option.some.inj hr)).2.symm
  cases ready with
  | none => exact hsame hrun
  | some found =>
    obtain ⟨s, sentinel⟩ := found
    simp only [Option.bind_eq_bind] at hrun
    split_ifs at hrun
    · exact hsame hrun
    · exact hsame hrun
    · exact hsame hrun
    · obtain ⟨made, -, hrun⟩ := Option.bind_eq_some_iff.mp hrun
      exact absurd (Prod.mk.inj (Option.some.inj hrun)).1.symm hstatus

/-! ## A node is taken out -/

/-- What a pop of the node `a` writes: the sentinel, and the link of the node before it. -/
structure Popped (heap heap' : QueueHeap) (s a : Addr) (l : List Addr) : Prop where
  unused : heap'.unused = heap.unused
  sentinel : ∃ node, heap'.nodes s = some node ∧ IsSentinel s l node
  freed : heap'.nodes a = none
  last : ∀ b ∈ l.getLast?, ∃ node, heap.nodes b = some node ∧
    heap'.nodes b = some { node with next := some s }
  others : ∀ b, b ≠ s → b ≠ a → b ∉ l.getLast? → heap'.nodes b = heap.nodes b

theorem Popped.ring {heap' : QueueHeap} (hp : Popped heap heap' s a l)
    (h : heap.Ring s (l ++ [a]) (d :: queue)) : heap'.Ring s l queue := by
  obtain ⟨hs, hnodup⟩ := List.nodup_cons.mp h.nodup
  obtain ⟨hnodup, -, hla⟩ := List.nodup_append.mp hnodup
  obtain ⟨sentinel, hsentinel, hring⟩ := hp.sentinel
  have hne {b : Addr} (hb : b ∈ l) : b ≠ s ∧ b ≠ a :=
    ⟨fun he => hs (he ▸ List.mem_append_left _ hb), hla b hb a List.mem_cons_self⟩
  have hsa : s ≠ a := fun he => hs (he ▸ List.mem_append_right _ List.mem_cons_self)
  -- the nodes that are left keep all but a link forward
  have hkept {b : Addr} (hb : b ∈ l) : heap'.prevOf b = heap.prevOf b ∧
      heap'.sentinelOf b = heap.sentinelOf b ∧ heap'.dataOf b = heap.dataOf b := by
    by_cases hlast : b ∈ l.getLast?
    · obtain ⟨node, hold, hwritten⟩ := hp.last b hlast
      refine ⟨?_, congr_of_update (f := fun n => { n with next := some s }) hold
        hwritten rfl rfl⟩
      simp only [prevOf, hold, hwritten, Option.bind_some]
    · have hsame := hp.others b (hne hb).1 (hne hb).2 hlast
      simp only [prevOf, sentinelOf, dataOf, hsame, and_self]
  have hdata : l.map heap.dataOf = queue.reverse.map some := by
    have hall := h.data
    rw [List.map_append, List.reverse_cons, List.map_append] at hall
    exact List.append_inj_left' hall rfl
  refine
    { nodup := List.nodup_cons.mpr ⟨fun hmem => hs (List.mem_append_left _ hmem), hnodup⟩
      node := ⟨sentinel, hsentinel, hring⟩
      links := ?_
      owner := ?_
      data := ?_
      used := ?_
      below := ?_ }
  · refine (seg_append.mp h.links).1.relinkLast hnodup (fun b hb => (hkept hb).1)
      (fun b hb => ?_) fun b hb hlast => ?_
    · obtain ⟨node, -, hwritten⟩ := hp.last b hb
      rw [nextOf, hwritten, Option.bind_some]
    · rw [nextOf, nextOf, hp.others b (hne hb).1 (hne hb).2 hlast]
  · intro b hb
    rw [(hkept hb).2.1, h.owner b (List.mem_append_left _ hb)]
  · rw [← hdata]
    exact List.map_congr_left fun b hb => (hkept hb).2.2
  · intro b
    by_cases hbs : b = s
    · simp only [hbs, hsentinel, Option.isSome_some, List.mem_cons_self]
    by_cases hba : b = a
    · have hgone : a ∉ s :: l := by
        intro hmem
        rcases List.mem_cons.mp hmem with he | hmem
        · exact hsa he.symm
        · exact hla a hmem a List.mem_cons_self rfl
      simp only [hba, hp.freed, Option.isSome_none, Bool.false_eq_true, hgone]
    have hmem : b ∈ s :: l ↔ b ∈ s :: (l ++ [a]) := by
      simp only [List.mem_cons, List.mem_append, hba, List.not_mem_nil, or_false]
    rw [hmem, ← h.used]
    by_cases hlast : b ∈ l.getLast?
    · obtain ⟨node, hold, hwritten⟩ := hp.last b hlast
      rw [hold, hwritten, Option.isSome_some, Option.isSome_some]
    · rw [hp.others b hbs hba hlast]
  · intro b hb
    rw [hp.unused]
    refine h.below b ?_
    rcases List.mem_cons.mp hb with rfl | hb
    · exact List.mem_cons_self
    · exact List.mem_cons_of_mem _ (List.mem_append_left _ hb)

/-- Where the node is the only one, the sentinel is its neighbour on both sides. -/
theorem QueueHeap.Ring.takeOut_only (h : heap.Ring s [a] queue) {node old : Queue}
    (hnode : heap.nodes s = some node) (hs : IsSentinel s [a] node) (hprev : old.prev = some s) :
    ∃ heap', takeOut heap s s a old = some heap' ∧ Popped heap heap' s a [] := by
  have hsa : s ≠ a := fun he => (List.nodup_cons.mp h.nodup).1 (he ▸ List.mem_cons_self)
  have hcount : node.longCount - 1 = 0 := by
    rw [hs.count, List.length_singleton]
  refine ⟨
    { heap with
      nodes := Function.update
        (Function.update
          (Function.update
            (Function.update heap.nodes s (some { node with prev := old.prev }))
            s (some { node with prev := old.prev, next := some s }))
          s (some { node with
            prev := old.prev
            next := some s
            longCount := node.longCount - 1 }))
        a none }, ?_, ?_⟩
  · simp only [Ebotula.takeOut, modify, free, hprev, hnode, Option.bind_eq_bind,
      Option.bind_some, Option.pure_def, Function.update_self]
  · exact
      { unused := rfl
        sentinel := by
          refine ⟨{ node with
            prev := old.prev
            next := some s
            longCount := node.longCount - 1 }, ?_,
            rfl, hprev, hs.sentinel, hcount, hs.mutex, hs.cond⟩
          simp only [Function.update_of_ne hsa, Function.update_self]
        freed := Function.update_self ..
        last := fun b hb => nomatch hb
        others := fun b hbs hba _ => by
          simp only [Function.update_of_ne hbs, Function.update_of_ne hba] }

theorem QueueHeap.Ring.takeOut_behind {before : List Addr} {b : Addr}
    (h : heap.Ring s ((before ++ [b]) ++ [a]) queue) {node old : Queue}
    (hnode : heap.nodes s = some node) (hs : IsSentinel s ((before ++ [b]) ++ [a]) node)
    (hprev : old.prev = some b) :
    ∃ heap', takeOut heap s s a old = some heap' ∧ Popped heap heap' s a (before ++ [b]) := by
  obtain ⟨hsl, hnodup⟩ := List.nodup_cons.mp h.nodup
  have hsa : s ≠ a := fun he => hsl (he ▸ List.mem_append_right _ List.mem_cons_self)
  have hbs : b ≠ s := fun he => hsl (he ▸ by simp)
  have hba : b ≠ a := (List.nodup_append.mp hnodup).2.2 b (by simp) a List.mem_cons_self
  have hcount : node.longCount - 1 = (before ++ [b]).length := by
    rw [hs.count, List.length_append, List.length_singleton, Nat.add_sub_cancel]
  obtain ⟨last, hlast⟩ := Option.isSome_iff_exists.mp ((h.used b).mpr (by simp))
  refine ⟨
    { heap with
      nodes := Function.update
        (Function.update
          (Function.update
            (Function.update heap.nodes s (some { node with prev := old.prev }))
            b (some { last with next := some s }))
          s (some { node with
            prev := old.prev
            longCount := node.longCount - 1 }))
        a none }, ?_, ?_⟩
  · simp only [Ebotula.takeOut, modify, free, hprev, hnode, Option.bind_eq_bind,
      Option.bind_some, Option.pure_def, Function.update_of_ne hbs, hlast,
      Function.update_of_ne hbs.symm, Function.update_self]
  · exact
      { unused := rfl
        sentinel := by
          refine ⟨{ node with
            prev := old.prev
            longCount := node.longCount - 1 }, ?_,
            ?_, ?_, hs.sentinel, hcount, hs.mutex, hs.cond⟩
          · simp only [Function.update_of_ne hsa, Function.update_self]
          · rw [hs.next]
            cases before <;> rfl
          · rw [hprev, List.getLast?_concat, Option.some_or]
        freed := Function.update_self ..
        last := fun c hc => by
          rw [List.getLast?_concat] at hc
          obtain rfl : b = c := Option.some.inj hc
          refine ⟨last, hlast, ?_⟩
          simp only [Function.update_of_ne hba, Function.update_of_ne hbs,
            Function.update_self]
        others := fun c hcs hca hc => by
          have hcb : c ≠ b := fun he => hc (he ▸ List.getLast?_concat)
          simp only [Function.update_of_ne hcs, Function.update_of_ne hca,
            Function.update_of_ne hcb] }

theorem QueueHeap.Ring.takeOut (h : heap.Ring s (l ++ [a]) queue) {node old : Queue}
    (hnode : heap.nodes s = some node) (hs : IsSentinel s (l ++ [a]) node)
    (hprev : old.prev = l.getLast?.or (some s)) :
    ∃ heap', takeOut heap s s a old = some heap' ∧ Popped heap heap' s a l := by
  rcases List.eq_nil_or_concat l with rfl | ⟨before, b, rfl⟩
  · exact Ring.takeOut_only h hnode hs hprev
  · rw [List.concat_eq_append] at *
    rw [List.getLast?_concat, Option.some_or] at hprev
    exact h.takeOut_behind hnode hs hprev

/-- A pop takes the oldest element. -/
theorem QueueHeap.Ring.popQueue_some (h : heap.Ring s (l ++ [a]) (d :: queue)) :
    ∃ heap', popQueue heap (some s) = some (.returns (some d), heap') ∧ heap'.Ring s l queue := by
  obtain ⟨node, hnode, hs, husable⟩ := h.usable
  have hsl := (List.nodup_cons.mp h.nodup).1
  have has : a ≠ s := fun he => hsl (he ▸ List.mem_append_right _ List.mem_cons_self)
  obtain ⟨old, hold⟩ := Option.isSome_iff_exists.mp
    ((h.used a).mpr (List.mem_cons_of_mem _ (List.mem_append_right _ List.mem_cons_self)))
  have hprev : node.prev = some a := by rw [hs.prev, List.getLast?_concat, Option.some_or]
  have holdPrev : old.prev = l.getLast?.or (some s) := by
    have hsplit : Seg heap.prevOf heap.nextOf (some s) (l ++ a :: []) (some s) := h.links
    have hlinks := hsplit.links.1
    rwa [prevOf, hold, Option.bind_some] at hlinks
  have holdData : old.queuedataData = some d := by
    have hall := h.data
    rw [List.map_append, List.reverse_cons, List.map_append] at hall
    have hlast := (List.append_inj_right' hall rfl)
    rw [List.map_singleton, List.map_singleton, dataOf, hold, Option.bind_some] at hlast
    exact (List.cons.inj hlast).1
  have hpositive : ¬ node.longCount ≤ 0 := by
    rw [hs.count, List.length_append, List.length_singleton]
    omega
  have hother : ¬ some a = some s := fun he => has (Option.some.inj he)
  obtain ⟨heap', htake, hpopped⟩ := h.takeOut hnode hs holdPrev
  have hring := hpopped.ring h
  obtain ⟨_, -, -, husable'⟩ := hring.usable
  refine ⟨heap', ?_, hring⟩
  simp only [popQueue, husable, Option.bind_eq_bind, Option.bind_some, if_neg hpositive,
    hs.sentinel, hnode, ne_eq, hother, not_false_eq_true, if_true, hprev, hold, htake, husable',
    Option.pure_def, holdData]

theorem QueueHeap.Ring.popQueue_none (h : heap.Ring s [] []) :
    popQueue heap (some s) = some (.waits, heap) := by
  obtain ⟨node, hnode, hs, husable⟩ := h.usable
  have hcount : node.longCount ≤ 0 := Nat.le_of_eq hs.count
  simp only [popQueue, husable, Option.bind_eq_bind, Option.bind_some, if_pos hcount,
    Option.pure_def]

/-- The nodes of a queue with an element end with the one of that element. -/
theorem QueueHeap.Ring.eq_concat (h : heap.Ring s l (d :: queue)) : ∃ l' a, l = l' ++ [a] := by
  rcases List.eq_nil_or_concat l with rfl | ⟨l', a, rfl⟩
  · exact absurd h.length_eq (by simp)
  · exact ⟨l', a, List.concat_eq_append⟩

theorem QueueHeap.Ring.eq_nil (h : heap.Ring s l []) : l = [] :=
  List.eq_nil_of_length_eq_zero h.length_eq

/-- The loop takes out one element after the other, and never waits. -/
theorem QueueHeap.Ring.flushLoop (h : heap.Ring s l queue) {fuel : Nat}
    (hfuel : queue.length < fuel) :
    ∃ heap', flushLoop fuel heap (some s) = some (.returns (), heap') ∧ heap'.Ring s [] [] := by
  induction queue generalizing heap l fuel with
  | nil =>
    obtain rfl := h.eq_nil
    obtain ⟨fuel, rfl⟩ := Nat.exists_eq_add_one_of_ne_zero (Nat.ne_of_gt hfuel)
    refine ⟨heap, ?_, h⟩
    rw [Ebotula.flushLoop, h.isfullQueue]
    rfl
  | cons d queue ih =>
    obtain ⟨l, a, rfl⟩ := h.eq_concat
    obtain ⟨fuel, rfl⟩ := Nat.exists_eq_add_one_of_ne_zero (Nat.ne_of_gt (Nat.zero_lt_of_lt hfuel))
    obtain ⟨rest, hpop, hrest⟩ := h.popQueue_some
    obtain ⟨heap', hloop, hempty⟩ := ih hrest (Nat.lt_of_succ_lt_succ hfuel)
    refine ⟨heap', ?_, hempty⟩
    rw [Ebotula.flushLoop, h.isfullQueue]
    simp only [List.isEmpty_cons, Bool.not_false, Bool.not_true, Bool.false_eq_true, if_false,
      Option.bind_eq_bind, Option.bind_some, hpop, hloop]

theorem QueueHeap.Ring.flushQueue (h : heap.Ring s l queue) :
    ∃ heap', flushQueue heap (some s) = some (.returns .success, heap') ∧
      heap'.Ring s [] [] := by
  have hfuel : queue.length < heap.unused + 1 := by
    have hlength := h.length_le
    rw [h.length_eq] at hlength
    omega
  obtain ⟨heap', hloop, hempty⟩ := h.flushLoop hfuel
  refine ⟨heap', ?_, hempty⟩
  simp only [Ebotula.flushQueue, hloop, Option.bind_eq_bind, Option.bind_some, Option.pure_def]

end Ring

/-! ## The queue as it is meant -/

/-- Everything that was accepted, in order, and how much of it has been taken out. -/
structure Fifo where
  pushed : List QueueData
  taken : Nat
  taken_le : taken ≤ pushed.length

namespace Fifo

/-- Nothing has been pushed. -/
def empty : Fifo := ⟨[], 0, Nat.le_refl 0⟩

/-- What is still to come out. -/
def content (fifo : Fifo) : List QueueData := fifo.pushed.drop fifo.taken

/-- What a call answers and does. -/
def call (fifo : Fifo) : QueueCall → QueueAnswer × Fifo
  | .pushQueue mallocs queuedataElement =>
    match refusal mallocs queuedataElement with
    | some status => (.pushed status, fifo)
    | none =>
      (.pushed .success,
        { pushed := fifo.pushed ++ [copyOf queuedataElement]
          taken := fifo.taken
          taken_le := by
            rw [List.length_append]
            exact Nat.le_add_right_of_le fifo.taken_le })
  | .popQueue =>
    if h : fifo.taken < fifo.pushed.length then
      (.popped (.returns (some fifo.pushed[fifo.taken])), ⟨fifo.pushed, fifo.taken + 1, h⟩)
    else (.popped .waits, fifo)
  | .flushQueue =>
    (.flushed (.returns .success), ⟨fifo.pushed, fifo.pushed.length, Nat.le_refl _⟩)

/-- One call after the other. -/
def run : Fifo → List QueueCall → List QueueAnswer × Fifo
  | fifo, [] => ([], fifo)
  | fifo, call :: calls =>
    let (answer, fifo) := fifo.call call
    let (answers, fifo) := fifo.run calls
    (answer :: answers, fifo)

end Fifo

section Runs

variable {heap : QueueHeap} {s : Addr} {l : List Addr} {fifo : Fifo}

/-- A call for the ring answers what the call for the FIFO does, and they stay alike. -/
theorem QueueHeap.Ring.call (h : heap.Ring s l fifo.content) (call : QueueCall) :
    ∃ heap' l', call.run heap s = some ((fifo.call call).1, heap') ∧
      heap'.Ring s l' (fifo.call call).2.content := by
  cases call with
  | pushQueue mallocs element =>
    cases hrefusal : refusal mallocs element with
    | some status =>
      simp only [QueueCall.run, Fifo.call, hrefusal, h.pushQueue_refused hrefusal]
      exact ⟨heap, l, rfl, h⟩
    | none =>
      obtain ⟨heap', hpush, hring⟩ := h.pushQueue_accepted hrefusal
      simp only [QueueCall.run, Fifo.call, hrefusal, hpush]
      refine ⟨heap', heap.unused :: l, rfl, ?_⟩
      show heap'.Ring s _ ((fifo.pushed ++ [copyOf element]).drop fifo.taken)
      rw [List.drop_append_of_le_length fifo.taken_le]
      exact hring
  | popQueue =>
    by_cases hlt : fifo.taken < fifo.pushed.length
    · have hcontent : fifo.content =
          fifo.pushed[fifo.taken] :: fifo.pushed.drop (fifo.taken + 1) :=
        List.drop_eq_getElem_cons hlt
      rw [hcontent] at h
      obtain ⟨l, a, rfl⟩ := h.eq_concat
      obtain ⟨heap', hpop, hring⟩ := h.popQueue_some
      simp only [QueueCall.run, Fifo.call, dif_pos hlt, hpop]
      exact ⟨heap', l, rfl, hring⟩
    · have hcontent : fifo.content = [] := List.drop_eq_nil_of_le (Nat.le_of_not_lt hlt)
      have hempty := h
      rw [hcontent] at hempty
      obtain rfl := hempty.eq_nil
      simp only [QueueCall.run, Fifo.call, dif_neg hlt, hempty.popQueue_none]
      exact ⟨heap, [], rfl, h⟩
  | flushQueue =>
    obtain ⟨heap', hflush, hring⟩ := h.flushQueue
    simp only [QueueCall.run, Fifo.call, hflush]
    refine ⟨heap', [], rfl, ?_⟩
    show heap'.Ring s [] (fifo.pushed.drop fifo.pushed.length)
    rw [List.drop_length]
    exact hring

theorem QueueHeap.Ring.calls (h : heap.Ring s l fifo.content) (calls : List QueueCall) :
    ∃ heap' l', runCalls s heap calls = some ((fifo.run calls).1, heap') ∧
      heap'.Ring s l' (fifo.run calls).2.content := by
  induction calls generalizing heap l fifo with
  | nil => exact ⟨heap, l, rfl, h⟩
  | cons call calls ih =>
    obtain ⟨heap', l', hcall, hring⟩ := h.call call
    obtain ⟨heap'', l'', hcalls, hring'⟩ := ih hring
    refine ⟨heap'', l'', ?_, hring'⟩
    simp only [runCalls, hcall, hcalls, Option.bind_eq_bind, Option.bind_some, Option.pure_def]
    rfl

/-- The nodes from the sentinel on, along `next`. -/
def QueueHeap.ringByNext (heap : QueueHeap) (s : Addr) : Option (List Addr) :=
  walk heap.nextOf (some s) heap.unused (heap.nextOf s)

/-- The nodes from the sentinel on, along `prev`. -/
def QueueHeap.ringByPrev (heap : QueueHeap) (s : Addr) : Option (List Addr) :=
  walk heap.prevOf (some s) heap.unused (heap.prevOf s)

theorem QueueHeap.Ring.walks {queue : List QueueData} (h : heap.Ring s l queue) :
    heap.ringByNext s = some l ∧ heap.ringByPrev s = some l.reverse := by
  obtain ⟨node, hnode, hs⟩ := h.node
  have hstop : ∀ a ∈ l, some a ≠ some s := fun a ha he =>
    (List.nodup_cons.mp h.nodup).1 (Option.some.inj he ▸ ha)
  have hnext : heap.nextOf s = l.head?.or (some s) := by
    rw [nextOf, hnode, Option.bind_some, hs.next]
  have hprev : heap.prevOf s = l.getLast?.or (some s) := by
    rw [prevOf, hnode, Option.bind_some, hs.prev]
  rw [ringByNext, ringByPrev, hnext, hprev]
  exact ⟨h.links.walk_next hstop h.length_le, h.links.walk_prev hstop h.length_le⟩

/-- The queue is a FIFO. Whatever is called, the answers are those of the FIFO: a pop gives a
copy of the oldest element that no pop or flush has taken. The nodes that `next` and `prev` lead
to are the same in opposite orders, `longCount` counts them, the sentinel is the sentinel of all
of them, and they hold what is still to come out. A push that answers an error, of whatever
queue, changes nothing. -/
theorem queue_is_fifo :
    (∀ calls : List QueueCall, ∃ heap l,
      runCalls (initQueue .empty).1 (initQueue .empty).2 calls =
        some ((Fifo.empty.run calls).1, heap) ∧
      heap.ringByNext (initQueue .empty).1 = some l ∧
      heap.ringByPrev (initQueue .empty).1 = some l.reverse ∧
      (heap.nodes (initQueue .empty).1).map (·.longCount) = some l.length ∧
      (∀ a ∈ (initQueue .empty).1 :: l, heap.sentinelOf a = some (initQueue .empty).1) ∧
      l.reverse.map heap.dataOf = (Fifo.empty.run calls).2.content.map some) ∧
    ∀ heap mallocs pqueueIn element status heap',
      pushQueue heap mallocs pqueueIn element = some (status, heap') → status ≠ .success →
        heap' = heap := by
  refine ⟨fun calls => ?_, fun heap mallocs pqueueIn element status heap' => pushQueue_error⟩
  obtain ⟨heap, l, hrun, hring⟩ := QueueHeap.Ring.calls
    (show Ring _ _ [] Fifo.empty.content from ring_initQueue) calls
  obtain ⟨hnext, hprev⟩ := hring.walks
  obtain ⟨node, hnode, hs⟩ := hring.node
  refine ⟨heap, l, hrun, hnext, hprev, ?_, ?_, ?_⟩
  · rw [hnode, Option.map_some, hs.count]
  · intro a ha
    rcases List.mem_cons.mp ha with rfl | ha
    · rw [sentinelOf, hnode, Option.bind_some, hs.sentinel]
    · exact hring.owner a ha
  · rw [List.map_reverse, hring.data, ← List.map_reverse, List.reverse_reverse]

/-- Two elements come out as they went in, and a NULL queue stays as it is. -/
theorem queue_is_fifo_for_two :
    (∃ heap, runCalls 0 (initQueue .empty).2
      [.pushQueue ⟨true, true, true⟩ ⟨2, some fun i => i.toUInt8⟩,
        .pushQueue ⟨true, true, true⟩ ⟨0, none⟩, .popQueue, .popQueue] =
      some ([.pushed .success, .pushed .success, .popped (.returns (some ⟨2, some [0, 1]⟩)),
        .popped (.returns (some ⟨0, none⟩))], heap)) ∧
    ∀ heap', pushQueue .empty ⟨true, true, true⟩ none ⟨0, none⟩ =
      some (.nullPointerAsInParameter, heap') → heap' = .empty := by
  obtain ⟨hfifo, herror⟩ := queue_is_fifo
  constructor
  · obtain ⟨heap, -, hrun, -⟩ := hfifo
      [.pushQueue ⟨true, true, true⟩ ⟨2, some fun i => i.toUInt8⟩,
        .pushQueue ⟨true, true, true⟩ ⟨0, none⟩, .popQueue, .popQueue]
    exact ⟨heap, hrun⟩
  · exact fun heap' hrun => herror _ _ _ _ _ heap' hrun nofun

end Runs

end Ebotula
