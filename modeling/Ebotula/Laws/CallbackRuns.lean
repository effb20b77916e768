import Ebotula.Laws.CallbackList
import Ebotula.Library.Run

/-!
# Runs of the callback list

Any sequence of insertions and removals, each for an element of the list or NULL, keeps the
list one chain, and does to the sequence of its elements what the routine is named for
(`ListStep`). `insert_prev_CallbackDList` is `insert_next_CallbackDList` in the mirror: with
head and tail exchanged, and the two links of every node.
-/

set_option autoImplicit false

namespace Ebotula

open Library

/-! ## The mirror -/

/-- A node with its links exchanged. -/
def CallbackDListItem.mirror (node : CallbackDListItem) : CallbackDListItem :=
  ⟨node.data, node.next, node.prev⟩

namespace CallbackDList

/-- The list from its tail to its head. -/
def mirror (list : CallbackDList) : CallbackDList :=
  { list with
    head := list.tail
    tail := list.head
    nodes := fun a => (list.nodes a).map CallbackDListItem.mirror }

section Mirror

variable {list : CallbackDList} {l xs ys : List Addr} {e : Addr} {data : CallbackItem}

@[simp] theorem mirror_mirror : list.mirror.mirror = list := by
  have hnodes : (fun a => ((list.nodes a).map CallbackDListItem.mirror).map
      CallbackDListItem.mirror) = list.nodes := by
    funext a
    rw [Option.map_map]
    exact Option.map_id_fun' ▸ rfl
  rw [mirror, mirror]
  simp only [hnodes]

theorem mirror_itemOf : list.mirror.itemOf = list.itemOf := by
  funext a
  simp only [itemOf, mirror, Option.map_map, Function.comp_def, CallbackDListItem.mirror]

theorem Linked.mirror (h : list.Linked l) : list.mirror.Linked l.reverse where
  nodup := List.nodup_reverse.mpr h.nodup
  size := by rw [List.length_reverse]; exact h.size
  head := by rw [List.head?_reverse]; exact h.tail
  tail := by rw [List.getLast?_reverse]; exact h.head
  used := fun a => by
    rw [List.mem_reverse, ← h.used]
    simp only [CallbackDList.mirror, Option.isSome_map]
  links := by
    have hprev : list.mirror.prevOf = list.nextOf := by
      funext a
      simp only [prevOf, nextOf, CallbackDList.mirror, Option.bind_map, Function.comp_def,
        CallbackDListItem.mirror]
    have hnext : list.mirror.nextOf = list.prevOf := by
      funext a
      simp only [prevOf, nextOf, CallbackDList.mirror, Option.bind_map, Function.comp_def,
        CallbackDListItem.mirror]
    rw [hprev, hnext]
    exact h.links.reverse
  below := fun a ha => h.below a (List.mem_reverse.mp ha)

theorem mirror_update (nodes : Addr → Option CallbackDListItem) (a : Addr)
    (node : CallbackDListItem) :
    (fun b => (Function.update nodes a (some node) b).map CallbackDListItem.mirror) =
      Function.update (fun b => (nodes b).map CallbackDListItem.mirror) a
        (some node.mirror) := by
  funext b
  by_cases hb : b = a
  · simp only [hb, Function.update_self, Option.map_some]
  · simp only [Function.update_of_ne hb]

theorem alloc_mirror (node : CallbackDListItem) :
    (list.mirror.alloc node.mirror).2 = (list.alloc node).2.mirror := by
  simp only [alloc, mirror, mirror_update]

theorem modify_mirror (list : CallbackDList) (a : Addr)
    (f g : CallbackDListItem → CallbackDListItem)
    (hfg : ∀ node, g node.mirror = (f node).mirror) :
    list.mirror.modify a g = (list.modify a f).map mirror := by
  simp only [modify, mirror, Option.map_map, Function.comp_def, hfg, mirror_update]

/-- An insertion in front is an insertion behind, in the mirror. -/
theorem insertPrev_mirror (element : Option Addr) :
    list.mirror.insertNext element data =
      (list.insertPrev element data).map (Prod.map id mirror) := by
  unfold CallbackDList.insertNext CallbackDList.insertPrev
  by_cases hsize : list.size = 0
  · rw [if_pos hsize, if_pos (show list.mirror.size = 0 from hsize), Option.map_some]
    have hfirst : list.mirror.insertFirst data = (list.insertFirst data).mirror := by
      simp only [insertFirst, alloc, mirror, mirror_update]
      rfl
    rw [hfirst]
    rfl
  rw [if_neg hsize, if_neg (show ¬ list.mirror.size = 0 from hsize)]
  cases element with
  | none => rfl
  | some e =>
    cases hnode : list.nodes e with
    | none =>
      have hmirror : list.mirror.nodes e = none := by simp only [mirror, hnode, Option.map_none]
      simp only [hnode, hmirror, Option.bind_eq_bind, Option.bind_none, Option.map_none]
    | some node =>
      have hmirror : list.mirror.nodes e = some node.mirror := by
        simp only [mirror, hnode, Option.map_some]
      simp only [hnode, hmirror, Option.bind_eq_bind, Option.bind_some]
      have halloc : list.mirror.alloc ⟨data, some e, node.mirror.next⟩ =
          (list.unused, (list.alloc ⟨data, node.prev, some e⟩).2.mirror) :=
        Prod.ext rfl (alloc_mirror ⟨data, node.prev, some e⟩)
      have hlink (made : CallbackDList) :
          made.mirror.modify e (fun n => { n with next := some list.unused }) =
            (made.modify e fun n => { n with prev := some list.unused }).map mirror :=
        modify_mirror made e _ _ fun _ => rfl
      have hcount (made : Option CallbackDList) :
          ((made.map mirror).bind fun list =>
              pure (true, { list with size := list.size + 1 })) =
            (made.bind fun list => some (true, { list with size := list.size + 1 })).map
              (Prod.map id mirror) := by
        cases made <;> rfl
      rw [halloc]
      cases hprev : node.prev with
      | none =>
        simp only [CallbackDListItem.mirror, hprev]
        let made : CallbackDList :=
          { (list.alloc ⟨data, none, some e⟩).2 with head := some list.unused }
        show (made.mirror.modify e fun n => { n with next := some list.unused }).bind _ = _
        rw [hlink made]
        exact hcount _
      | some prev =>
        have hbehind := modify_mirror (list.alloc ⟨data, some prev, some e⟩).2 prev
          (fun n => { n with next := some list.unused })
          (fun n => { n with prev := some list.unused }) fun _ => rfl
        simp only [CallbackDListItem.mirror, hprev, hbehind]
        show _ = (((list.alloc ⟨data, some prev, some e⟩).2.modify prev fun n =>
          { n with next := some list.unused }).bind fun made => _).map _
        cases (list.alloc ⟨data, some prev, some e⟩).2.modify prev fun n =>
          { n with next := some list.unused } with
        | none => rfl
        | some made =>
          rw [Option.map_some, Option.bind_some, Option.bind_some, hlink made]
          exact hcount _

/-- In front of an element of the list the new node is linked in. -/
theorem Linked.insertPrev (h : list.Linked (xs ++ e :: ys)) (data : CallbackItem) :
    ∃ list', list.insertPrev (some e) data = some (true, list') ∧
      list'.Linked (xs ++ list.unused :: e :: ys) ∧
      list'.itemOf = Function.update list.itemOf list.unused (some data) := by
  have hmirror := h.mirror
  rw [List.reverse_append, List.reverse_cons, List.append_assoc, List.singleton_append] at hmirror
  obtain ⟨made, hrun, hlinked, hitems, -⟩ := hmirror.insertNext data
  rw [insertPrev_mirror] at hrun
  obtain ⟨⟨success, list'⟩, hprev, heq⟩ := Option.map_eq_some_iff.mp hrun
  obtain ⟨rfl, rfl⟩ := Prod.mk.inj heq
  refine ⟨list', hprev, ?_, ?_⟩
  · have hback := hlinked.mirror
    rw [mirror_mirror] at hback
    have hlinked' : list'.Linked (xs ++ list.mirror.unused :: e :: ys) := by simpa using hback
    exact hlinked'
  · rw [mirror_itemOf, mirror_itemOf] at hitems
    exact hitems

/-- Into an empty list any pointer inserts, in front as well. -/
theorem Linked.insertPrev_empty (h : list.Linked []) (data : CallbackItem)
    (element : Option Addr) :
    ∃ list', list.insertPrev element data = some (true, list') ∧ list'.Linked [list.unused] ∧
      list'.itemOf = Function.update list.itemOf list.unused (some data) := by
  obtain ⟨list', hrun, hlinked, hitems, -⟩ := h.insertNext_empty data element
  refine ⟨list', ?_, hlinked, hitems⟩
  rw [← hrun]
  unfold CallbackDList.insertNext CallbackDList.insertPrev
  rw [if_pos (h.size_eq_zero.mpr rfl), if_pos (h.size_eq_zero.mpr rfl)]

theorem Linked.insertPrev_null (h : list.Linked l) (hne : l ≠ []) :
    list.insertPrev none data = some (false, list) := by
  rw [CallbackDList.insertPrev, if_neg (mt h.size_eq_zero.mp hne)]

end Mirror

/-! ## What a call is named for -/

/-- An element of the list, with its item. -/
abbrev Elem := Addr × CallbackItem

end CallbackDList

open CallbackDList (Elem)

/-- What a call may answer, and what it makes of the elements of a list. -/
inductive ListStep : List Elem → ListCall → ListAnswer → List Elem → Prop
  | insertNext {xs ys : List Elem} {e new : Addr} {item data : CallbackItem}
      (fresh : ∀ x ∈ xs ++ (e, item) :: ys, x.1 ≠ new) :
      ListStep (xs ++ (e, item) :: ys) (.insertNext true (some e) data) (.inserted true)
        (xs ++ (e, item) :: (new, data) :: ys)
  | insertPrev {xs ys : List Elem} {e new : Addr} {item data : CallbackItem}
      (fresh : ∀ x ∈ xs ++ (e, item) :: ys, x.1 ≠ new) :
      ListStep (xs ++ (e, item) :: ys) (.insertPrev true (some e) data) (.inserted true)
        (xs ++ (new, data) :: (e, item) :: ys)
  | remove {xs ys : List Elem} {e : Addr} {item : CallbackItem} :
      ListStep (xs ++ (e, item) :: ys) (.remove (some e)) (.removed (some item)) (xs ++ ys)
  /-- The first element goes in for any pointer. -/
  | insertNext_first {element : Option Addr} {new : Addr} {data : CallbackItem} :
      ListStep [] (.insertNext true element data) (.inserted true) [(new, data)]
  | insertPrev_first {element : Option Addr} {new : Addr} {data : CallbackItem} :
      ListStep [] (.insertPrev true element data) (.inserted true) [(new, data)]
  /-- Without memory there is no insertion, and none for NULL but the first. -/
  | insertNext_fails {elems : List Elem} {malloc : Bool} {element : Option Addr}
      {data : CallbackItem} (h : malloc = false ∨ element = none ∧ elems ≠ []) :
      ListStep elems (.insertNext malloc element data) (.inserted false) elems
  | insertPrev_fails {elems : List Elem} {malloc : Bool} {element : Option Addr}
      {data : CallbackItem} (h : malloc = false ∨ element = none ∧ elems ≠ []) :
      ListStep elems (.insertPrev malloc element data) (.inserted false) elems
  | remove_null {elems : List Elem} : ListStep elems (.remove none) (.removed none) elems

/-- One call after the other. -/
inductive ListSteps : List Elem → List ListCall → List Elem → Prop
  | nil (elems : List Elem) : ListSteps elems [] elems
  | cons {elems elems' elems'' : List Elem} {call : ListCall} {answer : ListAnswer}
      {calls : List ListCall} : ListStep elems call answer elems' →
      ListSteps elems' calls elems'' → ListSteps elems (call :: calls) elems''

namespace CallbackDList

/-- The elements of the list and their items, from the head to the tail. -/
structure Carries (list : CallbackDList) (elems : List Elem) : Prop where
  linked : list.Linked (elems.map Prod.fst)
  items : ∀ x ∈ elems, list.itemOf x.1 = some x.2

section Runs

variable {list : CallbackDList} {elems : List Elem}

theorem init_carries : init.Carries [] := ⟨init_linked, nofun⟩

/-- An element that is in the list, or NULL. -/
def Knows (list : CallbackDList) (element : Option Addr) : Prop := ∀ e ∈ element, list.Has e

theorem Carries.split (h : list.Carries elems) {e : Addr} (he : list.Has e) :
    ∃ xs ys item, elems = xs ++ (e, item) :: ys := by
  obtain ⟨⟨e, item⟩, hmem, rfl⟩ := List.mem_map.mp (h.linked.has_iff.mp he)
  obtain ⟨xs, ys, rfl⟩ := List.append_of_mem hmem
  exact ⟨xs, ys, item, rfl⟩

/-- The items after one more element was linked in. -/
theorem Carries.added {list' : CallbackDList} {elems' : List Elem} {data : CallbackItem}
    (h : list.Carries elems) (hlinked : list'.Linked (elems'.map Prod.fst))
    (hitems : list'.itemOf = Function.update list.itemOf list.unused (some data))
    (hmem : ∀ x ∈ elems', x = (list.unused, data) ∨ x ∈ elems) : list'.Carries elems' where
  linked := hlinked
  items := fun x hx => by
    rw [hitems]
    rcases hmem x hx with rfl | hx
    · exact Function.update_self ..
    · have hne : x.1 ≠ list.unused := fun he =>
        h.linked.unused_notMem (he ▸ List.mem_map_of_mem hx)
      rw [Function.update_of_ne hne]
      exact h.items x hx

/-- A call does what it is named for, and nothing when it returns `-1`. -/
def Obeys (list : CallbackDList) (elems : List Elem) (call : ListCall) : Prop :=
  ∃ answer list' elems', call.run list = some (answer, list') ∧ list'.Carries elems' ∧
    ListStep elems call answer elems' ∧ (answer.failed → list' = list)

theorem Carries.refused (h : list.Carries elems) {call : ListCall} {answer : ListAnswer}
    (hrun : call.run list = some (answer, list)) (hstep : ListStep elems call answer elems) :
    list.Obeys elems call :=
  ⟨answer, list, elems, hrun, h, hstep, fun _ => rfl⟩

theorem Carries.obeys {call : ListCall} {answer : ListAnswer} {list' : CallbackDList}
    {elems' : List Elem} (h : list'.Carries elems') (hrun : call.run list = some (answer, list'))
    (hstep : ListStep elems call answer elems') (hanswer : answer.failed = false) :
    list.Obeys elems call :=
  ⟨answer, list', elems', hrun, h, hstep, fun hf => absurd hf (by rw [hanswer]; nofun)⟩

theorem Carries.unused_ne (h : list.Carries elems) : ∀ x ∈ elems, x.1 ≠ list.unused :=
  fun _ hx he => h.linked.unused_notMem (he ▸ List.mem_map_of_mem hx)

theorem Carries.insertNext (h : list.Carries elems) (malloc : Bool) (element : Option Addr)
    (data : CallbackItem) (hknown : list.Knows element) :
    list.Obeys elems (.insertNext malloc element data) := by
  cases malloc with
  | false => exact h.refused rfl (.insertNext_fails (.inl rfl))
  | true =>
    have hrun (result) (hr : list.insertNext element data = some result) :
        (ListCall.insertNext true element data).run list =
          some (.inserted result.1, result.2) := by
      rw [ListCall.run, hr]
      rfl
    rcases List.eq_nil_or_concat elems with rfl | hne
    · obtain ⟨list', hr, hlinked, hitems, -⟩ := h.linked.insertNext_empty data element
      have hmade : list'.Carries [(list.unused, data)] :=
        h.added hlinked hitems fun x hx => .inl (List.mem_singleton.mp hx)
      exact hmade.obeys (hrun _ hr) .insertNext_first rfl
    cases element with
    | none =>
      have hne' : elems ≠ [] := by
        obtain ⟨_, _, rfl⟩ := hne
        simp
      have hnull : list.insertNext none data = some (false, list) :=
        h.linked.insertNext_null (mt List.map_eq_nil_iff.mp hne')
      exact h.refused (hrun _ hnull) (.insertNext_fails (.inr ⟨rfl, hne'⟩))
    | some e =>
      obtain ⟨xs, ys, item, rfl⟩ := h.split (hknown e rfl)
      have hsplit := h.linked
      rw [List.map_append, List.map_cons] at hsplit
      obtain ⟨list', hr, hlinked, hitems, -⟩ := hsplit.insertNext data
      have hmade : list'.Carries (xs ++ (e, item) :: (list.unused, data) :: ys) := by
        refine h.added (by simpa using hlinked) hitems fun x hx => ?_
        simp only [List.mem_append, List.mem_cons] at hx ⊢
        tauto
      exact hmade.obeys (hrun _ hr) (.insertNext h.unused_ne) rfl

theorem Carries.insertPrev (h : list.Carries elems) (malloc : Bool) (element : Option Addr)
    (data : CallbackItem) (hknown : list.Knows element) :
    list.Obeys elems (.insertPrev malloc element data) := by
  cases malloc with
  | false => exact h.refused rfl (.insertPrev_fails (.inl rfl))
  | true =>
    have hrun (result) (hr : list.insertPrev element data = some result) :
        (ListCall.insertPrev true element data).run list =
          some (.inserted result.1, result.2) := by
      rw [ListCall.run, hr]
      rfl
    rcases List.eq_nil_or_concat elems with rfl | hne
    · obtain ⟨list', hr, hlinked, hitems⟩ := h.linked.insertPrev_empty data element
      have hmade : list'.Carries [(list.unused, data)] :=
        h.added hlinked hitems fun x hx => .inl (List.mem_singleton.mp hx)
      exact hmade.obeys (hrun _ hr) .insertPrev_first rfl
    cases element with
    | none =>
      have hne' : elems ≠ [] := by
        obtain ⟨_, _, rfl⟩ := hne
        simp
      have hnull : list.insertPrev none data = some (false, list) :=
        h.linked.insertPrev_null (mt List.map_eq_nil_iff.mp hne')
      exact h.refused (hrun _ hnull) (.insertPrev_fails (.inr ⟨rfl, hne'⟩))
    | some e =>
      obtain ⟨xs, ys, item, rfl⟩ := h.split (hknown e rfl)
      have hsplit := h.linked
      rw [List.map_append, List.map_cons] at hsplit
      obtain ⟨list', hr, hlinked, hitems⟩ := hsplit.insertPrev data
      have hmade : list'.Carries (xs ++ (list.unused, data) :: (e, item) :: ys) := by
        refine h.added (by simpa using hlinked) hitems fun x hx => ?_
        simp only [List.mem_append, List.mem_cons] at hx ⊢
        tauto
      exact hmade.obeys (hrun _ hr) (.insertPrev h.unused_ne) rfl

/-- What is taken out is the element, with its item. -/
theorem Carries.removed {xs ys : List Elem} {e : Elem} (h : list.Carries (xs ++ e :: ys)) :
    ∃ list', list.remove (some e.1) = some (some e.2, list') ∧ list'.Carries (xs ++ ys) := by
  have hsplit := h.linked
  rw [List.map_append, List.map_cons] at hsplit
  obtain ⟨item, list', hitem, hr, hlinked, hitems, -⟩ := hsplit.remove
  rw [h.items e (List.mem_append_right _ List.mem_cons_self)] at hitem
  obtain rfl := Option.some.inj hitem
  refine ⟨list', hr, by rwa [List.map_append], fun x hx => ?_⟩
  have hne : x.1 ≠ e.1 := by
    have hd := (List.perm_middle.nodup_iff.mp hsplit.nodup)
    intro he
    refine (List.nodup_cons.mp hd).1 (he ▸ ?_)
    rw [← List.map_append]
    exact List.mem_map_of_mem hx
  rw [hitems, Function.update_of_ne hne]
  refine h.items x ?_
  simp only [List.mem_append, List.mem_cons] at hx ⊢
  tauto

theorem Carries.remove (h : list.Carries elems) (element : Option Addr)
    (hknown : list.Knows element) : list.Obeys elems (.remove element) := by
  cases element with
  | none => exact h.refused rfl .remove_null
  | some e =>
    obtain ⟨xs, ys, item, rfl⟩ := h.split (hknown e rfl)
    obtain ⟨list', hr, hmade⟩ := h.removed
    refine hmade.obeys ?_ .remove rfl
    rw [ListCall.run, hr]
    rfl

/-- Every call for an element of the list or NULL does what it is named for. -/
theorem Carries.call (h : list.Carries elems) (call : ListCall) (hknown : list.Knows call.element) :
    list.Obeys elems call := by
  cases call with
  | insertNext malloc element data => exact h.insertNext malloc element data hknown
  | insertPrev malloc element data => exact h.insertPrev malloc element data hknown
  | remove element => exact h.remove element hknown

/-- `destroyCallbackDList` ends, and passes on every item once, from the tail to the head. -/
theorem Carries.destroyLoop (h : list.Carries elems) {fuel : Nat} (hfuel : elems.length < fuel) :
    list.destroyLoop fuel = some (elems.reverse.map Prod.snd) := by
  induction elems using List.reverseRecOn generalizing list fuel with
  | nil =>
    obtain ⟨fuel, rfl⟩ := Nat.exists_eq_add_one_of_ne_zero (Nat.ne_of_gt hfuel)
    have hsize : list.size = 0 := h.linked.size
    rw [CallbackDList.destroyLoop, if_neg (by omega)]
    rfl
  | append_singleton elems e ih =>
    obtain ⟨fuel, rfl⟩ := Nat.exists_eq_add_one_of_ne_zero (Nat.ne_of_gt (Nat.zero_lt_of_lt hfuel))
    rw [List.length_append, List.length_singleton] at hfuel
    have hsize := h.linked.size
    have htail := h.linked.tail
    rw [List.length_map, List.length_append, List.length_singleton] at hsize
    rw [List.map_append, List.map_singleton, List.getLast?_concat] at htail
    have hsplit : list.Carries (elems ++ e :: []) := h
    obtain ⟨list', hr, hrest⟩ := hsplit.removed
    rw [List.append_nil] at hrest
    rw [CallbackDList.destroyLoop, if_pos (by omega), htail, hr]
    have hlater := ih hrest (Nat.lt_of_succ_lt_succ hfuel)
    simp only [Option.bind_eq_bind, Option.bind_some, hlater, Option.pure_def,
      Option.toList_some, List.reverse_append, List.reverse_singleton, List.map_append,
      List.map_singleton]

/-- The nodes from the head on. -/
def forward (list : CallbackDList) : Option (List Addr) :=
  walk list.nextOf none (list.size + 1) list.head

/-- The nodes from the tail on. -/
def backward (list : CallbackDList) : Option (List Addr) :=
  walk list.prevOf none (list.size + 1) list.tail

/-- The list is well formed, with these elements from its head to its tail. -/
structure Shows (list : CallbackDList) (elems : List Elem) : Prop where
  forward : list.forward = some (elems.map Prod.fst)
  backward : list.backward = some (elems.map Prod.fst).reverse
  items : ∀ x ∈ elems, list.itemOf x.1 = some x.2
  size : list.size = elems.length
  head : list.head = none ↔ list.size = 0
  tail : list.tail = none ↔ list.size = 0

theorem Carries.shows (h : list.Carries elems) : list.Shows elems := by
  have hlinks := h.linked.links
  have hsize : (elems.map Prod.fst).length < list.size + 1 := by
    rw [h.linked.size]
    exact Nat.lt_succ_self _
  have hempty := h.linked.size_eq_zero
  refine ⟨?_, ?_, h.items, ?_, ?_, ?_⟩
  · rw [CallbackDList.forward, h.linked.head, ← Option.or_none (o := (elems.map Prod.fst).head?)]
    exact hlinks.walk_next nofun hsize
  · rw [CallbackDList.backward, h.linked.tail,
      ← Option.or_none (o := (elems.map Prod.fst).getLast?)]
    exact hlinks.walk_prev nofun hsize
  · rw [h.linked.size, List.length_map]
  · rw [hempty, h.linked.head, List.head?_eq_none_iff]
  · rw [hempty, h.linked.tail, List.getLast?_eq_none_iff]

/-- One call, without its answer. -/
def step (list : CallbackDList) (call : ListCall) : Option CallbackDList :=
  (call.run list).map Prod.snd

/-- The elements of a run are those of the calls. -/
theorem Carries.run {calls : List ListCall} {list' : CallbackDList} (h : list.Carries elems)
    (run : Run step (fun list call => list.Knows call.element) list calls list') :
    ∃ elems', ListSteps elems calls elems' ∧ list'.Carries elems' := by
  induction run generalizing elems with
  | nil => exact ⟨elems, .nil _, h⟩
  | cons hknown hstep _ ih =>
    obtain ⟨answer, made, elems₁, hrun, hmade, hcall, -⟩ := h.call _ hknown
    rw [step, hrun] at hstep
    obtain rfl := Option.some.inj hstep
    obtain ⟨elems', hrest, hcarries⟩ := ih hmade
    exact ⟨elems', .cons hcall hrest, hcarries⟩

end Runs

end CallbackDList

open CallbackDList in
/-- After every sequence of calls, each for an element of the list or NULL, the list is well
formed, its elements are those that the calls have made, and every further such call does what
it is named for: one that returns `-1` changes nothing. The list can be destroyed, and every
item is passed to `destroy` once. -/
theorem callback_list_refines {calls : List ListCall} {list : CallbackDList}
    (run : Run step (fun list call => list.Knows call.element) init calls list) :
    ∃ elems, ListSteps [] calls elems ∧ list.Shows elems ∧
      (∀ call : ListCall, list.Knows call.element → ∃ answer list' elems',
        call.run list = some (answer, list') ∧ list'.Shows elems' ∧
        ListStep elems call answer elems' ∧ (answer.failed → list' = list)) ∧
      list.destroy = some (elems.reverse.map Prod.snd) := by
  obtain ⟨elems, hsteps, h⟩ := init_carries.run run
  refine ⟨elems, hsteps, h.shows, fun call hknown => ?_, ?_⟩
  · obtain ⟨answer, list', elems', hrun, hmade, hstep, hfailed⟩ := h.call call hknown
    exact ⟨answer, list', elems', hrun, hmade.shows, hstep, hfailed⟩
  · refine h.destroyLoop ?_
    rw [h.shows.size]
    exact Nat.lt_succ_self _

open CallbackDList in
/-- An element, one in front of it, and the first one taken out again. -/
theorem callback_list_refines_for_three : ∃ (list : CallbackDList) (elems : List Elem),
    ListSteps [] [.insertNext true none ⟨"a".toList, .kickCb, []⟩,
      .insertPrev true (some 0) ⟨"b".toList, .setBanCb, []⟩, .remove (some 0)] elems ∧
    list.Shows elems ∧ list.destroy = some (elems.reverse.map Prod.snd) := by
  obtain ⟨list, run⟩ : ∃ list, Run step (fun list call => list.Knows call.element) init
      [.insertNext true none ⟨"a".toList, .kickCb, []⟩,
        .insertPrev true (some 0) ⟨"b".toList, .setBanCb, []⟩, .remove (some 0)] list := by
    refine ⟨_, .cons nofun rfl (.cons ?_ rfl (.cons ?_ rfl (.nil _)))⟩
    · rintro e ⟨⟩
      exact .head rfl
    · rintro e ⟨⟩
      exact .next (a := 1) (.head rfl) rfl
  obtain ⟨elems, hsteps, hshows, -, hdestroy⟩ := callback_list_refines run
  exact ⟨list, elems, hsteps, hshows, hdestroy⟩

end Ebotula
