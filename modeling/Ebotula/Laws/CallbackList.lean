import Ebotula.CallbackList
import Ebotula.Library.Chain

/-!
# What the callback list keeps

A list of callbacks is well formed when its nodes in use are one chain from `head` to
`tail`, linked in both directions and counted by `size` (`Linked`). Each routine of
the list comes with the one lemma that says what it makes of such a chain. All of them
are about an element of the chain: of any other element but NULL the routines follow a
pointer to a freed node, unless the list is empty and they look at no element at all.
-/

set_option autoImplicit false

namespace Ebotula

open Library

namespace CallbackDList

/-- `element->prev`. -/
def prevOf (list : CallbackDList) (a : Addr) : Option Addr := (list.nodes a).bind (·.prev)

/-- `element->next`. -/
def nextOf (list : CallbackDList) (a : Addr) : Option Addr := (list.nodes a).bind (·.next)

/-- `element->data`. -/
def itemOf (list : CallbackDList) (a : Addr) : Option CallbackItem := (list.nodes a).map (·.data)

/-- The nodes in use are the elements `l`, in this order from the head to the tail. -/
structure Linked (list : CallbackDList) (l : List Addr) : Prop where
  nodup : l.Nodup
  size : list.size = l.length
  head : list.head = l.head?
  tail : list.tail = l.getLast?
  used : ∀ a, (list.nodes a).isSome ↔ a ∈ l
  links : Seg list.prevOf list.nextOf none l none
  below : ∀ a ∈ l, a < list.unused

/-- `size`, `head`, `tail` and the links of all elements agree. -/
def WellFormed (list : CallbackDList) : Prop := ∃ l, list.Linked l

/-- An element that is linked in the list. -/
def Has (list : CallbackDList) (a : Addr) : Prop := Reaches list.nextOf list.head a

theorem init_linked : init.Linked [] where
  nodup := .nil
  size := rfl
  head := rfl
  tail := rfl
  used := fun a => by simp only [init, Option.isSome_none, Bool.false_eq_true, List.not_mem_nil]
  links := trivial
  below := fun a h => by cases h

section Linked

variable {list : CallbackDList} {l xs ys : List Addr} {e a : Addr} {data : CallbackItem}

theorem Linked.has_iff (h : list.Linked l) : list.Has a ↔ a ∈ l := by
  rw [Has, h.head]
  exact h.links.reaches_iff

theorem Linked.size_eq_zero (h : list.Linked l) : list.size = 0 ↔ l = [] := by
  rw [h.size, List.length_eq_zero_iff]

theorem Linked.size_ne_zero (h : list.Linked (xs ++ e :: ys)) : list.size ≠ 0 := by
  rw [Ne, h.size_eq_zero]
  exact List.append_ne_nil_of_right_ne_nil _ (List.cons_ne_nil _ _)

theorem Linked.exists_node (h : list.Linked l) (ha : a ∈ l) : ∃ node, list.nodes a = some node :=
  Option.isSome_iff_exists.mp ((h.used a).mpr ha)

/-- The node of an element, with its neighbours. -/
theorem Linked.node (h : list.Linked (xs ++ e :: ys)) :
    ∃ data, list.nodes e = some ⟨data, xs.getLast?, ys.head?⟩ := by
  obtain ⟨⟨data, prev, next⟩, hnode⟩ :=
    h.exists_node (List.mem_append_right _ List.mem_cons_self)
  have hlinks := h.links.links
  simp only [prevOf, nextOf, hnode, Option.bind_some, Option.or_none] at hlinks
  exact ⟨data, by rw [hnode, hlinks.1, hlinks.2]⟩

/-- The address of a new node is none of the list. -/
theorem Linked.unused_notMem (h : list.Linked l) : list.unused ∉ l := fun hmem =>
  Nat.lt_irrefl _ (h.below _ hmem)

theorem Linked.nodes_eq_none (h : list.Linked l) (ha : a ∉ l) : list.nodes a = none :=
  Option.not_isSome_iff_eq_none.mp (mt (h.used a).mp ha)

/-! ### Insertion -/

/-- Into an empty list any pointer inserts. -/
theorem Linked.insertNext_empty (h : list.Linked []) (data : CallbackItem) (element : Option Addr) :
    ∃ list', list.insertNext element data = some (true, list') ∧ list'.Linked [list.unused] ∧
      list'.itemOf = Function.update list.itemOf list.unused (some data) ∧
      list'.unused = list.unused + 1 := by
  refine ⟨_, if_pos h.size, ?_, ?_, rfl⟩
  · exact
      { nodup := List.nodup_cons.mpr ⟨List.not_mem_nil, .nil⟩
        size := by
          show list.size + 1 = 1
          rw [h.size, List.length_nil]
        head := rfl
        tail := rfl
        used := fun a => by
          show (Function.update list.nodes list.unused _ a).isSome ↔ _
          by_cases ha : a = list.unused
          · simp only [ha, Function.update_self, Option.isSome_some, List.mem_singleton]
          · simp only [Function.update_of_ne ha, h.used, List.not_mem_nil, List.mem_singleton, ha]
        links := by
          simp only [Seg, prevOf, nextOf, insertFirst, alloc, Function.update_self,
            Option.bind_some, List.head?_nil, Option.none_or, and_self]
        below := fun a ha => List.mem_singleton.mp ha ▸ Nat.lt_succ_self _ }
  · funext a
    by_cases ha : a = list.unused
    · simp only [itemOf, insertFirst, alloc, ha, Function.update_self, Option.map_some]
    · simp only [itemOf, insertFirst, alloc, Function.update_of_ne ha]

/-- The chain after a new node was linked in behind `e`: of the others only the node that
came behind `e` is written, and only its link back. -/
theorem Linked.insertAfter {new : Addr} {item : CallbackItem}
    (h : list.Linked (xs ++ e :: ys)) (list' : CallbackDList) (data : CallbackItem)
    (hnew : new ∉ xs ++ e :: ys)
    (hsize : list'.size = list.size + 1) (hhead : list'.head = list.head)
    (htail : list'.tail = if ys = [] then some new else list.tail)
    (hbelow : ∀ a ∈ xs ++ e :: new :: ys, a < list'.unused)
    (hitem : list.itemOf e = some item)
    (newNode : list'.nodes new = some ⟨data, some e, ys.head?⟩)
    (eNode : list'.nodes e = some ⟨item, xs.getLast?, some new⟩)
    (yNode : ∀ y ∈ ys.head?, list'.nodes y = (list.nodes y).map ({ · with prev := some new }))
    (others : ∀ a, a ≠ new → a ≠ e → a ∉ ys.head? → list'.nodes a = list.nodes a) :
    list'.Linked (xs ++ e :: new :: ys) ∧
      list'.itemOf = Function.update list.itemOf new (some data) := by
  have perm : (xs ++ e :: new :: ys).Perm (new :: (xs ++ e :: ys)) := by
    have := @List.perm_middle _ new (xs ++ [e]) ys
    simpa only [List.append_assoc, List.singleton_append, List.cons_append, List.nil_append]
      using this
  have hprev : list'.prevOf e = list.prevOf e := by
    obtain ⟨_, hnode⟩ := h.node
    simp only [prevOf, eNode, hnode, Option.bind_some]
  refine ⟨?_, ?_⟩
  · exact
      { nodup := perm.nodup_iff.mpr (List.nodup_cons.mpr ⟨hnew, h.nodup⟩)
        size := by
          rw [hsize, h.size, perm.length_eq, List.length_cons]
        head := by
          rw [hhead, h.head]
          cases xs <;> rfl
        tail := by
          rw [htail, h.tail]
          cases ys with
          | nil => simp only [if_true, List.getLast?_append, List.getLast?_cons_cons,
              List.getLast?_singleton, Option.some_or]
          | cons y ys => simp only [reduceCtorEq, if_false, List.getLast?_append,
              List.getLast?_cons_cons]
        used := fun a => by
          rw [perm.mem_iff, List.mem_cons]
          by_cases hanew : a = new
          · simp only [hanew, newNode, Option.isSome_some, true_or]
          · rw [or_iff_right hanew, ← h.used]
            by_cases hae : a = e
            · obtain ⟨_, hnode⟩ := h.node
              simp only [hae, eNode, hnode, Option.isSome_some]
            · by_cases hay : a ∈ ys.head?
              · rw [yNode a hay, Option.isSome_map]
              · rw [others a hanew hae hay]
        links := by
          refine h.links.insertAfter h.nodup hnew ?_ ?_ ?_ ?_ ?_ ?_
          · simp only [prevOf, newNode, Option.bind_some]
          · simp only [nextOf, newNode, Option.bind_some, Option.or_none]
          · simp only [nextOf, eNode, Option.bind_some]
          · intro y hy
            have hmem : y ∈ xs ++ e :: ys :=
              List.mem_append_right _ (List.mem_cons_of_mem _ (List.mem_of_mem_head? hy))
            obtain ⟨node, hnode⟩ := h.exists_node hmem
            simp only [prevOf, yNode y hy, hnode, Option.map_some, Option.bind_some]
          · intro a hanew hae
            by_cases hay : a ∈ ys.head?
            · simp only [nextOf, yNode a hay]
              cases list.nodes a <;> rfl
            · simp only [nextOf, others a hanew hae hay]
          · intro a hanew hay
            by_cases hae : a = e
            · rw [hae, hprev]
            · simp only [prevOf, others a hanew hae hay]
        below := hbelow }
  · funext a
    rw [Function.update_apply]
    split
    · next hanew => rw [hanew, itemOf, newNode, Option.map_some]
    · next hanew =>
      by_cases hae : a = e
      · rw [hae, hitem, itemOf, eNode, Option.map_some]
      · by_cases hay : a ∈ ys.head?
        · simp only [itemOf, yNode a hay, Option.map_map, Function.comp_def]
        · simp only [itemOf, others a hanew hae hay]

/-- Behind an element of the list the new node is linked in. -/
theorem Linked.insertNext (h : list.Linked (xs ++ e :: ys)) (data : CallbackItem) :
    ∃ list', list.insertNext (some e) data = some (true, list') ∧
      list'.Linked (xs ++ e :: list.unused :: ys) ∧
      list'.itemOf = Function.update list.itemOf list.unused (some data) ∧
      list'.unused = list.unused + 1 := by
  obtain ⟨item, hnode⟩ := h.node
  have hsize := h.size_ne_zero
  have hnew := h.unused_notMem
  have hne : e ≠ list.unused := fun he =>
    hnew (he ▸ List.mem_append_right _ List.mem_cons_self)
  have hitem : list.itemOf e = some item := by rw [itemOf, hnode, Option.map_some]
  have hbelow : ∀ a ∈ xs ++ e :: list.unused :: ys, a < list.unused + 1 := by
    intro a ha
    have hmem : a = list.unused ∨ a ∈ xs ++ e :: ys := by
      simp only [List.mem_append, List.mem_cons] at ha ⊢
      tauto
    rcases hmem with rfl | hmem
    · exact Nat.lt_succ_self _
    · exact Nat.lt_succ_of_lt (h.below a hmem)
  have heys : e ∉ ys := (List.nodup_cons.mp (List.nodup_append.mp h.nodup).2.1).1
  cases ys with
  | nil =>
    let list' : CallbackDList :=
      { list with
        size := list.size + 1
        tail := some list.unused
        nodes := Function.update (Function.update list.nodes list.unused
          (some ⟨data, some e, none⟩)) e (some ⟨item, xs.getLast?, some list.unused⟩)
        unused := list.unused + 1 }
    have hrun : list.insertNext (some e) data = some (true, list') := by
      simp only [CallbackDList.insertNext, if_neg hsize, hnode, Option.bind_eq_bind,
        Option.bind_some, List.head?_nil, alloc, modify, Function.update_of_ne hne,
        Option.map_some]
      rfl
    obtain ⟨hlinked, hitems⟩ := h.insertAfter list' data hnew rfl rfl
      (if_pos rfl).symm hbelow hitem
      (by simp only [list', Function.update_of_ne hne.symm, Function.update_self, List.head?_nil])
      (Function.update_self ..) (fun y hy => by cases hy)
      fun a hanew hae _ => by
        simp only [list', Function.update_of_ne hae, Function.update_of_ne hanew]
    exact ⟨list', hrun, hlinked, hitems, rfl⟩
  | cons y ys =>
    have hy : y ∈ xs ++ e :: y :: ys :=
      List.mem_append_right _ (List.mem_cons_of_mem _ List.mem_cons_self)
    obtain ⟨next, hnext⟩ := h.exists_node hy
    have hynew : y ≠ list.unused := fun he => hnew (he ▸ hy)
    have hey : e ≠ y := fun he => heys (he ▸ List.mem_cons_self)
    let list' : CallbackDList :=
      { list with
        size := list.size + 1
        nodes := Function.update (Function.update (Function.update list.nodes list.unused
          (some ⟨data, some e, some y⟩)) y (some { next with prev := some list.unused })) e
          (some ⟨item, xs.getLast?, some list.unused⟩)
        unused := list.unused + 1 }
    have hrun : list.insertNext (some e) data = some (true, list') := by
      simp only [CallbackDList.insertNext, if_neg hsize, hnode, Option.bind_eq_bind,
        Option.bind_some, List.head?_cons, alloc, modify, Function.update_of_ne hne,
        Function.update_of_ne hynew, hnext, Function.update_of_ne hey, Option.map_some]
      rfl
    obtain ⟨hlinked, hitems⟩ := h.insertAfter list' data hnew rfl rfl
      (if_neg (List.cons_ne_nil _ _)).symm hbelow hitem
      (by simp only [list', Function.update_of_ne hne.symm, Function.update_of_ne hynew.symm,
        Function.update_self, List.head?_cons])
      (Function.update_self ..)
      (fun y' hy' => by
        obtain rfl : y = y' := Option.some.inj hy'
        simp only [list', Function.update_of_ne hey.symm, Function.update_self, hnext,
          Option.map_some])
      fun a hanew hae hay => by
        have hne : a ≠ y := fun he => hay (he ▸ rfl)
        simp only [list', Function.update_of_ne hae, Function.update_of_ne hne,
          Function.update_of_ne hanew]
    exact ⟨list', hrun, hlinked, hitems, rfl⟩

/-- Without an element a list that is not empty takes nothing in. -/
theorem Linked.insertNext_null (h : list.Linked l) (hne : l ≠ []) :
    list.insertNext none data = some (false, list) := by
  rw [CallbackDList.insertNext, if_neg (mt h.size_eq_zero.mp hne)]

/-- Behind a node that was freed there is no insertion. -/
theorem Linked.insertNext_freed (h : list.Linked l) (hne : l ≠ []) (he : e ∉ l) :
    list.insertNext (some e) data = none := by
  rw [CallbackDList.insertNext, if_neg (mt h.size_eq_zero.mp hne)]
  simp only [h.nodes_eq_none he, Option.bind_eq_bind, Option.bind_none]

/-! ### Removal -/

/-- The chain after `e` was taken out: of the others only its neighbours are written, and
each only in the link that led to `e`. -/
theorem Linked.unlink (h : list.Linked (xs ++ e :: ys)) (list' : CallbackDList)
    (hsize : list'.size = list.size - 1) (hhead : list'.head = (xs ++ ys).head?)
    (htail : list'.tail = (xs ++ ys).getLast?) (hunused : list'.unused = list.unused)
    (eNode : list'.nodes e = none)
    (xNode : ∀ x ∈ xs.getLast?, list'.nodes x = (list.nodes x).map ({ · with next := ys.head? }))
    (yNode : ∀ y ∈ ys.head?, list'.nodes y = (list.nodes y).map ({ · with prev := xs.getLast? }))
    (others : ∀ a, a ≠ e → a ∉ xs.getLast? → a ∉ ys.head? → list'.nodes a = list.nodes a) :
    list'.Linked (xs ++ ys) ∧ list'.itemOf = Function.update list.itemOf e none := by
  have perm : (xs ++ e :: ys).Perm (e :: (xs ++ ys)) := List.perm_middle
  obtain ⟨he, hnodup⟩ := List.nodup_cons.mp (perm.nodup_iff.mp h.nodup)
  have hused {a : Addr} (ha : a ∈ xs ++ ys) : ∃ node, list.nodes a = some node :=
    h.exists_node (perm.mem_iff.mpr (List.mem_cons_of_mem _ ha))
  refine ⟨?_, ?_⟩
  · exact
      { nodup := hnodup
        size := by
          rw [hsize, h.size, perm.length_eq, List.length_cons, Nat.add_sub_cancel]
        head := hhead
        tail := htail
        used := fun a => by
          by_cases hae : a = e
          · simp only [hae, eNode, Option.isSome_none, Bool.false_eq_true, he]
          · have hiff : a ∈ xs ++ ys ↔ (list.nodes a).isSome := by
              rw [h.used, perm.mem_iff, List.mem_cons, or_iff_right hae]
            rw [hiff]
            by_cases hax : a ∈ xs.getLast?
            · rw [xNode a hax, Option.isSome_map]
            · by_cases hay : a ∈ ys.head?
              · rw [yNode a hay, Option.isSome_map]
              · rw [others a hae hax hay]
        links := by
          refine h.links.remove h.nodup ?_ ?_ ?_ ?_
          · intro x hx
            obtain ⟨node, hnode⟩ := hused (List.mem_append_left _ (List.mem_of_mem_getLast? hx))
            simp only [nextOf, xNode x hx, hnode, Option.map_some, Option.bind_some,
              Option.or_none]
          · intro y hy
            obtain ⟨node, hnode⟩ := hused (List.mem_append_right _ (List.mem_of_mem_head? hy))
            simp only [prevOf, yNode y hy, hnode, Option.map_some, Option.bind_some,
              Option.or_none]
          · intro a hae hax
            by_cases hay : a ∈ ys.head?
            · simp only [nextOf, yNode a hay]
              cases list.nodes a <;> rfl
            · simp only [nextOf, others a hae hax hay]
          · intro a hae hay
            by_cases hax : a ∈ xs.getLast?
            · simp only [prevOf, xNode a hax]
              cases list.nodes a <;> rfl
            · simp only [prevOf, others a hae hax hay]
        below := fun a ha => by
          rw [hunused]
          exact h.below a (perm.mem_iff.mpr (List.mem_cons_of_mem _ ha)) }
  · funext a
    rw [Function.update_apply]
    split
    · next hae => rw [hae, itemOf, eNode, Option.map_none]
    · next hae =>
      by_cases hax : a ∈ xs.getLast?
      · simp only [itemOf, xNode a hax, Option.map_map, Function.comp_def]
      · by_cases hay : a ∈ ys.head?
        · simp only [itemOf, yNode a hay, Option.map_map, Function.comp_def]
        · simp only [itemOf, others a hae hax hay]

/-- What `removeCallbackDList` makes of a list in which `e` stands between `xs` and `ys`. -/
def Removes (list : CallbackDList) (xs : List Addr) (e : Addr) (ys : List Addr) : Prop :=
  ∃ item list', list.itemOf e = some item ∧ list.remove (some e) = some (some item, list') ∧
    list'.Linked (xs ++ ys) ∧ list'.itemOf = Function.update list.itemOf e none ∧
    list'.unused = list.unused

theorem Linked.remove_head (h : list.Linked (e :: ys)) : list.Removes [] e ys := by
  have h : list.Linked ([] ++ e :: ys) := h
  obtain ⟨item, hnode⟩ := h.node
  have hitem : list.itemOf e = some item := by rw [itemOf, hnode, Option.map_some]
  have hsize := h.size_ne_zero
  have hhead : list.head = some e := h.head
  have heys : e ∉ ys := (List.nodup_cons.mp h.nodup).1
  cases ys with
  | nil =>
    let list' : CallbackDList :=
      { list with
        size := list.size - 1
        head := none
        tail := none
        nodes := Function.update list.nodes e none }
    have hrun : list.remove (some e) = some (some item, list') := by
      simp only [CallbackDList.remove, if_neg hsize, hnode, hhead, if_true, List.head?_nil,
        Option.bind_eq_bind, Option.bind_some]
      rfl
    obtain ⟨hlinked, hitems⟩ := h.unlink list' rfl rfl rfl rfl
      (Function.update_self ..) (fun x hx => by cases hx) (fun y hy => by cases hy)
      fun a hae _ _ => Function.update_of_ne hae _ _
    exact ⟨item, list', hitem, hrun, hlinked, hitems, rfl⟩
  | cons y ys =>
    obtain ⟨node, hy⟩ := h.exists_node (List.mem_cons_of_mem e List.mem_cons_self)
    have hye : y ≠ e := fun he => heys (he ▸ List.mem_cons_self)
    let list' : CallbackDList :=
      { list with
        size := list.size - 1
        head := some y
        nodes := Function.update (Function.update list.nodes y
          (some { node with prev := none })) e none }
    have hrun : list.remove (some e) = some (some item, list') := by
      simp only [CallbackDList.remove, if_neg hsize, hnode, hhead, if_true, List.head?_cons,
        modify, hy, Option.map_some, Option.bind_eq_bind, Option.bind_some]
      rfl
    obtain ⟨hlinked, hitems⟩ := h.unlink list' rfl rfl
      (by
        show list.tail = _
        rw [h.tail, List.nil_append, List.nil_append, List.getLast?_cons_cons])
      rfl (Function.update_self ..) (fun x hx => by cases hx)
      (fun y' hy' => by
        obtain rfl : y = y' := Option.some.inj hy'
        simp only [list', Function.update_of_ne hye, Function.update_self, hy, Option.map_some,
          List.getLast?_nil])
      fun a hae _ hay => by
        have hne : a ≠ y := fun he => hay (he ▸ rfl)
        simp only [list', Function.update_of_ne hae, Function.update_of_ne hne]
    exact ⟨item, list', hitem, hrun, hlinked, hitems, rfl⟩

/-- An element behind another one is not the head. -/
theorem Linked.head_ne {x : Addr} (h : list.Linked ((xs ++ [x]) ++ e :: ys)) :
    list.head ≠ some e := by
  rw [h.head, List.head?_append]
  intro he
  have hmem : e ∈ (xs ++ [x]).head? := by
    cases hxs : (xs ++ [x]).head? with
    | none => exact absurd (List.head?_eq_none_iff.mp hxs) (by simp)
    | some z => rwa [hxs, Option.some_or] at he
  exact (List.nodup_append.mp h.nodup).2.2 e (List.mem_of_mem_head? hmem) e List.mem_cons_self rfl

/-- The last element, with one before it. -/
theorem Linked.remove_last {x : Addr} (h : list.Linked ((xs ++ [x]) ++ [e])) :
    list.Removes (xs ++ [x]) e [] := by
  obtain ⟨item, hnode⟩ := h.node
  have hitem : list.itemOf e = some item := by rw [itemOf, hnode, Option.map_some]
  have hx : x ∈ xs ++ [x] := List.mem_append_right _ List.mem_cons_self
  obtain ⟨xnode, hxnode⟩ := h.exists_node (List.mem_append_left [e] hx)
  have hxe : x ≠ e := (List.nodup_append.mp h.nodup).2.2 x hx e List.mem_cons_self
  have hlast : (xs ++ [x]).getLast? = some x := List.getLast?_concat
  let list' : CallbackDList :=
    { list with
      size := list.size - 1
      tail := some x
      nodes := Function.update (Function.update list.nodes x
        (some { xnode with next := none })) e none }
  have hrun : list.remove (some e) = some (some item, list') := by
    simp only [CallbackDList.remove, if_neg h.size_ne_zero, hnode, if_neg h.head_ne, hlast,
      List.head?_nil, modify, hxnode, Option.map_some, Option.bind_eq_bind, Option.bind_some]
    rfl
  obtain ⟨hlinked, hitems⟩ := h.unlink list'
    rfl (by
      show list.head = _
      rw [h.head, List.append_nil, List.head?_append]
      cases xs <;> rfl)
    (by rw [List.append_nil, hlast]) rfl (Function.update_self ..)
    (fun x' hx' => by
      rw [hlast] at hx'
      obtain rfl : x = x' := Option.some.inj hx'
      simp only [list', Function.update_of_ne hxe, Function.update_self, hxnode,
        Option.map_some, List.head?_nil])
    (fun y hy => by cases hy)
    fun a hae hax _ => by
      have hne : a ≠ x := fun he => hax (he ▸ hlast)
      simp only [list', Function.update_of_ne hae, Function.update_of_ne hne]
  exact ⟨item, list', hitem, hrun, hlinked, hitems, rfl⟩

/-- An element between two others. -/
theorem Linked.remove_between {x y : Addr} (h : list.Linked ((xs ++ [x]) ++ e :: y :: ys)) :
    list.Removes (xs ++ [x]) e (y :: ys) := by
  obtain ⟨item, hnode⟩ := h.node
  have hitem : list.itemOf e = some item := by rw [itemOf, hnode, Option.map_some]
  have hnodup := List.nodup_append.mp h.nodup
  have hx : x ∈ xs ++ [x] := List.mem_append_right _ List.mem_cons_self
  have hymem : y ∈ e :: y :: ys := List.mem_cons_of_mem _ List.mem_cons_self
  obtain ⟨xnode, hxnode⟩ := h.exists_node (List.mem_append_left (e :: y :: ys) hx)
  obtain ⟨ynode, hynode⟩ := h.exists_node (List.mem_append_right (xs ++ [x]) hymem)
  have hxe : x ≠ e := hnodup.2.2 x hx e List.mem_cons_self
  have hye : y ≠ e := fun he =>
    (List.nodup_cons.mp hnodup.2.1).1 (he ▸ List.mem_cons_self)
  have hxy : y ≠ x := fun he => hnodup.2.2 x hx y hymem he.symm
  have hlast : (xs ++ [x]).getLast? = some x := List.getLast?_concat
  let list' : CallbackDList :=
    { list with
      size := list.size - 1
      nodes := Function.update (Function.update (Function.update list.nodes x
        (some { xnode with next := some y })) y (some { ynode with prev := some x })) e none }
  have hrun : list.remove (some e) = some (some item, list') := by
    simp only [CallbackDList.remove, if_neg h.size_ne_zero, hnode, if_neg h.head_ne, hlast,
      List.head?_cons, modify, hxnode, Function.update_of_ne hxy, hynode, Option.map_some,
      Option.bind_eq_bind, Option.bind_some]
    rfl
  obtain ⟨hlinked, hitems⟩ := h.unlink list'
    rfl (by
      show list.head = _
      rw [h.head, List.head?_append, List.head?_append]
      cases xs <;> rfl)
    (by
      show list.tail = _
      simp only [h.tail, List.getLast?_append, List.getLast?_cons_cons])
    rfl (Function.update_self ..)
    (fun x' hx' => by
      rw [hlast] at hx'
      obtain rfl : x = x' := Option.some.inj hx'
      simp only [list', Function.update_of_ne hxe, Function.update_of_ne hxy.symm,
        Function.update_self, hxnode, Option.map_some, List.head?_cons])
    (fun y' hy' => by
      obtain rfl : y = y' := Option.some.inj hy'
      simp only [list', Function.update_of_ne hye, Function.update_self, hynode,
        Option.map_some, hlast])
    fun a hae hax hay => by
      have hnex : a ≠ x := fun he => hax (he ▸ hlast)
      have hney : a ≠ y := fun he => hay (he ▸ rfl)
      simp only [list', Function.update_of_ne hae, Function.update_of_ne hnex,
        Function.update_of_ne hney]
  exact ⟨item, list', hitem, hrun, hlinked, hitems, rfl⟩

/-- An element of the list is taken out, and its item answered. -/
theorem Linked.remove (h : list.Linked (xs ++ e :: ys)) : list.Removes xs e ys := by
  rcases List.eq_nil_or_concat xs with rfl | ⟨xs, x, rfl⟩
  · exact Linked.remove_head h
  · rw [List.concat_eq_append] at *
    cases ys with
    | nil => exact h.remove_last
    | cons y ys => exact h.remove_between

/-- Nothing is taken out of an empty list, whatever the pointer. -/
theorem Linked.remove_empty (h : list.Linked []) (element : Option Addr) :
    list.remove element = some (none, list) := by
  cases element with
  | none => rfl
  | some e => rw [CallbackDList.remove, if_pos (h.size_eq_zero.mpr rfl)]

/-- A node that was freed cannot be taken out of a list that is not empty. -/
theorem Linked.remove_freed (h : list.Linked l) (hne : l ≠ []) (he : e ∉ l) :
    list.remove (some e) = none := by
  rw [CallbackDList.remove, if_neg (mt h.size_eq_zero.mp hne)]
  simp only [h.nodes_eq_none he, Option.bind_eq_bind, Option.bind_none]

/-! ### Search -/

/-- Along a piece of the list the loops of the search find an element of it or nothing. -/
theorem Linked.seek_ends {link : CallbackDListItem → Option Addr} {nickname : CStr} {fuel : Nat}
    (h : list.Linked l) (path : List Addr) (hpath : ∀ a ∈ path, a ∈ l)
    (hlink : ∀ xs a ys node, path = xs ++ a :: ys → list.nodes a = some node →
      link node = ys.head?) (hfuel : path.length ≤ fuel) (hhead : path.head? = some a) :
    ∃ r, list.seek link nickname fuel a = some r ∧ ∀ b ∈ r, b ∈ l := by
  induction path generalizing fuel a with
  | nil => cases hhead
  | cons b path ih =>
    obtain rfl : b = a := Option.some.inj hhead
    obtain ⟨fuel, rfl⟩ : ∃ k, fuel = k + 1 :=
      ⟨fuel - 1, by rw [List.length_cons] at hfuel; omega⟩
    have hb : b ∈ l := hpath b List.mem_cons_self
    obtain ⟨node, hnode⟩ := h.exists_node hb
    have hnext : link node = path.head? := hlink [] b path node rfl hnode
    simp only [seek, hnode, Option.bind_eq_bind, Option.bind_some, hnext]
    split
    · exact ⟨some b, rfl, fun c hc => Option.some.inj hc ▸ hb⟩
    · cases hp : path.head? with
      | none => exact ⟨none, rfl, fun c hc => by cases hc⟩
      | some c =>
        refine ih (fun d hd => hpath d (List.mem_cons_of_mem _ hd)) (fun xs d ys node he => ?_)
          (by rw [List.length_cons] at hfuel; omega) hp
        exact hlink (b :: xs) d ys node (by rw [he, List.cons_append])

/-- The elements of a list are fewer than the addresses used so far. -/
theorem Linked.length_le (h : list.Linked l) : l.length ≤ list.unused := by
  have hsub : l ⊆ List.range list.unused := fun a ha => List.mem_range.mpr (h.below a ha)
  simpa only [List.length_range] using h.nodup.length_le_of_subset hsub

/-- A search from an element of the list ends, and finds an element of the list or
nothing. -/
theorem Linked.searchNickname (h : list.Linked l) (he : e ∈ l) (nickname : CStr) :
    ∃ r, list.searchNickname (some e) (some nickname) = some r ∧ ∀ a ∈ r, a ∈ l := by
  obtain ⟨xs, ys, rfl⟩ := List.append_of_mem he
  obtain ⟨item, hnode⟩ := h.node
  have hne : xs ++ e :: ys ≠ [] := List.append_ne_nil_of_right_ne_nil _ (List.cons_ne_nil _ _)
  have hsome : ¬ (list.head = none ∨ list.tail = none ∨ list.size = 0) := by
    rw [h.head, h.tail, h.size_eq_zero, List.head?_eq_none_iff, List.getLast?_eq_none_iff]
    simp only [hne, or_self, not_false_eq_true]
  have hlen := h.length_le
  rw [List.length_append, List.length_cons] at hlen
  simp only [CallbackDList.searchNickname, if_neg hsome, hnode, Option.bind_eq_bind,
    Option.bind_some]
  split
  · -- from the tail backwards
    refine h.seek_ends (e :: xs.reverse) (fun a ha => ?_)
      (fun us a vs node hpath ha => ?_) ?_ rfl
    · rcases List.mem_cons.mp ha with rfl | ha
      · exact he
      · exact List.mem_append_left _ (List.mem_reverse.mp ha)
    · have hback : xs ++ [e] = vs.reverse ++ a :: us.reverse := by
        have := congrArg List.reverse hpath
        simpa only [List.reverse_cons, List.reverse_reverse, List.reverse_append,
          List.append_assoc, List.singleton_append] using this
      have hsplit : xs ++ e :: ys = vs.reverse ++ a :: (us.reverse ++ ys) := by
        have := congrArg (· ++ ys) hback
        simpa only [List.append_assoc, List.singleton_append, List.cons_append, List.nil_append]
          using this
      obtain ⟨item', hnode'⟩ := (hsplit ▸ h).node
      rw [ha] at hnode'
      rw [Option.some.inj hnode', List.getLast?_reverse]
    · rw [List.length_cons, List.length_reverse]
      omega
  · refine h.seek_ends (e :: ys) (fun a ha => List.mem_append_right _ ha)
      (fun us a vs node hpath ha => ?_) ?_ rfl
    · have hsplit : xs ++ e :: ys = (xs ++ us) ++ a :: vs := by rw [hpath, List.append_assoc]
      obtain ⟨item', hnode'⟩ := (hsplit ▸ h).node
      rw [ha] at hnode'
      rw [Option.some.inj hnode']
    · rw [List.length_cons]
      omega

/-- In an empty list, and from no element, nothing is found. -/
theorem Linked.searchNickname_none (h : list.Linked l) {element : Option Addr}
    (hnone : l = [] ∨ element = none) (nickname : Option CStr) :
    list.searchNickname element nickname = some none := by
  unfold CallbackDList.searchNickname
  split
  · rfl
  · next hsome =>
    rcases hnone with rfl | rfl
    · exact absurd (.inr (.inr (h.size_eq_zero.mpr rfl))) hsome
    · rfl

end Linked

end CallbackDList

end Ebotula
