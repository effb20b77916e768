import Mathlib.Data.List.Basic

/-!
# Queues with keys

One list in which every item has a key: an item is put behind all others, and the first item
of a key is taken out. The items of each key then leave in the order they came in, as if each
key had a queue of its own (`taken_append_pending`), and those of the other keys keep their
order.
-/

set_option autoImplicit false

namespace Ebotula.Library

variable {α κ : Type} [DecidableEq κ]

/-- What is done to a queue. -/
inductive QueueEvent (α κ : Type)
  | put (item : α)
  | take (k : κ)

namespace KeyedQueue

variable (key : α → κ)

/-- The first item of a key. -/
def first (k : κ) (q : List α) : Option α := q.find? fun item => key item = k

/-- The queue without the first item of a key. -/
def drop (k : κ) (q : List α) : List α := q.eraseP fun item => key item = k

/-- The items of a key, in their order. -/
def ofKey (k : κ) (q : List α) : List α := q.filter fun item => key item = k

/-- The queue after one event. -/
def next (q : List α) : QueueEvent α κ → List α
  | .put item => q ++ [item]
  | .take k => drop key k q

/-- The queue after the events. -/
def after (q : List α) (es : List (QueueEvent α κ)) : List α := es.foldl (next key) q

/-- The items put in. -/
def put : List (QueueEvent α κ) → List α
  | [] => []
  | .put item :: es => item :: put es
  | .take _ :: es => put es

/-- The items of a key that are taken out, in their order. -/
def taken (k : κ) : List α → List (QueueEvent α κ) → List α
  | _, [] => []
  | q, .put item :: es => taken k (q ++ [item]) es
  | q, .take k' :: es =>
    (if k' = k then (first key k q).toList else []) ++ taken k (drop key k' q) es

variable {key} {k k' : κ} {q : List α}

theorem ofKey_append (q q' : List α) : ofKey key k (q ++ q') = ofKey key k q ++ ofKey key k q' :=
  List.filter_append ..

/-- Nothing is found exactly where no item has the key. -/
theorem first_eq_none_iff : first key k q = none ↔ ∀ item ∈ q, key item ≠ k := by
  simp only [first, List.find?_eq_none, decide_eq_true_eq, ne_eq]

theorem drop_of_first_eq_none (h : first key k q = none) : drop key k q = q :=
  List.eraseP_of_forall_not fun item hitem => by
    rw [decide_eq_true_eq]
    exact first_eq_none_iff.mp h item hitem

/-- The first item of a key heads the queue of the key. -/
theorem first_append_drop (k : κ) (q : List α) :
    (first key k q).toList ++ ofKey key k (drop key k q) = ofKey key k q := by
  induction q with
  | nil => rfl
  | cons item q ih =>
    rw [first, drop, ofKey, ofKey, List.find?_cons, List.eraseP_cons, List.filter_cons] at *
    by_cases h : key item = k
    · simp only [h, decide_true, if_true, Option.toList_some, List.singleton_append, cond_true]
    · simp only [h, decide_false, Bool.false_eq_true, if_false, List.filter_cons, cond_false]
      exact ih

/-- The items of all other keys stay in their order. -/
theorem filter_drop_of_ne (k : κ) (q : List α) {p : α → Bool} (hp : ∀ item, p item → key item ≠ k) :
    (drop key k q).filter p = q.filter p := by
  induction q with
  | nil => rfl
  | cons item q ih =>
    rw [drop, List.eraseP_cons]
    by_cases h : key item = k
    · rw [decide_eq_true h, cond_true, List.filter_cons, if_neg fun hitem => hp item hitem h]
    · rw [decide_eq_false h, cond_false, List.filter_cons, List.filter_cons]
      exact if_congr Iff.rfl (congrArg (item :: ·) ih) ih

theorem ofKey_drop_of_ne (h : k' ≠ k) (q : List α) :
    ofKey key k (drop key k' q) = ofKey key k q :=
  filter_drop_of_ne k' q fun _ hitem => (of_decide_eq_true hitem).trans_ne h.symm

/-- What was taken for a key, followed by what is still there for it, is what was put in for
it, in the same order. -/
theorem taken_append_pending (k : κ) (q : List α) (es : List (QueueEvent α κ)) :
    taken key k q es ++ ofKey key k (after key q es) = ofKey key k (q ++ put es) := by
  induction es generalizing q with
  | nil => rw [put, List.append_nil]; rfl
  | cons e es ih =>
    rw [after, List.foldl_cons, ← after]
    cases e with
    | put item =>
      rw [taken, next, ih, put, List.append_assoc, List.singleton_append]
    | take k' =>
      rw [taken, next, List.append_assoc, ih, put, ofKey_append, ofKey_append, ← List.append_assoc]
      congr 1
      by_cases h : k' = k
      · subst h
        rw [if_pos rfl, first_append_drop]
      · rw [if_neg h, List.nil_append, ofKey_drop_of_ne h]

end KeyedQueue

end Ebotula.Library
