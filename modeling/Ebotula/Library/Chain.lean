import Mathlib.Data.List.Nodup
import Mathlib.Data.Option.Basic

/-!
# Doubly linked chains

Cells over any type of addresses, each with a link back and a link forward. `Seg` says
that a list of addresses is linked up in both directions between two given ends, and
`seg_append` cuts such a segment anywhere. A change of links is then checked on the
pieces it leaves alone (`Seg.congr`) and on the few cells it writes.
-/

set_option autoImplicit false

namespace Ebotula.Library

variable {α : Type} {prev next prev' next' : α → Option α} {p n : Option α} {l xs ys : List α}
  {a e new : α}

/-- The addresses are linked in their order, with `p` before the first and `n` behind the
last. -/
def Seg (prev next : α → Option α) : Option α → List α → Option α → Prop
  | _, [], _ => True
  | p, a :: l, n => prev a = p ∧ next a = l.head?.or n ∧ Seg prev next (some a) l n

/-- A segment is two segments that meet. -/
theorem seg_append : Seg prev next p (xs ++ ys) n ↔
    Seg prev next p xs (ys.head?.or n) ∧ Seg prev next (xs.getLast?.or p) ys n := by
  induction xs generalizing p with
  | nil => simp only [List.nil_append, Seg, List.getLast?_nil, Option.none_or, true_and]
  | cons a xs ih =>
    have hlast : (a :: xs).getLast?.or p = xs.getLast?.or (some a) := by
      rw [List.getLast?_cons]
      cases xs.getLast? <;> rfl
    rw [List.cons_append, Seg, Seg, ih, hlast, List.head?_append, Option.or_assoc, and_assoc,
      and_assoc]

/-- Links of other cells do not matter. -/
theorem Seg.congr (h : Seg prev next p l n) (hp : ∀ a ∈ l, prev' a = prev a)
    (hn : ∀ a ∈ l, next' a = next a) : Seg prev' next' p l n := by
  induction l generalizing p with
  | nil => trivial
  | cons a l ih =>
    obtain ⟨hprev, hnext, hrest⟩ := h
    refine ⟨(hp a List.mem_cons_self).trans hprev, (hn a List.mem_cons_self).trans hnext, ?_⟩
    exact ih hrest (fun b hb => hp b (List.mem_cons_of_mem _ hb)) fun b hb =>
      hn b (List.mem_cons_of_mem _ hb)

/-- The links of one cell of a segment. -/
theorem Seg.links (h : Seg prev next p (xs ++ a :: ys) n) :
    prev a = xs.getLast?.or p ∧ next a = ys.head?.or n := by
  obtain ⟨-, hprev, hnext, -⟩ := seg_append.mp h
  exact ⟨hprev, hnext⟩

/-- What has to be written to link a new cell in behind `e`: the new cell, the forward
link of `e`, and the backward link of the cell behind it. -/
theorem Seg.insertAfter (h : Seg prev next p (xs ++ e :: ys) n) (hd : (xs ++ e :: ys).Nodup)
    (hnew : new ∉ xs ++ e :: ys) (hpnew : prev' new = some e) (hnnew : next' new = ys.head?.or n)
    (hne : next' e = some new) (hpy : ∀ y ∈ ys.head?, prev' y = some new)
    (hn : ∀ a, a ≠ new → a ≠ e → next' a = next a)
    (hp : ∀ a, a ≠ new → a ∉ ys.head? → prev' a = prev a) :
    Seg prev' next' p (xs ++ e :: new :: ys) n := by
  obtain ⟨hxs, hprev, -, hys⟩ := seg_append.mp h
  have hdx := List.nodup_append.mp hd
  obtain ⟨heys, hdys⟩ := List.nodup_cons.mp hdx.2.1
  have hne' {a : α} (ha : a ∈ xs ++ e :: ys) : a ≠ new := fun he => hnew (he ▸ ha)
  have hnotHead {a : α} (ha : a ∈ xs ++ [e]) : a ∉ ys.head? := by
    intro hy
    have hmem : a ∈ ys := List.mem_of_mem_head? hy
    rcases List.mem_append.mp ha with ha | ha
    · exact hdx.2.2 a ha a (List.mem_cons_of_mem _ hmem) rfl
    · exact heys (List.mem_singleton.mp ha ▸ hmem)
  refine seg_append.mpr ⟨?_, ?_, hne, hpnew, hnnew, ?_⟩
  · -- the cells before `e` keep their links
    refine Seg.congr hxs (fun a ha => ?_) fun a ha => ?_
    · exact hp a (hne' (List.mem_append_left _ ha)) (hnotHead (List.mem_append_left _ ha))
    · exact hn a (hne' (List.mem_append_left _ ha)) fun he =>
        hdx.2.2 a ha e List.mem_cons_self he
  · rw [hp e (hne' (List.mem_append_right _ List.mem_cons_self))
      (hnotHead (List.mem_append_right _ List.mem_cons_self)), hprev]
  · -- of those behind it only the first changes
    cases ys with
    | nil => trivial
    | cons y ys =>
      obtain ⟨-, hnext, hrest⟩ := hys
      have hmem {a : α} (ha : a ∈ y :: ys) : a ∈ xs ++ e :: y :: ys :=
        List.mem_append_right _ (List.mem_cons_of_mem _ ha)
      have hnext' {a : α} (ha : a ∈ y :: ys) : next' a = next a :=
        hn a (hne' (hmem ha)) fun he => heys (he ▸ ha)
      refine ⟨hpy y rfl, (hnext' List.mem_cons_self).trans hnext, ?_⟩
      refine Seg.congr hrest (fun a ha => ?_) fun a ha => hnext' (List.mem_cons_of_mem _ ha)
      refine hp a (hne' (hmem (List.mem_cons_of_mem _ ha))) fun hy => ?_
      obtain rfl : y = a := Option.some.inj hy
      exact (List.nodup_cons.mp hdys).1 ha

/-- What has to be written to take a cell out: the links of its neighbours. -/
theorem Seg.remove (h : Seg prev next p (xs ++ e :: ys) n) (hd : (xs ++ e :: ys).Nodup)
    (hnx : ∀ x ∈ xs.getLast?, next' x = ys.head?.or n)
    (hpy : ∀ y ∈ ys.head?, prev' y = xs.getLast?.or p)
    (hn : ∀ a, a ≠ e → a ∉ xs.getLast? → next' a = next a)
    (hp : ∀ a, a ≠ e → a ∉ ys.head? → prev' a = prev a) : Seg prev' next' p (xs ++ ys) n := by
  obtain ⟨hxs, -, -, hys⟩ := seg_append.mp h
  have hdx := List.nodup_append.mp hd
  obtain ⟨heys, hdys⟩ := List.nodup_cons.mp hdx.2.1
  have hxe {a : α} (ha : a ∈ xs) : a ≠ e := fun he => hdx.2.2 a ha e List.mem_cons_self he
  have hye {a : α} (ha : a ∈ ys) : a ≠ e := fun he => heys (he ▸ ha)
  have hxy {a : α} (ha : a ∈ xs) (hb : a ∈ ys) : False :=
    hdx.2.2 a ha a (List.mem_cons_of_mem _ hb) rfl
  refine seg_append.mpr ⟨?_, ?_⟩
  · -- of the cells before it only the last changes
    rcases List.eq_nil_or_concat xs with rfl | ⟨xs, x, rfl⟩
    · trivial
    · rw [List.concat_eq_append] at *
      obtain ⟨hrest, hprev, -, -⟩ := seg_append.mp hxs
      have hlast : x ∈ (xs ++ [x]).getLast? := List.getLast?_concat
      have hx : x ∈ xs ++ [x] := List.mem_append_right _ List.mem_cons_self
      have hprev' {a : α} (ha : a ∈ xs ++ [x]) : prev' a = prev a :=
        hp a (hxe ha) fun hy => hxy ha (List.mem_of_mem_head? hy)
      refine seg_append.mpr ⟨?_, (hprev' hx).trans hprev, hnx x hlast, trivial⟩
      refine Seg.congr hrest (fun a ha => hprev' (List.mem_append_left _ ha)) fun a ha => ?_
      refine hn a (hxe (List.mem_append_left _ ha)) fun he => ?_
      rw [List.getLast?_concat] at he
      obtain rfl : x = a := Option.some.inj he
      exact (List.nodup_append.mp hdx.1).2.2 x ha x List.mem_cons_self rfl
  · cases ys with
    | nil => trivial
    | cons y ys =>
      obtain ⟨-, hnext, hrest⟩ := hys
      have hnext' {a : α} (ha : a ∈ y :: ys) : next' a = next a :=
        hn a (hye ha) fun hx => hxy (List.mem_of_mem_getLast? hx) ha
      refine ⟨hpy y rfl, (hnext' List.mem_cons_self).trans hnext, ?_⟩
      refine Seg.congr hrest (fun a ha => ?_) fun a ha => hnext' (List.mem_cons_of_mem _ ha)
      refine hp a (hye (List.mem_cons_of_mem _ ha)) fun hy => ?_
      obtain rfl : y = a := Option.some.inj hy
      exact (List.nodup_cons.mp hdys).1 ha

/-- Another cell in front of a segment: only the link back of its first cell is written. -/
theorem Seg.relinkFirst (h : Seg prev next p l n) (hd : l.Nodup) {q : Option α}
    (hn : ∀ a ∈ l, next' a = next a) (hfirst : ∀ a ∈ l.head?, prev' a = q)
    (hp : ∀ a ∈ l, a ∉ l.head? → prev' a = prev a) : Seg prev' next' q l n := by
  cases l with
  | nil => trivial
  | cons a l =>
    obtain ⟨-, hnext, hrest⟩ := h
    refine ⟨hfirst a rfl, (hn a List.mem_cons_self).trans hnext, ?_⟩
    refine hrest.congr (fun b hb => ?_) fun b hb => hn b (List.mem_cons_of_mem _ hb)
    refine hp b (List.mem_cons_of_mem _ hb) fun hab => ?_
    obtain rfl : a = b := Option.some.inj hab
    exact (List.nodup_cons.mp hd).1 hb

/-- A segment read from its other end. -/
theorem Seg.reverse (h : Seg prev next p l n) : Seg next prev n l.reverse p := by
  induction l generalizing p with
  | nil => trivial
  | cons a l ih =>
    obtain ⟨hprev, hnext, hrest⟩ := h
    rw [List.reverse_cons]
    refine seg_append.mpr ⟨ih hrest, ?_, hprev, trivial⟩
    rw [hnext, List.getLast?_reverse]

/-- Another cell behind a segment: only the link forward of its last cell is written. -/
theorem Seg.relinkLast (h : Seg prev next p l n) (hd : l.Nodup) {q : Option α}
    (hp : ∀ a ∈ l, prev' a = prev a) (hlast : ∀ a ∈ l.getLast?, next' a = q)
    (hn : ∀ a ∈ l, a ∉ l.getLast? → next' a = next a) : Seg prev' next' p l q := by
  rw [← List.reverse_reverse l]
  have hrev := h.reverse
  refine (hrev.relinkFirst (List.nodup_reverse.mpr hd) ?_ ?_ ?_).reverse
  · exact fun a ha => hp a (List.mem_reverse.mp ha)
  · rw [List.head?_reverse]
    exact hlast
  · rw [List.head?_reverse]
    exact fun a ha => hn a (List.mem_reverse.mp ha)

/-- The cells that a link leads to from `p`, until it leads to `stop`. -/
def walk [DecidableEq α] (link : α → Option α) (stop : Option α) :
    (fuel : Nat) → Option α → Option (List α)
  | 0, _ => none
  | fuel + 1, p =>
    if p = stop then some []
    else p.bind fun a => (walk link stop fuel (link a)).map (a :: ·)

/-- Along the forward links a walk meets the cells of a segment, up to its end. -/
theorem Seg.walk_next [DecidableEq α] (h : Seg prev next p l n) (hstop : ∀ a ∈ l, some a ≠ n)
    {fuel : Nat} (hfuel : l.length < fuel) : walk next n fuel (l.head?.or n) = some l := by
  induction l generalizing p fuel with
  | nil =>
    obtain ⟨fuel, rfl⟩ := Nat.exists_eq_add_one_of_ne_zero (Nat.ne_of_gt hfuel)
    exact if_pos rfl
  | cons a l ih =>
    obtain ⟨fuel, rfl⟩ := Nat.exists_eq_add_one_of_ne_zero (Nat.ne_of_gt (Nat.zero_lt_of_lt hfuel))
    obtain ⟨-, hnext, hrest⟩ := h
    have hwalk := ih hrest (fun b hb => hstop b (List.mem_cons_of_mem _ hb))
      (Nat.lt_of_succ_lt_succ hfuel)
    rw [List.head?_cons, Option.some_or, walk, if_neg (hstop a List.mem_cons_self),
      Option.bind_some, hnext, hwalk, Option.map_some]

/-- Along the links back it meets them in the opposite order. -/
theorem Seg.walk_prev [DecidableEq α] (h : Seg prev next p l n) (hstop : ∀ a ∈ l, some a ≠ p)
    {fuel : Nat} (hfuel : l.length < fuel) :
    walk prev p fuel (l.getLast?.or p) = some l.reverse := by
  rw [← List.head?_reverse]
  refine h.reverse.walk_next (fun a ha => hstop a (List.mem_reverse.mp ha)) ?_
  rwa [List.length_reverse]

/-- The addresses that the forward links lead to from a first one. -/
inductive Reaches (next : α → Option α) (head : Option α) : α → Prop
  | head {a : α} : head = some a → Reaches next head a
  | next {a b : α} : Reaches next head a → next a = some b → Reaches next head b

theorem Reaches.trans (h : Reaches next p a) {b : α} (h' : Reaches next (next a) b) :
    Reaches next p b := by
  induction h' with
  | head he => exact .next h he
  | next _ he ih => exact .next ih he

/-- A cell without a link forward leads to itself alone. -/
theorem Reaches.eq_of_last (h : Reaches next p a) (hp : p = some e) (hlast : next e = none) :
    a = e := by
  induction h with
  | head he => exact Option.some.inj (he.symm.trans hp)
  | next _ he ih =>
    rw [ih, hlast] at he
    cases he

/-- From the head of a segment that ends nowhere, the links lead to its cells and to no
others. -/
theorem Seg.reaches_iff (h : Seg prev next p l none) : Reaches next l.head? a ↔ a ∈ l := by
  constructor
  · intro hr
    induction hr with
    | head he => exact List.mem_of_mem_head? he
    | next _ he ih =>
      obtain ⟨xs, ys, rfl⟩ := List.append_of_mem ih
      rw [h.links.2, Option.or_none] at he
      exact List.mem_append_right _ (List.mem_cons_of_mem _ (List.mem_of_mem_head? he))
  · intro ha
    induction l generalizing p with
    | nil => cases ha
    | cons b l ih =>
      have hb : Reaches next (b :: l).head? b := .head rfl
      rcases List.mem_cons.mp ha with rfl | ha
      · exact hb
      · refine hb.trans ?_
        rw [h.2.1, Option.or_none]
        exact ih h.2.2 ha

end Ebotula.Library
