import Mathlib.Data.List.Nodup
import Mathlib.Logic.Function.Basic

/-!
# Keyed tables and mutually inverse tables

`Table` is what a persistent key/value library promises of one file: a finite map
with fetch, store and delete, whose keys can be listed in some order, each once.
The order is left open, so a law proved of any `Table` holds of every order.
`Assoc` is a table that computes, for evaluating a model on concrete contents. `Drops` says
of the maps before and after a removal which keys went.

The second half is about a relation kept as two tables, one reading forwards and one
backwards. `Paired.Inverse` says they are the graph of one partial injection;
`Paired.Backed` is the half of it that survives when only one of the two writes of an
update takes effect. Each comes with the updates that keep it.
-/

set_option autoImplicit false

namespace Ebotula.Library

/-! ## Tables -/

/-- A finite map kept by a library: only its answers are known. -/
class Table (T : Type) (K V : outParam Type) where
  empty : T
  fetch : T → K → Option V
  store : T → K → V → T
  delete : T → K → T
  keys : T → List K
  fetch_empty : ∀ k, fetch empty k = none
  fetch_store_self : ∀ t k v, fetch (store t k v) k = some v
  fetch_store_ne : ∀ t k v k', k' ≠ k → fetch (store t k v) k' = fetch t k'
  fetch_delete_self : ∀ t k, fetch (delete t k) k = none
  fetch_delete_ne : ∀ t k k', k' ≠ k → fetch (delete t k) k' = fetch t k'
  mem_keys : ∀ t k, k ∈ keys t ↔ (fetch t k).isSome
  nodup_keys : ∀ t, (keys t).Nodup

namespace Table

variable {T K V : Type} [Table T K V]

theorem fetch_store [DecidableEq K] (t : T) (k : K) (v : V) :
    fetch (store t k v) = Function.update (fetch t) k (some v) := by
  funext k'
  by_cases h : k' = k
  · subst h
    rw [fetch_store_self, Function.update_self]
  · rw [fetch_store_ne t k v k' h, Function.update_of_ne h]

theorem fetch_delete [DecidableEq K] (t : T) (k : K) :
    fetch (delete t k) = Function.update (fetch t) k none := by
  funext k'
  by_cases h : k' = k
  · subst h
    rw [fetch_delete_self, Function.update_self]
  · rw [fetch_delete_ne t k k' h, Function.update_of_ne h]

/-- A table lists no key exactly when it maps no key. -/
theorem keys_eq_nil_iff (t : T) : keys t = [] ↔ ∀ k, fetch t k = none := by
  rw [List.eq_nil_iff_forall_not_mem]
  simp only [mem_keys, Option.not_isSome_iff_eq_none]

end Table

/-- A table that computes: its entries in order of insertion, no key twice. -/
structure Assoc (K V : Type) where
  entries : List (K × V)
  nodup : (entries.map Prod.fst).Nodup

namespace Assoc

variable {K V : Type} [DecidableEq K]

def fetch (t : Assoc K V) (k : K) : Option V :=
  (t.entries.find? (·.1 = k)).map Prod.snd

private def drop (t : Assoc K V) (k : K) : List (K × V) :=
  t.entries.filter (·.1 ≠ k)

private theorem nodup_drop (t : Assoc K V) (k : K) : ((t.drop k).map Prod.fst).Nodup :=
  t.nodup.sublist (List.Sublist.map _ List.filter_sublist)

private theorem notMem_drop (t : Assoc K V) (k : K) : k ∉ (t.drop k).map Prod.fst := by
  intro h
  obtain ⟨e, he, hk⟩ := List.mem_map.mp h
  rw [drop, List.mem_filter, hk] at he
  exact absurd he.2 (by simp only [ne_eq, not_true_eq_false, decide_false, Bool.false_eq_true,
    not_false_eq_true])

def store (t : Assoc K V) (k : K) (v : V) : Assoc K V :=
  ⟨t.drop k ++ [(k, v)], by
    rw [List.map_append, List.nodup_append]
    refine ⟨t.nodup_drop k, List.nodup_singleton _, ?_⟩
    intro a ha b hb hab
    obtain rfl : b = k := by simpa only [List.map_cons, List.map_nil, List.mem_singleton] using hb
    exact t.notMem_drop b (hab ▸ ha)⟩

def delete (t : Assoc K V) (k : K) : Assoc K V :=
  ⟨t.drop k, t.nodup_drop k⟩

private theorem find?_drop_ne (t : Assoc K V) {k k' : K} (h : k' ≠ k) :
    (t.drop k).find? (·.1 = k') = t.entries.find? (·.1 = k') := by
  rw [drop, List.find?_filter]
  congr 1
  funext e
  by_cases he : e.1 = k'
  · simp only [he, h, ne_eq, not_false_eq_true, decide_true, and_self]
  · simp only [he, decide_false, Bool.false_eq_true, and_false]

private theorem find?_drop_self (t : Assoc K V) (k : K) :
    (t.drop k).find? (·.1 = k) = none := by
  rw [List.find?_eq_none]
  intro e he hk
  exact t.notMem_drop k (List.mem_map.mpr ⟨e, he, by simpa only [decide_eq_true_eq] using hk⟩)

instance : Table (Assoc K V) K V where
  empty := ⟨[], List.nodup_nil⟩
  fetch := fetch
  store := store
  delete := delete
  keys t := t.entries.map Prod.fst
  fetch_empty _ := rfl
  fetch_store_self t k v := by
    simp only [fetch, store, List.find?_append, find?_drop_self, Option.none_or,
      List.find?_cons, decide_true, Option.map_some]
  fetch_store_ne t k v k' h := by
    have hne : decide (k = k') = false := decide_eq_false fun e => h e.symm
    simp only [fetch, store, List.find?_append, t.find?_drop_ne h, List.find?_cons, hne,
      List.find?_nil, Option.or_none]
  fetch_delete_self t k := by
    simp only [fetch, delete, find?_drop_self, Option.map_none]
  fetch_delete_ne t k k' h := by
    simp only [fetch, delete, t.find?_drop_ne h]
  mem_keys t k := by
    simp only [fetch, Option.isSome_map, List.find?_isSome, decide_eq_true_eq, List.mem_map]
  nodup_keys t := t.nodup

end Assoc

/-! ## Dropping keys -/

/-- A map without the keys of a kind. -/
structure Drops {K V : Type} (Gone : K → Prop) (f f' : K → Option V) : Prop where
  gone : ∀ k, Gone k → f' k = none
  kept : ∀ k, ¬ Gone k → f' k = f k

namespace Drops

variable {K V : Type} {Gone Gone' : K → Prop} {f f' f'' : K → Option V} {k : K}

theorem none_or_same (h : Drops Gone f f') (k : K) : f' k = none ∨ f' k = f k := by
  by_cases hk : Gone k
  · exact .inl (h.gone k hk)
  · exact .inr (h.kept k hk)

theorem eq_some_iff {v : V} (h : Drops Gone f f') : f' k = some v ↔ ¬ Gone k ∧ f k = some v := by
  by_cases hk : Gone k
  · rw [h.gone k hk]
    exact iff_of_false nofun fun hv => hv.1 hk
  · rw [h.kept k hk, and_iff_right hk]

theorem of_none (h : Drops Gone f f') (hk : f k = none) : f' k = none :=
  (h.none_or_same k).elim id fun hsame => hsame.trans hk

/-- Which keys are dropped only matters where there are any. -/
theorem congr (h : Drops Gone f f') (hgone : ∀ k v, f k = some v → (Gone k ↔ Gone' k)) :
    Drops Gone' f f' := by
  refine ⟨fun k hk => ?_, fun k hk => ?_⟩
  · cases hv : f k with
    | none => exact h.of_none hv
    | some v => exact h.gone k ((hgone k v hv).mpr hk)
  · cases hv : f k with
    | none => exact h.of_none hv
    | some v => exact (h.kept k (mt (hgone k v hv).mp hk)).trans hv

theorem nothing (h : ∀ k, ¬ Gone k) : Drops Gone f f :=
  ⟨fun k hk => absurd hk (h k), fun _ _ => rfl⟩

theorem update [DecidableEq K] : Drops (· = k) f (Function.update f k none) :=
  ⟨fun k' hk' => by rw [hk', Function.update_self], fun _ hk' => Function.update_of_ne hk' _ _⟩

/-- Dropping some keys and then others. -/
theorem trans (h : Drops Gone f f') (h' : Drops Gone' f' f'') :
    Drops (fun k => Gone k ∨ Gone' k) f f'' := by
  refine ⟨fun k hk => ?_, fun k hk => ?_⟩
  · rcases h'.none_or_same k with hnone | hsame
    · exact hnone
    · rcases hk with hk | hk
      · rw [hsame, h.gone k hk]
      · exact h'.gone k hk
  · rw [not_or] at hk
    rw [h'.kept k hk.2, h.kept k hk.1]

end Drops

/-! ## Two tables that invert each other -/

/-- A pair of partial functions, one for each direction of a relation. -/
@[ext] structure Paired (α β : Type) where
  fwd : α → Option β
  bwd : β → Option α

namespace Paired

variable {α β : Type}

/-- The two directions are one relation. -/
def Inverse (p : Paired α β) : Prop := ∀ a b, p.fwd a = some b ↔ p.bwd b = some a

/-- Every entry backwards is an entry forwards. -/
def Backed (p : Paired α β) : Prop := ∀ a b, p.bwd b = some a → p.fwd a = some b

variable {p : Paired α β}

theorem Inverse.backed (h : p.Inverse) : p.Backed := fun a b => (h a b).mpr

theorem Inverse.of_empty (hf : ∀ a, p.fwd a = none) (hg : ∀ b, p.bwd b = none) : p.Inverse := by
  intro a b
  rw [hf, hg]
  exact iff_of_false (Option.some_ne_none b).symm (Option.some_ne_none a).symm

/-- One source for each target. -/
theorem Inverse.source_unique (h : p.Inverse) {a a' : α} {b : β} (ha : p.fwd a = some b)
    (ha' : p.fwd a' = some b) : a = a' :=
  Option.some.inj (((h a b).mp ha).symm.trans ((h a' b).mp ha'))

/-- One target for each source, also when it is read backwards. -/
theorem Backed.target_unique (h : p.Backed) {a : α} {b b' : β} (hb : p.bwd b = some a)
    (hb' : p.bwd b' = some a) : b = b' :=
  Option.some.inj ((h a b hb).symm.trans (h a b' hb'))

variable [DecidableEq α] [DecidableEq β]

/-- Forgetting backwards what `a` leads to. -/
def release (p : Paired α β) (a : α) : β → Option α :=
  match p.fwd a with
  | some b => Function.update p.bwd b none
  | none => p.bwd

/-- Removing `a` with what it leads to. -/
def unbind (p : Paired α β) (a : α) : Paired α β :=
  ⟨Function.update p.fwd a none, p.release a⟩

/-- Leading `a` to a new target, or nowhere new where there is none. The way back is
written only if nobody holds it. -/
def rebind (p : Paired α β) (a : α) (target : Option β) : Paired α β :=
  match target with
  | none => ⟨p.fwd, p.release a⟩
  | some b =>
    ⟨Function.update p.fwd a (some b),
      if (p.release a b).isSome then p.release a
      else Function.update (p.release a) b (some a)⟩

omit [DecidableEq α] in
theorem release_of_none {a : α} (h : p.fwd a = none) : p.release a = p.bwd := by
  rw [release, h]

omit [DecidableEq α] in
theorem release_of_some {a : α} {b : β} (h : p.fwd a = some b) :
    p.release a = Function.update p.bwd b none := by
  rw [release, h]

omit [DecidableEq α] in
theorem release_eq_some {a x : α} {y : β} :
    p.release a y = some x ↔ p.bwd y = some x ∧ p.fwd a ≠ some y := by
  unfold release
  cases p.fwd a with
  | none => simp only [ne_eq, reduceCtorEq, not_false_eq_true, and_true]
  | some b =>
    by_cases h : y = b
    · simp only [h, Function.update_self, reduceCtorEq, ne_eq, not_true_eq_false, and_false]
    · simp only [Function.update_of_ne h, ne_eq, Option.some.injEq, Ne.symm h,
        not_false_eq_true, and_true]

omit [DecidableEq α] in
/-- After the release nothing backwards leads to `a`. -/
theorem Backed.release_ne (h : p.Backed) {a : α} {y : β} : p.release a y ≠ some a := by
  intro hy
  obtain ⟨hbwd, hne⟩ := release_eq_some.mp hy
  exact hne (h a y hbwd)

/-- What leads backwards after a rebinding did so before, or is the new pair. -/
theorem rebind_bwd {a x : α} {target : Option β} {y : β}
    (h : (p.rebind a target).bwd y = some x) :
    p.release a y = some x ∨ target = some y ∧ x = a := by
  cases target with
  | none => exact .inl h
  | some b =>
    simp only [rebind] at h
    split at h
    · exact .inl h
    · rw [Function.update_apply] at h
      split at h
      · next hy => exact .inr ⟨congrArg some hy.symm, (Option.some.inj h).symm⟩
      · exact .inl h

theorem rebind_target (a : α) (b : β) : (p.rebind a (some b)).fwd a = some b :=
  Function.update_self ..

/-- A target that nobody holds leads back after a rebinding. -/
theorem rebind_free {a : α} {b : β} (h : p.bwd b = none) :
    (p.rebind a (some b)).bwd b = some a := by
  have hfree : p.release a b = none :=
    Option.eq_none_iff_forall_ne_some.mpr fun x hx => by
      rw [(release_eq_some.mp hx).1] at h
      cases h
  simp only [rebind, hfree, Option.isSome_none, Bool.false_eq_true, if_false,
    Function.update_self]

theorem Backed.unbind (h : p.Backed) (a : α) : (p.unbind a).Backed := by
  intro x y hxy
  obtain ⟨hbwd, hne⟩ := release_eq_some.mp hxy
  have hx : x ≠ a := by
    rintro rfl
    exact hne (h x y hbwd)
  exact (Function.update_of_ne hx _ _).trans (h x y hbwd)

/-- Backing survives every rebinding, also one whose target somebody else holds. -/
theorem Backed.rebind (h : p.Backed) (a : α) (target : Option β) :
    (p.rebind a target).Backed := by
  intro x y hxy
  rcases rebind_bwd hxy with hrel | ⟨rfl, rfl⟩
  · have hx : x ≠ a := fun e => h.release_ne (e ▸ hrel)
    have hfwd := h x y (release_eq_some.mp hrel).1
    cases target with
    | none => exact hfwd
    | some b => exact (Function.update_of_ne hx _ _).trans hfwd
  · exact Function.update_self ..

theorem Inverse.unbind (h : p.Inverse) (a : α) : (p.unbind a).Inverse := by
  refine fun x y => ⟨fun hxy => ?_, h.backed.unbind a x y⟩
  simp only [Paired.unbind, Function.update_apply] at hxy
  split at hxy
  · cases hxy
  · next hx => exact release_eq_some.mpr ⟨(h x y).mp hxy, fun e => hx (h.source_unique hxy e)⟩

/-- Backed, and only sources of a kind are led to backwards. -/
structure BackedIn (p : Paired α β) (S : α → Prop) : Prop where
  backed : p.Backed
  source : ∀ a b, p.bwd b = some a → S a

omit [DecidableEq α] [DecidableEq β] in
theorem BackedIn.mono {S S' : α → Prop} (h : p.BackedIn S) (hS : ∀ x, S x → S' x) :
    p.BackedIn S' := ⟨h.backed, fun a b hab => hS a (h.source a b hab)⟩

/-- The source that is removed needs not be of the kind any more. -/
theorem BackedIn.unbind {S S' : α → Prop} (h : p.BackedIn S) (a : α)
    (hS : ∀ x, x ≠ a → S x → S' x) : (p.unbind a).BackedIn S' := by
  refine ⟨h.backed.unbind a, fun x y hxy => hS x ?_ ?_⟩
  · rintro rfl
    exact h.backed.release_ne hxy
  · exact h.source x y (release_eq_some.mp hxy).1

/-- The source that is led somewhere has to be of the kind. -/
theorem BackedIn.rebind {S S' : α → Prop} (h : p.BackedIn S) {a : α} (target : Option β)
    (hS : ∀ x, S x → S' x) (ha : S' a) : (p.rebind a target).BackedIn S' := by
  refine ⟨h.backed.rebind a target, fun x y hxy => ?_⟩
  rcases rebind_bwd hxy with hrel | ⟨-, rfl⟩
  · exact hS x (h.source x y (release_eq_some.mp hrel).1)
  · exact ha

/-- Rebinding keeps the inverse if nobody else holds the target, and a rebinding
without a target if there is nothing to release. -/
theorem Inverse.rebind (h : p.Inverse) {a : α} {target : Option β}
    (free : ∀ b, target = some b → ∀ x, p.bwd b = some x → x = a)
    (nowhere : target = none → p.fwd a = none) : (p.rebind a target).Inverse := by
  refine fun x y => ⟨fun hxy => ?_, h.backed.rebind a target x y⟩
  cases target with
  | none => exact release_eq_some.mpr ⟨(h x y).mp hxy, by simp only [nowhere rfl, ne_eq,
      reduceCtorEq, not_false_eq_true]⟩
  | some b =>
    have hfree : p.release a b = none := by
      cases hb : p.release a b with
      | none => rfl
      | some x' =>
        have := free b rfl x' (release_eq_some.mp hb).1
        exact absurd (this ▸ hb) h.backed.release_ne
    simp only [Paired.rebind, hfree, Option.isSome_none, Bool.false_eq_true, if_false,
      Function.update_apply] at hxy ⊢
    by_cases hx : x = a
    · rw [if_pos hx, Option.some.injEq] at hxy
      rw [if_pos hxy.symm, hx]
    · rw [if_neg hx] at hxy
      have hb : y ≠ b := by
        rintro rfl
        exact hx (free y rfl x ((h x y).mp hxy))
      rw [if_neg hb]
      exact release_eq_some.mpr ⟨(h x y).mp hxy, fun e => hx (h.source_unique hxy e)⟩

/-! ### Going over to another target -/

/-- `a` leads to `b` and is the only one that does; the others lead where they did. -/
structure Moved (p p' : Paired α β) (a : α) (b : β) : Prop where
  target : p'.fwd a = some b
  only : ∀ y, p'.bwd y = some a ↔ y = b
  others_fwd : ∀ x, x ≠ a → p'.fwd x = p.fwd x
  others_bwd : ∀ x y, x ≠ a → (p'.bwd y = some x ↔ p.bwd y = some x)

variable {p' : Paired α β} {a : α} {b b' : β}

omit [DecidableEq α] [DecidableEq β] in
/-- Where nothing has changed, it was there before. -/
theorem Inverse.moved_refl (h : p.Inverse) : p.Moved p a b ↔ p.fwd a = some b := by
  refine ⟨Moved.target, fun hab => ⟨hab, fun y => ?_, fun _ _ => rfl, fun _ _ _ => .rfl⟩⟩
  rw [← h a y, hab, Option.some.injEq, eq_comm]

omit [DecidableEq α] [DecidableEq β] in
/-- The old target is free again. -/
theorem Moved.left (h : p.Moved p' a b) {y : β} (hy : p.bwd y = some a) (hne : y ≠ b) :
    p'.bwd y = none := by
  cases hy' : p'.bwd y with
  | none => rfl
  | some x =>
    by_cases hx : x = a
    · exact absurd ((h.only y).mp (hx ▸ hy')) hne
    · exact absurd (Option.some.inj (hy.symm.trans ((h.others_bwd x y hx).mp hy'))) (Ne.symm hx)

/-- Unbinding and rebinding moves, if nobody else holds the new target. -/
theorem Inverse.moved (h : p.Inverse) (free : ∀ x, p.bwd b = some x → x = a) :
    p.Moved ((p.unbind a).rebind a (some b)) a b := by
  have hfree (x : α) (hx : (p.unbind a).bwd b = some x) : x = a :=
    free x (release_eq_some.mp hx).1
  have hrebind : ((p.unbind a).rebind a (some b)).Inverse :=
    (h.unbind a).rebind (fun _ hb x hx => hfree x (Option.some.inj hb ▸ hx)) nofun
  have htarget : ((p.unbind a).rebind a (some b)).fwd a = some b := rebind_target a b
  have hothers (x : α) (hx : x ≠ a) : ((p.unbind a).rebind a (some b)).fwd x = p.fwd x := by
    show Function.update (Function.update p.fwd a none) a (some b) x = p.fwd x
    rw [Function.update_of_ne hx, Function.update_of_ne hx]
  refine ⟨htarget, fun y => ?_, hothers, fun x y hx => ?_⟩
  · rw [← hrebind a y, htarget, Option.some.injEq, eq_comm]
  · rw [← hrebind x y, hothers x hx, h x y]

end Paired

end Ebotula.Library
