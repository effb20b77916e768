import Ebotula.Extract
import Ebotula.Laws.InPlace

/-!
# The argument of a line where the line stands

`getArgument` goes over its line with an index and trims, in the line itself, what stands behind
the blank it has found. If nothing is left it goes on behind the NUL that `trim` has written, over
bytes that were white space before, and trims what is left of them to nothing again. For a line
that an `int` can count, this is the function of the text.
-/

set_option autoImplicit false

namespace Ebotula

open Library

namespace InPlace

/-- From this place on there stands white space, and a NUL behind it. -/
def White (b : Block) : Prop :=
  ∃ t, b.string = some t ∧ t.length < 2 ^ 31 ∧ ∀ c ∈ t, ¬ IsPlain c

section Loop

variable {b : Block} {k i n : Nat} {u t : CStr} {is js : List Nat}

/-- What is read at a place is the first character of the string there, or its NUL. -/
theorem load_drop (h : Block.string (b.drop k) = some t) :
    b.load k = some (t.headD '\x00') := by
  obtain ⟨-, rest, hdrop⟩ := Block.string_eq_some_iff.mp h
  have hget : b[k]? = (b.drop k)[0]? := by rw [List.getElem?_drop, Nat.add_zero]
  rw [Block.load, hget, hdrop]
  cases t <;> rfl

/-- The string at the next place is the rest of the string. -/
theorem string_drop_succ {c : Char} (h : Block.string (b.drop k) = some (c :: t)) :
    Block.string (b.drop (k + 1)) = some t := by
  obtain ⟨hnul, rest, hdrop⟩ := Block.string_eq_some_iff.mp h
  refine Block.string_eq_some_iff.mpr ⟨fun hmem => hnul (List.mem_cons_of_mem _ hmem), rest, ?_⟩
  rw [← List.drop_drop, hdrop]
  rfl

/-- A string at the start of a block stays there while bytes behind its NUL are written. -/
theorem string_take_append (h : b.string = some u) (hk : u.length < k) (rest : Block) :
    Block.string (b.take k ++ rest) = some u := by
  obtain ⟨hnul, behind, rfl⟩ := Block.string_eq_some_iff.mp h
  refine Block.string_eq_some_iff.mpr ⟨hnul, behind.take (k - (u.length + 1)) ++ rest, ?_⟩
  rw [List.take_append, List.take_of_length_le (by rw [List.length_map]; omega), List.length_map,
    show k - u.length = (k - (u.length + 1)) + 1 by omega, List.take_succ_cons, List.append_assoc,
    List.cons_append]

/-- The string from a place on is the rest of the string. -/
theorem string_drop (h : b.string = some u) (hk : k ≤ u.length) :
    Block.string (b.drop k) = some (u.drop k) := by
  obtain ⟨hnul, rest, rfl⟩ := Block.string_eq_some_iff.mp h
  refine Block.string_eq_some_iff.mpr ⟨fun hmem => hnul (List.mem_of_mem_drop hmem), rest, ?_⟩
  rw [List.drop_append_of_le_length (by rwa [List.length_map]), List.map_drop]

/-- A string in front of another one. -/
theorem string_append (h : '\x00' ∉ u) {rest : Block} (hrest : rest.string = some t) :
    Block.string (u.map some ++ rest) = some (u ++ t) := by
  obtain ⟨hnul, behind, rfl⟩ := Block.string_eq_some_iff.mp hrest
  refine Block.string_eq_some_iff.mpr ⟨?_, behind, ?_⟩
  · rw [List.mem_append, not_or]
    exact ⟨h, hnul⟩
  · rw [List.map_append, List.append_assoc]

/-- Behind a NUL that is written everything is as it was. -/
theorem drop_ended (hk : k ≤ b.length) (m : Nat) :
    (b.take k ++ Block.overwrite (b.drop k) ['\x00']).drop (k + m) =
      (some '\x00' :: b.drop (k + 1)).drop m := by
  rw [← List.drop_drop, List.drop_left' (List.length_take_of_le hk), Block.overwrite,
    List.drop_drop]
  rfl

/-- The string behind the start of a string. -/
theorem string_behind (hs : b.string = some (u ++ t)) :
    Block.string (b.drop u.length) = some t := by
  have hdrop := string_drop (k := u.length) hs (by rw [List.length_append]; omega)
  rwa [List.drop_left] at hdrop

/-- Another string is put behind the start of a string. -/
theorem string_replace {s : CStr} (hs : b.string = some (u ++ t)) (hnew : '\x00' ∉ s) :
    Block.string (b.take u.length ++ Block.overwrite (b.drop u.length) (s ++ ['\x00'])) =
      some (u ++ s) := by
  obtain ⟨hnul, rest, rfl⟩ := Block.string_eq_some_iff.mp hs
  rw [List.mem_append, not_or] at hnul
  have htake : ((u ++ t).map some ++ some '\x00' :: rest).take u.length = u.map some := by
    rw [List.map_append, List.append_assoc, List.take_left' (List.length_map _)]
  rw [htake]
  exact string_append hnul.1 (Block.string_overwrite hnew)

/-- Where a string has ended there is no white space before its NUL. -/
theorem white_ended (rest : Block) : White (some '\x00' :: rest) :=
  ⟨[], rfl, by decide, fun c hc => absurd hc List.not_mem_nil⟩

/-- A string of white space is one from each of its places on. -/
theorem White.drop (h : Block.string (b.drop k) = some t) (hlen : t.length < 2 ^ 31)
    (hwhite : ∀ c ∈ t, ¬ IsPlain c) (hi : i ≤ t.length) : White (b.drop (k + i)) := by
  have hrest := string_drop h hi
  rw [List.drop_drop] at hrest
  refine ⟨_, hrest, ?_, fun c hc => hwhite c (List.mem_of_mem_drop hc)⟩
  rw [List.length_drop]
  omega

/-- A string is trimmed at its place in the block. -/
theorem trimAt_eq (h : Block.string (b.drop k) = some t) (hlen : t.length < 2 ^ 31) :
    trimAt b k = some (b.take k ++ Block.overwrite (b.drop k) (Ebotula.trim t ++ ['\x00'])) := by
  rw [trimAt, trim_eq h hlen, Option.map_some]

/-- Turns that read no blank do nothing. -/
theorem argumentLoop_skip (h : ∀ i ∈ is, ∃ c, b.load (k + i) = some c ∧ c ≠ ' ') :
    argumentLoop k (is ++ js) b = argumentLoop k js b := by
  induction is with
  | nil => rfl
  | cons i is ih =>
    obtain ⟨⟨c, hload, hc⟩, h⟩ := List.forall_mem_cons.mp h
    rw [List.cons_append, argumentLoop, hload, Option.bind_eq_bind, Option.bind_some, if_neg hc]
    exact ih h

/-- Over white space the loop goes on to its end, and the string at the start of the line stays. -/
theorem argumentLoop_white (hu : b.string = some u) (hi : u.length ≤ k + i)
    (hwhite : ∀ m, i ≤ m → m < i + n → White (b.drop (k + m))) :
    ∃ b', argumentLoop k (List.range' i n) b = some (none, b') ∧ b'.string = some u := by
  induction n generalizing i b with
  | zero => exact ⟨b, rfl, hu⟩
  | succ n ih =>
    obtain ⟨t, ht, hlen, hplain⟩ := hwhite i (Nat.le_refl i) (by omega)
    rw [List.range'_succ, argumentLoop, load_drop ht, Option.bind_eq_bind, Option.bind_some]
    by_cases hblank : t.headD '\x00' = ' '
    · rw [if_pos hblank]
      obtain ⟨t', rfl⟩ : ∃ t', t = ' ' :: t' := by
        cases t with
        | nil => exact absurd hblank (by decide)
        | cons c t' => exact ⟨t', by rw [List.headD_cons] at hblank; rw [hblank]⟩
      rw [List.length_cons] at hlen
      have hrest := string_drop_succ ht
      have hnone : Ebotula.trim t' = [] := by
        have hall := trim_append_white (s := []) fun c hc => hplain c (List.mem_cons_of_mem _ hc)
        rwa [List.nil_append] at hall
      have hfits := Block.length_of_string hrest
      rw [trimAt_eq hrest (by omega), hnone, List.nil_append]
      rw [List.length_drop] at hfits
      have hdrop := drop_ended (b := b) (k := k + i + 1) (by omega)
      have hempty : Block.string ((b.take (k + i + 1) ++
          Block.overwrite (b.drop (k + i + 1)) ['\x00']).drop (k + i + 1)) = some [] := by
        rw [show k + i + 1 = k + i + 1 + 0 from rfl, hdrop 0, List.drop_zero]
        rfl
      simp only [Option.bind_eq_bind, Option.bind_some, hempty, List.length_nil, Nat.lt_irrefl,
        if_false]
      refine ih (string_take_append hu (by omega) _) (by omega) fun m hm hmn => ?_
      obtain ⟨m, rfl⟩ := Nat.exists_eq_add_of_le hm
      rw [show k + (i + 1 + m) = k + i + 1 + m by omega, hdrop m]
      cases m with
      | zero => exact white_ended _
      | succ m =>
        rw [List.drop_succ_cons, List.drop_drop,
          show k + i + 1 + 1 + m = k + (i + 1 + (m + 1)) by omega]
        exact hwhite _ (by omega) (by omega)
    · rw [if_neg hblank]
      exact ih hu (by omega) fun m hm hmn => hwhite m (by omega) (by omega)

variable {front word pStr pPos : CStr}

/-- The string at a place of the part behind the name. -/
theorem string_drop_part (hs : b.string = some (front ++ pStr)) (hi : i ≤ pStr.length) :
    Block.string (b.drop (front.length + i)) = some (pStr.drop i) := by
  have hrest : (front ++ pStr).drop (front.length + i) = pStr.drop i := by
    rw [← List.drop_drop, List.drop_left]
  rw [← hrest]
  exact string_drop hs (by rw [List.length_append]; omega)

/-- Before the first blank the loop reads none. -/
theorem load_word (hs : b.string = some (front ++ pStr)) (hword : ' ' ∉ pStr.take n)
    (hi : i < n ∨ i = pStr.length) (hin : i ≤ pStr.length) :
    ∃ c, b.load (front.length + i) = some c ∧ c ≠ ' ' := by
  refine ⟨_, load_drop (string_drop_part hs hin), fun hblank => ?_⟩
  cases hrest : pStr.drop i with
  | nil =>
    rw [hrest] at hblank
    exact absurd hblank (by decide)
  | cons c rest =>
    rw [hrest, List.headD_cons] at hblank
    have hget : pStr[i]? = some ' ' := by
      rw [← hblank, ← Nat.add_zero i, ← List.getElem?_drop, hrest]
      rfl
    have hlt := (List.getElem?_eq_some_iff.mp hget).1
    refine hword (List.mem_of_getElem? (i := i) ?_)
    rw [List.getElem?_take_of_lt (by omega), hget]

/-- Without a blank the loop finds nothing. -/
theorem argumentLoop_none (hs : b.string = some (front ++ pStr)) (hblank : ' ' ∉ pStr) :
    argumentLoop front.length (List.range (pStr.length + 1)) b = some (none, b) := by
  rw [← List.append_nil (List.range (pStr.length + 1)), argumentLoop_skip fun i hi => ?_]
  · rfl
  · have hle := List.mem_range.mp hi
    exact load_word (n := pStr.length) hs (by rwa [List.take_length]) (by omega) (by omega)

/-- When only white space is left, and its first character is ended, the loop finds nothing. -/
theorem argumentLoop_ended (hs : b.string = some (u ++ t)) (hi : k + i = u.length)
    (hlen : t.length < 2 ^ 31) (hwhite : ∀ c ∈ t, ¬ IsPlain c) :
    ∃ b', argumentLoop k (List.range' i (1 + t.length))
        (b.take u.length ++ Block.overwrite (b.drop u.length) ['\x00']) = some (none, b') ∧
      b'.string = some u := by
  have hfits := Block.length_of_string hs
  rw [List.length_append] at hfits
  have hstring := string_replace (s := []) hs List.not_mem_nil
  rw [List.append_nil, List.nil_append] at hstring
  refine argumentLoop_white hstring (by omega) fun m hm hmn => ?_
  obtain ⟨m, rfl⟩ := Nat.exists_eq_add_of_le hm
  rw [← Nat.add_assoc, hi, drop_ended (by omega)]
  cases m with
  | zero => exact white_ended _
  | succ m =>
    rw [List.drop_succ_cons, List.drop_drop, Nat.add_assoc, Nat.add_comm 1 m]
    exact .drop (string_behind hs) hlen hwhite (by omega)

/-- At the first blank the loop trims what stands behind it. -/
theorem argumentLoop_some (hs : b.string = some (front ++ (word ++ ' ' :: pPos)))
    (hblank : ' ' ∉ word) (hlen : pPos.length < 2 ^ 31) :
    ∃ b', argumentLoop front.length (List.range ((word ++ ' ' :: pPos).length + 1)) b =
        some (if (Ebotula.trim pPos).isEmpty then none else some (Ebotula.trim pPos), b') ∧
      b'.string = some (front ++ (word ++ ' ' :: Ebotula.trim pPos)) := by
  have hlength : (word ++ ' ' :: pPos).length = word.length + 1 + pPos.length := by
    rw [List.length_append, List.length_cons]
    omega
  have hrange : List.range ((word ++ ' ' :: pPos).length + 1) =
      List.range word.length ++ word.length :: List.range' (word.length + 1) (1 + pPos.length) := by
    rw [hlength, List.range_eq_range', List.range_eq_range',
      show word.length + 1 + pPos.length + 1 = word.length + (1 + (1 + pPos.length)) by omega,
      ← List.range'_append_1, Nat.zero_add, ← List.range'_append_1]
    rfl
  have hread : b.load (front.length + word.length) = some ' ' := by
    rw [load_drop (string_drop_part hs (by omega)), List.drop_left, List.headD_cons]
  -- the string up to the blank, which stays, and what is trimmed behind it
  obtain ⟨u, hu⟩ : ∃ u, u = front ++ (word ++ [' ']) := ⟨_, rfl⟩
  have hplace : front.length + word.length + 1 = u.length := by
    simp only [hu, List.length_append, List.length_singleton]
    omega
  have hwhole (t : CStr) : front ++ (word ++ ' ' :: t) = u ++ t := by simp [hu]
  have hs' : b.string = some (u ++ pPos) := by rw [hs, hwhole]
  have hnul : '\x00' ∉ Ebotula.trim pPos := fun hmem =>
    (Block.string_eq_some_iff.mp hs').1 (List.mem_append_right _ (trim_subset _ hmem))
  have htrimmed := string_replace hs' hnul
  have hskip (i : Nat) (hi : i ∈ List.range word.length) :
      ∃ c, b.load (front.length + i) = some c ∧ c ≠ ' ' := by
    have hlt := List.mem_range.mp hi
    exact load_word (n := word.length) hs (by rwa [List.take_left]) (.inl hlt) (by omega)
  rw [hrange, argumentLoop_skip hskip, argumentLoop, hread, Option.bind_eq_bind, Option.bind_some,
    if_pos rfl, hplace, trimAt_eq (string_behind hs') hlen]
  simp only [Option.bind_eq_bind, Option.bind_some, string_behind htrimmed, hwhole]
  cases htrim : Ebotula.trim pPos with
  | nil =>
    have hwhite : ∀ c ∈ pPos, ¬ IsPlain c := by
      have hkept := filter_plain_trim pPos
      rw [htrim, List.filter_nil, eq_comm, List.filter_eq_nil_iff] at hkept
      simpa using hkept
    simp only [List.length_nil, Nat.lt_irrefl, if_false, List.isEmpty_nil, if_true,
      List.nil_append, List.append_nil]
    exact argumentLoop_ended hs' (by omega) hlen hwhite
  | cons c rest =>
    rw [htrim] at htrimmed
    simp only [List.length_cons, Nat.succ_pos, if_true, List.isEmpty_cons, Bool.false_eq_true,
      if_false]
    exact ⟨_, rfl, htrimmed⟩

end Loop

/-- `getArgument` on the memory of a line that an `int` can count. -/
theorem getArgument_eq {b : Block} {s : CStr} (hs : b.string = some s) (hlen : s.length < 2 ^ 31) :
    ∃ b', getArgument b = some ((Ebotula.getArgument s).1, b') ∧
      b'.string = some (Ebotula.getArgument s).2 := by
  unfold getArgument Ebotula.getArgument
  rw [hs, Option.bind_eq_bind, Option.bind_some]
  cases hcut : cutString " :!".toList s with
  | none => exact ⟨b, rfl, hs⟩
  | some found =>
    obtain ⟨before, pStr⟩ := found
    obtain rfl := cutString_eq_some hcut
    have hfront : (before ++ " :!".toList).length = before.length + 3 := List.length_append
    rw [List.length_append, hfront] at hlen
    have hcount : strlenInt pStr = pStr.length := strlenInt_eq (by omega)
    have hguard : (guard (strlenInt pStr < 2 ^ 31 - 1) : Option Unit) = some () :=
      if_pos (by rw [hcount]; omega)
    have hturns : turns (strlenInt pStr + 1) = List.range (pStr.length + 1) := by
      rw [hcount]
      rfl
    dsimp only
    rw [hguard, hturns, Option.bind_eq_bind, Option.bind_some, ← hfront]
    cases hword : cutFirst ' ' pStr with
    | none => exact ⟨b, argumentLoop_none hs (cutFirst_eq_none_iff.mp hword), hs⟩
    | some found =>
      obtain ⟨word, pPos⟩ := found
      obtain ⟨hblank, rfl⟩ := cutFirst_eq_some_iff.mp hword
      rw [List.length_append, List.length_cons] at hlen
      obtain ⟨b', hloop, hstring⟩ := argumentLoop_some hs hblank (by omega)
      refine ⟨b', hloop, ?_⟩
      rw [hstring]
      simp only [List.append_assoc]

end InPlace

end Ebotula
