import Mathlib.Data.List.Basic
import Mathlib.Data.List.Infix
import Mathlib.Data.List.TakeWhile
import Mathlib.Data.Char

/-!
# C strings

The part of `string.h`, `ctype.h`, `stdlib.h` and `stdio.h` that text-handling C
code leans on, over strings as lists of characters with the terminating NUL left
out. A pointer into a string is the suffix it points at.

Three habits of C need a reading here:

- `p = strchr(s, c); *p = 0; p++` splits a string at a character: `cutFirst`, and
  `cutLast` for `strrchr`;
- `strstr` followed by pointer arithmetic splits it at a word: `cutString`;
- the first call of `strtok(s, d)`, whose result is ignored while the buffer is
  used on, leaves in the buffer the leading delimiters and the first token:
  `strtokBuf`.

Each splitting function comes with the one lemma that says what it returns, and
later proofs use that lemma and never unfold it.
-/

set_option autoImplicit false

namespace Ebotula.Library

/-- A C string without its terminating NUL. -/
abbrev CStr := List Char

instance : Coe String CStr := ⟨String.toList⟩

/-! ## Splitting at a character -/

/-- The text before and after the first `c`: `strchr`, cut and step over. -/
def cutFirst (c : Char) : CStr → Option (CStr × CStr)
  | [] => none
  | a :: s => if a = c then some ([], s) else (cutFirst c s).map fun p => (a :: p.1, p.2)

/-- The text before and after the last `c`: `strrchr`, cut and step over. -/
def cutLast (c : Char) : CStr → Option (CStr × CStr)
  | [] => none
  | a :: s =>
    match cutLast c s with
    | some (x, y) => some (a :: x, y)
    | none => if a = c then some ([], s) else none

/-- The text before and after the first occurrence of `pat`: `strstr` and a step
over the word found. -/
def cutString (pat : CStr) : CStr → Option (CStr × CStr)
  | [] => if pat.isEmpty then some ([], []) else none
  | a :: s =>
    if pat.isPrefixOf (a :: s) then some ([], (a :: s).drop pat.length)
    else (cutString pat s).map fun p => (a :: p.1, p.2)

theorem cutFirst_append {c : Char} {x : CStr} (y : CStr) (h : c ∉ x) :
    cutFirst c (x ++ c :: y) = some (x, y) := by
  induction x with
  | nil => simp only [List.nil_append, cutFirst, if_pos]
  | cons a x ih =>
    have ha : a ≠ c := fun e => h (e ▸ List.mem_cons_self)
    simp only [List.cons_append, cutFirst, if_neg ha,
      ih (fun m => h (List.mem_cons_of_mem _ m)), Option.map_some]

theorem cutFirst_eq_none_iff {c : Char} {s : CStr} : cutFirst c s = none ↔ c ∉ s := by
  induction s with
  | nil => simp only [cutFirst, List.not_mem_nil, not_false_eq_true]
  | cons a s ih =>
    by_cases h : a = c
    · subst h
      simp only [cutFirst, if_true, reduceCtorEq, List.mem_cons_self, not_true_eq_false]
    · simp only [cutFirst, if_neg h, Option.map_eq_none_iff, ih, List.mem_cons, Ne.symm h,
        false_or]

theorem cutFirst_eq_some_iff {c : Char} {s x y : CStr} :
    cutFirst c s = some (x, y) ↔ c ∉ x ∧ s = x ++ c :: y := by
  constructor
  · intro h
    induction s generalizing x with
    | nil => cases h
    | cons a s ih =>
      by_cases ha : a = c
      · rw [cutFirst, if_pos ha] at h
        cases h
        exact ⟨List.not_mem_nil, ha ▸ rfl⟩
      · rw [cutFirst, if_neg ha] at h
        obtain ⟨⟨x', y'⟩, hcut, heq⟩ := Option.map_eq_some_iff.mp h
        cases heq
        obtain ⟨hx, rfl⟩ := ih hcut
        refine ⟨fun m => ?_, rfl⟩
        rcases List.mem_cons.mp m with e | m
        · exact ha e.symm
        · exact hx m
  · rintro ⟨hx, rfl⟩
    exact cutFirst_append y hx

theorem cutLast_eq_none_iff {c : Char} {s : CStr} : cutLast c s = none ↔ c ∉ s := by
  induction s with
  | nil => simp only [cutLast, List.not_mem_nil, not_false_eq_true]
  | cons a s ih =>
    rw [cutLast]
    cases hs : cutLast c s with
    | some p =>
      have : c ∈ s := by
        by_contra hn
        rw [ih.mpr hn] at hs
        cases hs
      simp only [reduceCtorEq, List.mem_cons, this, or_true, not_true_eq_false]
    | none =>
      have hn : c ∉ s := ih.mp hs
      by_cases ha : a = c
      · subst ha
        simp only [if_true, reduceCtorEq, List.mem_cons_self, not_true_eq_false]
      · simp only [if_neg ha, List.mem_cons, Ne.symm ha, hn, or_self, not_false_eq_true]

theorem cutLast_append {c : Char} (x : CStr) {y : CStr} (h : c ∉ y) :
    cutLast c (x ++ c :: y) = some (x, y) := by
  induction x with
  | nil => simp only [List.nil_append, cutLast, cutLast_eq_none_iff.mpr h, if_pos]
  | cons a x ih => simp only [List.cons_append, cutLast, ih]

/-! ## Splitting at a word -/

section Word

variable {pat s x y : CStr}

theorem cutString_at_start (pat y : CStr) : cutString pat (pat ++ y) = some ([], y) := by
  cases pat with
  | nil => cases y <;> rfl
  | cons a pat =>
    have hpat : (a :: pat).isPrefixOf (a :: (pat ++ y)) = true :=
      List.isPrefixOf_iff_prefix.mpr ⟨y, rfl⟩
    rw [List.cons_append, cutString, if_pos hpat]
    simp only [List.length_cons, List.drop_succ_cons, List.drop_left]

theorem cutString_cons {a : Char} (h : ¬ pat <+: a :: s) :
    cutString pat (a :: s) = (cutString pat s).map fun p => (a :: p.1, p.2) := by
  rw [cutString, if_neg (mt List.isPrefixOf_iff_prefix.mp h)]

/-- A text in which the word does not begin is stepped over. -/
theorem cutString_append {head : CStr}
    (h : ∀ a b, head = a ++ b → b ≠ [] → ¬ pat <+: b ++ s) :
    cutString pat (head ++ s) = (cutString pat s).map fun p => (head ++ p.1, p.2) := by
  induction head with
  | nil => simp only [List.nil_append, Option.map_id']
  | cons c head ih =>
    have hpat : ¬ pat <+: c :: (head ++ s) := h [] (c :: head) rfl (List.cons_ne_nil _ _)
    rw [List.cons_append, cutString_cons hpat, ih fun a b hab => h (c :: a) b (hab ▸ rfl),
      Option.map_map]
    rfl

/-- A word that begins with a character that does not occur. -/
theorem cutString_skip {c : Char} {head : CStr} (h : c ∉ head) :
    cutString (c :: pat) (head ++ s) =
      (cutString (c :: pat) s).map fun p => (head ++ p.1, p.2) := by
  refine cutString_append fun a b hab hb hpat => ?_
  cases b with
  | nil => exact hb rfl
  | cons d b =>
    obtain ⟨rfl, -⟩ := List.cons_prefix_cons.mp hpat
    exact h (hab ▸ List.mem_append_right _ List.mem_cons_self)

theorem cutString_eq_none_iff : cutString pat s = none ↔ ¬ pat <:+: s := by
  induction s with
  | nil => cases pat <;> simp [cutString]
  | cons a s ih =>
    rw [List.infix_cons_iff]
    by_cases h : pat <+: a :: s
    · rw [cutString, if_pos (List.isPrefixOf_iff_prefix.mpr h)]
      simp only [reduceCtorEq, h, true_or, not_true_eq_false]
    · rw [cutString_cons h, Option.map_eq_none_iff, ih]
      simp only [h, false_or]

theorem cutString_eq_some (h : cutString pat s = some (x, y)) : s = x ++ pat ++ y := by
  induction s generalizing x with
  | nil =>
    rw [cutString] at h
    split at h
    · next hpat =>
      cases h
      rw [List.isEmpty_iff.mp hpat]
      rfl
    · cases h
  | cons a s ih =>
    by_cases hpat : pat <+: a :: s
    · rw [cutString, if_pos (List.isPrefixOf_iff_prefix.mpr hpat)] at h
      cases h
      exact (List.prefix_iff_eq_append.mp hpat).symm
    · rw [cutString_cons hpat] at h
      obtain ⟨⟨x', y'⟩, hcut, he⟩ := Option.map_eq_some_iff.mp h
      cases he
      rw [ih hcut]
      rfl

/-- The first occurrence stays the first one, whatever stands behind it. -/
theorem cutString_rest (h : cutString pat s = some (x, y)) (z : CStr) :
    cutString pat (x ++ pat ++ z) = some (x, z) := by
  induction s generalizing x with
  | nil =>
    rw [cutString] at h
    split at h
    · cases h
      exact cutString_at_start pat z
    · cases h
  | cons a s ih =>
    by_cases hpat : pat <+: a :: s
    · rw [cutString, if_pos (List.isPrefixOf_iff_prefix.mpr hpat)] at h
      cases h
      exact cutString_at_start pat z
    · have hsplit := cutString_eq_some h
      rw [cutString_cons hpat] at h
      obtain ⟨⟨x', y'⟩, hcut, he⟩ := Option.map_eq_some_iff.mp h
      cases he
      have hno : ¬ pat <+: a :: (x' ++ pat ++ z) := fun hpre => by
        -- an earlier occurrence would lie in front of what was exchanged
        have hshort : pat <+: a :: x' ++ pat :=
          List.prefix_of_prefix_length_le hpre
            (List.prefix_append (a :: x' ++ pat) z)
            (by rw [List.length_append]; exact Nat.le_add_left ..)
        exact hpat (hsplit ▸ hshort.trans (List.prefix_append _ _))
      rw [List.cons_append, List.cons_append, cutString_cons hno, ih hcut]
      rfl

/-- A word begins at the start of a text only if it ends before the first separator. -/
theorem prefix_append_sep {d : Char} {t : CStr} (h : d ∉ pat) :
    pat <+: s ++ d :: t ↔ pat <+: s := by
  constructor
  · intro hpat
    induction s generalizing pat with
    | nil =>
      cases pat with
      | nil => exact List.nil_prefix
      | cons a pat => exact absurd ((List.cons_prefix_cons.mp hpat).1 ▸ List.mem_cons_self) h
    | cons b s ih =>
      cases pat with
      | nil => exact List.nil_prefix
      | cons a pat =>
        obtain ⟨rfl, hrest⟩ := List.cons_prefix_cons.mp hpat
        have hmem : d ∉ pat := fun hd => h (List.mem_cons_of_mem _ hd)
        exact List.cons_prefix_cons.mpr ⟨rfl, ih hmem hrest⟩
  · intro hpat
    exact hpat.trans (List.prefix_append _ _)

/-- A word without the separator stands on one side of it. -/
theorem infix_append_sep {d : Char} {t : CStr} (h : d ∉ pat) :
    pat <:+: s ++ d :: t ↔ pat <:+: s ∨ pat <:+: t := by
  induction s with
  | nil =>
    have hstart : pat <+: d :: t ↔ pat <:+: [] :=
      (prefix_append_sep (s := []) h).trans (by rw [List.prefix_nil, List.infix_nil])
    rw [List.nil_append, List.infix_cons_iff, hstart]
  | cons b s ih =>
    have hstart : pat <+: b :: (s ++ d :: t) ↔ pat <+: b :: s := prefix_append_sep (s := b :: s) h
    rw [List.cons_append, List.infix_cons_iff, List.infix_cons_iff, hstart, ih, or_assoc]

end Word

/-! ## `strtok` -/

/-- The buffer after `strtok(s, d)`: leading delimiters, then the first token. -/
def strtokBuf (d : Char) (s : CStr) : CStr :=
  s.takeWhile (· = d) ++ (s.dropWhile (· = d)).takeWhile (· ≠ d)

/-- `strtok(s, d)` found a token. -/
def strtokFound (d : Char) (s : CStr) : Bool := s.any (· ≠ d)

/-- A string that starts with something else keeps everything up to the first `d`. -/
theorem strtokBuf_of_head {d a : Char} {s : CStr} (h : a ≠ d) :
    strtokBuf d (a :: s) = a :: s.takeWhile (· ≠ d) := by
  simp only [strtokBuf, List.takeWhile_cons, List.dropWhile_cons, h, decide_false,
    Bool.false_eq_true, if_false, List.nil_append, ne_eq, not_false_eq_true, decide_true, if_true]

/-- A text without the delimiter is the token. -/
theorem strtokBuf_of_not_mem {d : Char} {s : CStr} (h : d ∉ s) : strtokBuf d s = s := by
  cases s with
  | nil => rfl
  | cons a s =>
    have ha : a ≠ d := fun e => h (e ▸ List.mem_cons_self)
    rw [strtokBuf_of_head ha, List.takeWhile_eq_self_iff.mpr]
    intro b hb
    exact decide_eq_true fun e : b = d => h (e ▸ List.mem_cons_of_mem _ hb)

/-- A token ends at the delimiter. -/
theorem strtokBuf_append {d : Char} {s t : CStr} (hs : s ≠ []) (h : d ∉ s) :
    strtokBuf d (s ++ d :: t) = s := by
  cases s with
  | nil => exact absurd rfl hs
  | cons a s =>
    have ha : a ≠ d := fun e => h (e ▸ List.mem_cons_self)
    rw [List.cons_append, strtokBuf_of_head ha, List.takeWhile_append_of_pos, List.takeWhile_cons]
    · simp only [ne_eq, not_true_eq_false, decide_false, Bool.false_eq_true, if_false,
        List.append_nil]
    · intro b hb
      exact decide_eq_true fun e : b = d => h (e ▸ List.mem_cons_of_mem _ hb)

/-- What comes behind the delimiter makes no difference, once there is a token. -/
theorem strtokBuf_append_delim {d e : Char} {s t : CStr} (he : e ≠ d) :
    strtokBuf d (s ++ e :: d :: t) = strtokBuf d (s ++ [e]) := by
  have cut (s : CStr) : (s ++ e :: d :: t).takeWhile (· ≠ d) = (s ++ [e]).takeWhile (· ≠ d) := by
    induction s with
    | nil => simp [he]
    | cons a s ih => simp only [List.cons_append, List.takeWhile_cons, ih]
  induction s with
  | nil =>
    rw [List.nil_append, List.nil_append, strtokBuf_of_head he, strtokBuf_of_head he]
    simp
  | cons a s ih =>
    by_cases ha : a = d
    · subst ha
      simp only [strtokBuf, List.cons_append, List.takeWhile_cons, List.dropWhile_cons,
        decide_true, if_true] at ih ⊢
      rw [ih]
    · rw [List.cons_append, List.cons_append, strtokBuf_of_head ha, strtokBuf_of_head ha, cut]

/-- A delimiter in front stays where it is. -/
theorem strtokBuf_cons_delim (d : Char) (s : CStr) : strtokBuf d (d :: s) = d :: strtokBuf d s := by
  simp only [strtokBuf, List.takeWhile_cons, List.dropWhile_cons, decide_true, if_true,
    List.cons_append]

theorem mem_of_mem_strtokBuf {d c : Char} {s : CStr} (h : c ∈ strtokBuf d s) : c ∈ s := by
  rw [strtokBuf, List.mem_append] at h
  rcases h with h | h
  · exact (List.takeWhile_prefix _).subset h
  · exact (List.dropWhile_suffix _).subset ((List.takeWhile_prefix _).subset h)

theorem takeWhile_ne_append {d : Char} (s t : CStr) : (s ++ t).takeWhile (· ≠ d) =
    if d ∈ s then s.takeWhile (· ≠ d) else s ++ t.takeWhile (· ≠ d) := by
  induction s with
  | nil => rfl
  | cons a s ih =>
    rw [List.cons_append]
    by_cases ha : a = d
    · subst ha
      simp only [List.takeWhile_cons, ne_eq, not_true_eq_false, decide_false, Bool.false_eq_true,
        if_false, List.mem_cons_self, if_true]
    · simp only [List.takeWhile_cons, ha, ne_eq, not_false_eq_true, decide_true, if_true, ih,
        List.mem_cons, Ne.symm ha, false_or]
      split <;> rfl

/-- A text without the delimiter is kept, and nothing behind the delimiter is. -/
theorem takeWhile_ne_self {d : Char} {s : CStr} (h : d ∉ s) : s.takeWhile (· ≠ d) = s :=
  List.takeWhile_eq_self_iff.mpr fun _ hc => decide_eq_true fun he => h (he ▸ hc)

theorem takeWhile_ne_word {d : Char} {s : CStr} (h : d ∉ s) (t : CStr) :
    (s ++ d :: t).takeWhile (· ≠ d) = s := by
  rw [takeWhile_ne_append, if_neg h]
  simp

/-- A text that does not begin with the delimiter is a token up to there. -/
theorem strtokBuf_eq_takeWhile {d : Char} {s : CStr} (h : s.head? ≠ some d) :
    strtokBuf d s = s.takeWhile (· ≠ d) := by
  cases s with
  | nil => rfl
  | cons c s =>
    have hc : c ≠ d := fun he => h (congrArg some he)
    rw [strtokBuf_of_head hc, List.takeWhile_cons, if_pos (decide_eq_true hc)]

/-- A token that begins in one text ends there if a delimiter stands behind it, and else goes
on in the next text. -/
theorem strtokBuf_append_word {d e : Char} (he : e ≠ d) (s t : CStr) :
    strtokBuf d (s ++ e :: t) =
      if d ∈ s.dropWhile (· = d) then strtokBuf d s else s ++ e :: t.takeWhile (· ≠ d) := by
  induction s with
  | nil => exact strtokBuf_of_head he
  | cons a s ih =>
    rw [List.cons_append]
    by_cases ha : a = d
    · subst ha
      rw [strtokBuf_cons_delim, ih, strtokBuf_cons_delim, List.dropWhile_cons,
        if_pos (decide_eq_true rfl)]
      split <;> rfl
    · have htake : (e :: t).takeWhile (· ≠ d) = e :: t.takeWhile (· ≠ d) := by
        simp only [List.takeWhile_cons, ne_eq, he, not_false_eq_true, decide_true, if_true]
      have hdrop : (a :: s).dropWhile (· = d) = a :: s := by
        simp only [List.dropWhile_cons, ha, decide_false, Bool.false_eq_true, if_false]
      rw [strtokBuf_of_head ha, strtokBuf_of_head ha, takeWhile_ne_append, htake, hdrop]
      simp only [List.mem_cons, Ne.symm ha, false_or]
      split <;> rfl

/-! ## Character classes and comparison -/

/-- `strpbrk(s, set)` found a character. -/
def strpbrk (s set : CStr) : Bool := s.any (set.contains ·)

/-- `strcasecmp(a, b) == 0`. -/
def strcaseeq (a b : CStr) : Bool := a.map Char.toLower == b.map Char.toLower

/-- `s[i]`, the terminating NUL at the end. -/
def strAt (s : CStr) (i : Nat) : Char := s.getD i '\x00'

/-- A character that is not an upper case letter is its own lower case. -/
theorem toLower_of_not_upper {c : Char} (h : ¬ (c.val ≥ 'A'.val ∧ c.val ≤ 'Z'.val)) :
    c.toLower = c := dif_neg h

/-- An upper case letter becomes a character beyond all of them. -/
theorem toLower_of_upper {c : Char} (h : c.val ≥ 'A'.val ∧ c.val ≤ 'Z'.val) :
    97 ≤ c.toLower.val.toNat ∧ c.toLower.val.toNat ≤ 122 := by
  have hlower : c.toLower.val = c.val + ('a'.val - 'A'.val) := congrArg Char.val (dif_pos h)
  obtain ⟨h₁, h₂⟩ := h
  rw [hlower]
  simp only [ge_iff_le, UInt32.le_iff_toNat_le, UInt32.toNat_add] at h₁ h₂ ⊢
  have e₁ : 'A'.val.toNat = 65 := rfl
  have e₂ : 'Z'.val.toNat = 90 := rfl
  have e₃ : ('a'.val - 'A'.val).toNat = 32 := rfl
  rw [e₁] at h₁
  rw [e₂] at h₂
  rw [e₃]
  omega

theorem toLower_toLower (c : Char) : c.toLower.toLower = c.toLower := by
  by_cases h : c.val ≥ 'A'.val ∧ c.val ≤ 'Z'.val
  · refine toLower_of_not_upper fun hlow => ?_
    have hbig := (toLower_of_upper h).1
    have hsmall : c.toLower.val.toNat ≤ 90 := UInt32.le_iff_toNat_le.mp hlow.2
    omega
  · rw [toLower_of_not_upper h, toLower_of_not_upper h]

/-- What a text is tested for character by character. -/
theorem forall_of_all {p : Char → Prop} [DecidablePred p] {s : CStr}
    (h : s.all fun c => decide (p c)) : ∀ c ∈ s, p c := fun c hc =>
  of_decide_eq_true (List.all_eq_true.mp h c hc)

/-! ## Formatting and numbers -/

/-- An argument of a format: a string that may be NULL, or a character. -/
inductive FmtArg
  | str (s : Option CStr)
  | chr (c : Char)
  | int (n : Int)

/-- `sprintf("%ld", n)`. -/
def sprintLong (n : Int) : CStr :=
  if n < 0 then '-' :: Nat.toDigits 10 n.natAbs else Nat.toDigits 10 n.natAbs

/-- `vsprintf`: `none` where a conversion lacks its argument or is not one of
those in use here. A NULL string prints as `(null)`. -/
def vsprintf : CStr → List FmtArg → Option CStr
  | [], _ => some []
  | a :: f, args =>
    if a ≠ '%' then (vsprintf f args).map (a :: ·)
    else
      match f with
      | [] => none
      | k :: f =>
        if k = '%' then (vsprintf f args).map ('%' :: ·)
        else
          match args with
          | .str s :: args =>
            if k = 's' then (vsprintf f args).map ((s.getD "(null)".toList) ++ ·) else none
          | .chr c :: args => if k = 'c' then (vsprintf f args).map (c :: ·) else none
          | .int n :: args =>
            if k = 'd' ∨ k = 'i' then (vsprintf f args).map (sprintLong n ++ ·) else none
          | [] => none

/-- An argument of the same kind, whatever its value. -/
def FmtArg.blank : FmtArg → FmtArg
  | str _ => str none
  | chr _ => chr ' '
  | int _ => int 0

/-- Whether a format goes through is a matter of the kinds of its arguments. -/
theorem isSome_vsprintf (f : CStr) (args : List FmtArg) :
    (vsprintf f args).isSome = (vsprintf f (args.map FmtArg.blank)).isSome := by
  fun_induction vsprintf f args with
  | case1 args => rfl
  | case2 a f args ha ih =>
    rw [vsprintf.eq_def (a :: f)]
    simp only [if_pos ha, Option.isSome_map, ih]
  | _ =>
    simp_all only [vsprintf, FmtArg.blank, List.map_cons, List.map_nil, Option.isSome_map,
      if_true, if_false, ne_eq]

/-- A character that is no percent sign is printed as it is. -/
theorem vsprintf_cons {a : Char} (h : a ≠ '%') (f : CStr) (args : List FmtArg) :
    vsprintf (a :: f) args = (vsprintf f args).map (a :: ·) := by
  rw [vsprintf.eq_def]
  exact if_pos h

/-- So is a text without one. -/
theorem vsprintf_plain {f : CStr} (args : List FmtArg) (h : '%' ∉ f) :
    vsprintf f args = some f := by
  induction f with
  | nil => rfl
  | cons a f ih =>
    rw [List.mem_cons, not_or] at h
    rw [vsprintf_cons (Ne.symm h.1), ih h.2, Option.map_some]

/-- Without arguments a format prints no more than its own length, and less if it has a percent
sign. -/
theorem length_vsprintf_nil {f s : CStr} (h : vsprintf f [] = some s) :
    s.length ≤ f.length ∧ ('%' ∈ f → s.length < f.length) := by
  generalize hargs : ([] : List FmtArg) = args at h
  fun_induction vsprintf f args generalizing s with
  | case1 =>
    obtain rfl := Option.some.inj h
    exact ⟨le_rfl, nofun⟩
  | case2 a f args ha ih =>
    obtain ⟨t, ht, rfl⟩ := Option.map_eq_some_iff.mp h
    obtain ⟨hle, hlt⟩ := ih hargs ht
    simp only [List.length_cons, List.mem_cons, Ne.symm ha, false_or]
    exact ⟨by omega, fun hmem => Nat.succ_lt_succ (hlt hmem)⟩
  | case4 a args ha f ih =>
    -- two percent signs print one
    obtain ⟨t, ht, rfl⟩ := Option.map_eq_some_iff.mp h
    obtain ⟨hle, -⟩ := ih hargs ht
    simp only [List.length_cons]
    exact ⟨by omega, fun _ => by omega⟩
  | case3 | case11 => cases h
  | _ => cases hargs
/-- What a buffer holds as a string: everything before its first NUL. -/
def cString (buffer : CStr) : CStr := buffer.takeWhile (· ≠ '\x00')

/-- `isspace` in the C locale. -/
def isSpace (c : Char) : Bool := [' ', '\t', '\n', '\x0b', '\x0c', '\r'].contains c

/-- `atol`: leading white space, a sign, and the digits that follow. -/
def atol (s : CStr) : Int :=
  let digits (t : CStr) : Int :=
    (t.takeWhile Char.isDigit).foldl (fun n c => n * 10 + (c.toNat - '0'.toNat : Nat)) 0
  match s.dropWhile isSpace with
  | '-' :: t => -digits t
  | '+' :: t => digits t
  | t => digits t

end Ebotula.Library
