import Ebotula.Library.CString
import Mathlib.Algebra.Group.Int.Defs
import Mathlib.Algebra.Group.Nat.Defs

/-!
# Blocks of memory

What `malloc` answers is a block of bytes that nothing was written to yet. Only its own bytes can
be written: a store beside the block has no behaviour, so a routine that tries is stuck there.
Printing into a block stores the characters of the text and a NUL behind them; the string in a
block is read back up to the first NUL.

A loop that compacts a string where it stands reads ahead of the place it writes to. What it has
written lies over the beginning of the string (`overwrite`), and what it still has to read is as
it was: `compact` is the induction over its turns.

Sizes are computed in `size_t`, and some are kept in an `int` or an `unsigned int` on their way to
`malloc`. The length of what `sprintf` and `snprintf` print is their result, an `int`: a longer
text is an error, and nothing is said of what is in the block then.
-/

set_option autoImplicit false

namespace Ebotula.Library

/-- A string that C can hold: no NUL is one of its characters. -/
abbrev Str := { s : CStr // '\x00' ∉ s }

@[simp] theorem Str.nul_notMem (s : Str) : '\x00' ∉ (s : CStr) := s.2

/-! ## Sizes -/

/-- A number in a `size_t`. -/
def sizeT (n : Nat) : Nat := n % 2 ^ 64

/-- A `size_t` in an `int`. -/
def toInt (n : Nat) : Int := Int.bmod n (2 ^ 32)

/-- An `int` in a `size_t`. -/
def ofInt (n : Int) : Nat := (n % 2 ^ 64).toNat

/-- A number in an `unsigned int`. -/
def toUnsigned (n : Nat) : Nat := n % 2 ^ 32

/-- The turns of a loop that counts from 0 to a bound in an `int`. -/
def turns (bound : Int) : List Nat := List.range bound.toNat

/-- A size is what it was computed to be, and one that `malloc` answers, if it is short of half
of what the type holds. -/
theorem sizeT_room {n : Nat} : sizeT n < 2 ^ 63 ∧ n ≤ sizeT n ↔ n < 2 ^ 63 := by
  unfold sizeT
  omega

theorem toInt_eq {n : Nat} (h : n < 2 ^ 31) : toInt (sizeT n) = n := by
  unfold toInt sizeT
  rw [Int.bmod_def]
  split <;> omega

/-- The length of a string, in an `int`. -/
def strlenInt (s : CStr) : Int := toInt (sizeT s.length)

theorem strlenInt_eq {s : CStr} (h : s.length < 2 ^ 31) : strlenInt s = s.length := toInt_eq h

/-- A loop over a string is never longer than the string. -/
theorem strlenInt_le (s : CStr) : (strlenInt s).toNat ≤ s.length := by
  unfold strlenInt toInt sizeT
  rw [Int.bmod_def]
  split <;> omega

theorem strlenInt_lt (s : CStr) : strlenInt s < 2 ^ 31 := by
  unfold strlenInt toInt
  rw [Int.bmod_def]
  split <;> omega

theorem ofInt_room {n : Nat} :
    ofInt (toInt (sizeT n)) < 2 ^ 63 ∧ n ≤ ofInt (toInt (sizeT n)) ↔ n < 2 ^ 31 := by
  unfold ofInt toInt sizeT
  rw [Int.bmod_def]
  split <;> omega

/-- A size that went through an `int` and comes near what was counted has not changed. -/
theorem lt_of_ofInt_near {n d : Nat} (hd : d ≤ 2 ^ 31) (hsize : ofInt (toInt (sizeT n)) < 2 ^ 63)
    (hnear : n ≤ ofInt (toInt (sizeT n)) + d) : n < 2 ^ 31 := by
  unfold ofInt toInt sizeT at *
  rw [Int.bmod_def] at *
  split at hnear <;> omega

theorem ofInt_natCast {n : Nat} (h : n < 2 ^ 64) : ofInt n = n := by
  unfold ofInt
  omega

/-! ## The block -/

/-- The bytes of a block, each with the character that was written there last. -/
abbrev Block := List (Option Char)

/-- `malloc`: a block may be as long as a difference of pointers. -/
def malloc (size : Nat) : Option Block :=
  if size < 2 ^ 63 then some (List.replicate size none) else none

theorem malloc_eq {size : Nat} (h : size < 2 ^ 63) :
    malloc size = some (List.replicate size none) := by
  unfold malloc
  exact if_pos h

/-- A block that `malloc` answers is as long as it was asked to be. -/
theorem malloc_some {size : Nat} {block : Block} (h : malloc size = some block) :
    size < 2 ^ 63 ∧ block.length = size := by
  unfold malloc at h
  split at h
  · next hsize =>
    obtain rfl := Option.some.inj h
    exact ⟨hsize, List.length_replicate⟩
  · cases h

/-- `malloc` answers a block with room for a text and its NUL. -/
theorem malloc_room {size n : Nat} :
    (∃ block, malloc size = some block ∧ n < block.length) ↔ size < 2 ^ 63 ∧ n < size := by
  by_cases h : size < 2 ^ 63
  · rw [malloc_eq h, and_iff_right h]
    simp only [Option.some.injEq, exists_eq_left', List.length_replicate]
  · have hnone : malloc size = none := by
      unfold malloc
      exact if_neg h
    rw [hnone]
    exact iff_of_false nofun fun hsize => h hsize.1

namespace Block

/-- `b[i] = c`. -/
def store (b : Block) (i : Int) (c : Char) : Option Block :=
  if 0 ≤ i ∧ i < b.length then some (b.set i.toNat (some c)) else none

/-- The characters one after the other, from `&b[i]` on. -/
def write (b : Block) (i : Int) : CStr → Option Block
  | [] => some b
  | c :: s => (b.store i c).bind fun b => b.write (i + 1) s

/-- A string, from `&b[i]` on. -/
def writeString (b : Block) (i : Int) (s : CStr) : Option Block := b.write i (s ++ ['\x00'])

/-- `sprintf(&b[i], "%s", s)`, which answers the length of the text in an `int`. -/
def sprintf (b : Block) (i : Int) (s : CStr) : Option Block :=
  if s.length < 2 ^ 31 then b.writeString i s else none

/-- `snprintf(&b[i], size, "%s", s)`. -/
def snprintf (b : Block) (i : Int) (size : Nat) (s : CStr) : Option Block :=
  if s.length < 2 ^ 31 then
    match size with
    | 0 => some b
    | n + 1 => b.writeString i (s.take n)
  else none

/-- The string at the start of the block, if there is one. -/
def string : Block → Option CStr
  | [] | none :: _ => none
  | some c :: b => if c = '\x00' then some [] else (string b).map (c :: ·)

/-- `b[i]` as a value: a byte that something was written to. -/
def load (b : Block) (i : Nat) : Option Char := (b[i]?).join

/-- `strcpy(b, s)`. -/
def strcpy (b : Block) (s : CStr) : Option Block := b.writeString 0 s

/-- `strcat(b, s)`. -/
def strcat (b : Block) (s : CStr) : Option Block :=
  b.string.bind fun t => b.writeString t.length s

/-! ### What is written -/

variable {earlier rest : Block} {s : CStr}

theorem store_append (earlier : Block) (x : Option Char) (rest : Block) (c : Char) :
    store (earlier ++ x :: rest) earlier.length c = some (earlier ++ some c :: rest) := by
  have hlength : (earlier.length : Int) < (earlier ++ x :: rest).length := by
    simp only [List.length_append, List.length_cons]
    omega
  rw [store, if_pos ⟨Int.natCast_nonneg _, hlength⟩, Int.toNat_natCast,
    List.set_append_right _ _ le_rfl, Nat.sub_self, List.set_cons_zero]

theorem store_end (earlier : Block) (c : Char) : store earlier earlier.length c = none :=
  if_neg fun h => Int.lt_irrefl _ h.2

/-- A text that fits takes the place of as many bytes. -/
theorem write_fits (earlier rest : Block) (h : s.length ≤ rest.length) :
    write (earlier ++ rest) earlier.length s =
      some (earlier ++ s.map some ++ rest.drop s.length) := by
  induction s generalizing earlier rest with
  | nil => simp [write]
  | cons c s ih =>
    cases rest with
    | nil => exact absurd h (by simp)
    | cons x rest =>
      have hnext := ih (earlier ++ [some c]) rest (Nat.le_of_succ_le_succ h)
      rw [write, store_append, Option.bind_some]
      simpa [List.append_assoc] using hnext

/-- One that does not fit is not written. -/
theorem write_beyond (earlier rest : Block) (h : rest.length < s.length) :
    write (earlier ++ rest) earlier.length s = none := by
  induction s generalizing earlier rest with
  | nil => exact absurd h (Nat.not_lt_zero _)
  | cons c s ih =>
    cases rest with
    | nil => rw [List.append_nil, write, store_end, Option.bind_none]
    | cons x rest =>
      have hnext := ih (earlier ++ [some c]) rest (Nat.lt_of_succ_lt_succ h)
      rw [write, store_append, Option.bind_some]
      simpa [List.append_assoc] using hnext

/-- A text is read back as it was written. -/
theorem string_text (h : '\x00' ∉ s) (rest : Block) :
    string (s.map some ++ some '\x00' :: rest) = some s := by
  induction s with
  | nil => rfl
  | cons c s ih =>
    rw [List.mem_cons, not_or] at h
    rw [List.map_cons, List.cons_append, string, if_neg (Ne.symm h.1), ih h.2, Option.map_some]

/-! ### A text in a block of its own -/

variable {size : Nat}

/-- A string needs a byte more than the text has. -/
theorem writeString_new (h : '\x00' ∉ s) :
    (writeString (List.replicate size none) 0 s).bind string =
      if s.length < size then some s else none := by
  unfold writeString
  have hlength : (s ++ ['\x00']).length = s.length + 1 := by simp
  have hnew : (List.replicate size none : Block).length = size := List.length_replicate
  split
  · next hroom =>
    have hwrite := write_fits (s := s ++ ['\x00']) [] (List.replicate size none) (by omega)
    rw [List.nil_append, List.nil_append, List.length_nil, Int.natCast_zero] at hwrite
    rw [hwrite, Option.bind_some, List.map_append, List.append_assoc]
    exact string_text h _
  · next hroom =>
    have hwrite := write_beyond (s := s ++ ['\x00']) [] (List.replicate size none) (by omega)
    rw [List.nil_append, List.length_nil, Int.natCast_zero] at hwrite
    rw [hwrite, Option.bind_none]

/-- `sprintf` prints a text that it can count and that has room. -/
theorem sprintf_new (h : '\x00' ∉ s) : (sprintf (List.replicate size none) 0 s).bind string =
    if s.length < 2 ^ 31 ∧ s.length < size then some s else none := by
  unfold sprintf
  by_cases hcount : s.length < 2 ^ 31
  · rw [if_pos hcount, writeString_new h]
    simp only [hcount, true_and]
  · rw [if_neg hcount, Option.bind_none, if_neg fun hboth => hcount hboth.1]

/-- `snprintf` cuts a text that it can count to what there is room for. -/
theorem snprintf_new (h : '\x00' ∉ s) :
    (snprintf (List.replicate size none) 0 size s).bind string =
      if s.length < 2 ^ 31 ∧ size ≠ 0 then some (s.take (size - 1)) else none := by
  unfold snprintf
  by_cases hcount : s.length < 2 ^ 31
  · rw [if_pos hcount]
    cases size with
    | zero => rw [if_neg fun hboth => hboth.2 rfl]; rfl
    | succ n =>
      have htake : '\x00' ∉ s.take n := fun hmem => h (List.mem_of_mem_take hmem)
      have hroom : (s.take n).length < n + 1 := by
        rw [List.length_take]
        omega
      rw [writeString_new htake, if_pos hroom, if_pos ⟨hcount, Nat.succ_ne_zero n⟩,
        Nat.add_sub_cancel]
  · rw [if_neg hcount, Option.bind_none, if_neg fun hboth => hcount hboth.1]

/-! ### A text over the beginning of a block -/

variable {b : Block} {t : CStr} {c : Char} {i : Nat}

/-- The block with a text written over its first bytes. -/
def overwrite (b : Block) (s : CStr) : Block := s.map some ++ b.drop s.length

@[simp] theorem overwrite_nil : b.overwrite [] = b := rfl

theorem length_overwrite (h : s.length ≤ b.length) : (b.overwrite s).length = b.length := by
  rw [overwrite, List.length_append, List.length_map, List.length_drop]
  omega

/-- A text that fits takes the place of the first bytes. -/
theorem write_start (h : s.length ≤ b.length) : b.write 0 s = some (b.overwrite s) := by
  have hwrite := write_fits (s := s) [] b h
  rwa [List.nil_append, List.nil_append] at hwrite

/-- Behind a text that was written, another one follows it. -/
theorem write_overwrite (h : (s ++ t).length ≤ b.length) :
    (b.overwrite s).write s.length t = some (b.overwrite (s ++ t)) := by
  rw [List.length_append] at h
  have hwrite := write_fits (s := t) (s.map some) (b.drop s.length)
    (by rw [List.length_drop]; omega)
  rw [List.length_map] at hwrite
  rw [overwrite, hwrite, List.drop_drop, overwrite, List.map_append, List.length_append]

theorem store_overwrite (h : s.length < b.length) :
    (b.overwrite s).store s.length c = some (b.overwrite (s ++ [c])) := by
  have hwrite := write_overwrite (s := s) (t := [c]) (b := b)
    (by rw [List.length_append, List.length_singleton]; omega)
  rw [write] at hwrite
  cases hstore : (b.overwrite s).store s.length c with
  | none =>
    rw [hstore] at hwrite
    cases hwrite
  | some stored =>
    rw [hstore, Option.bind_some, write] at hwrite
    exact hwrite

/-- The last character of what was written is written once more. -/
theorem store_last (x c : Char) :
    (b.overwrite (s ++ [x])).store s.length c = some (b.overwrite (s ++ [c])) := by
  have hstore := store_append (s.map some) (some x) (b.drop (s.length + 1)) c
  rw [List.length_map] at hstore
  simpa [overwrite] using hstore

theorem load_overwrite_of_le (h : s.length ≤ i) : (b.overwrite s).load i = b.load i := by
  rw [load, load, overwrite, List.getElem?_append_right (by rwa [List.length_map]),
    List.length_map, List.getElem?_drop, Nat.add_sub_cancel' h]

theorem load_overwrite_of_lt (h : i < s.length) : (b.overwrite s).load i = s[i]? := by
  rw [load, overwrite, List.getElem?_append_left (by rwa [List.length_map]), List.getElem?_map,
    List.getElem?_eq_getElem h]
  rfl

/-- The string of a block is in its first bytes, with a NUL behind it. -/
theorem string_eq_some_iff : b.string = some s ↔
    '\x00' ∉ s ∧ ∃ rest, b = s.map some ++ some '\x00' :: rest := by
  constructor
  · intro h
    induction b generalizing s with
    | nil => cases h
    | cons x b ih =>
      cases x with
      | none => cases h
      | some c =>
        rw [string] at h
        split at h
        · next hc =>
          obtain rfl := Option.some.inj h
          exact ⟨List.not_mem_nil, b, by rw [hc]; rfl⟩
        · next hc =>
          obtain ⟨s, hs, rfl⟩ := Option.map_eq_some_iff.mp h
          obtain ⟨hnul, rest, rfl⟩ := ih hs
          refine ⟨?_, rest, rfl⟩
          rw [List.mem_cons, not_or]
          exact ⟨Ne.symm hc, hnul⟩
  · rintro ⟨hnul, rest, rfl⟩
    exact string_text hnul rest

theorem string_overwrite (h : '\x00' ∉ s) : (b.overwrite (s ++ ['\x00'])).string = some s := by
  refine string_eq_some_iff.mpr ⟨h, b.drop (s.length + 1), ?_⟩
  simp [overwrite]

theorem load_of_string (h : b.string = some s) (hi : i < s.length) : b.load i = s[i]? := by
  obtain ⟨-, rest, rfl⟩ := string_eq_some_iff.mp h
  rw [load, List.getElem?_append_left (by rwa [List.length_map]), List.getElem?_map,
    List.getElem?_eq_getElem hi]
  rfl

theorem load_nul (h : b.string = some s) : b.load s.length = some '\x00' := by
  obtain ⟨-, rest, rfl⟩ := string_eq_some_iff.mp h
  rw [load, List.getElem?_append_right (by rw [List.length_map]), List.length_map, Nat.sub_self]
  rfl

theorem length_of_string (h : b.string = some s) : s.length < b.length := by
  obtain ⟨-, rest, rfl⟩ := string_eq_some_iff.mp h
  simp

/-- `strcpy` needs a byte more than the text has. -/
theorem strcpy_eq (h : s.length < b.length) :
    b.strcpy s = some (b.overwrite (s ++ ['\x00'])) := by
  rw [strcpy, writeString, write_start]
  rw [List.length_append, List.length_singleton]
  exact h

/-- A text that was written has found room. -/
theorem writeString_room {b' : Block} (hwrite : b.writeString 0 s = some b') :
    s.length < b.length := by
  have hlength : (s ++ ['\x00']).length = s.length + 1 := List.length_append
  by_contra hbeyond
  have hnone := write_beyond (s := s ++ ['\x00']) [] b (by omega)
  rw [List.nil_append, List.length_nil, Int.natCast_zero] at hnone
  rw [writeString, hnone] at hwrite
  cases hwrite

/-- A text that was written can be read back. -/
theorem writeString_some {b' : Block} (h : '\x00' ∉ s) (hwrite : b.writeString 0 s = some b') :
    b'.length = b.length ∧ b'.string = some s := by
  have hroom := writeString_room hwrite
  have hwritten := strcpy_eq hroom
  rw [strcpy, hwrite] at hwritten
  obtain rfl := Option.some.inj hwritten
  refine ⟨length_overwrite ?_, string_overwrite h⟩
  rw [List.length_append, List.length_singleton]
  exact hroom

/-- A longer text covers a shorter one. -/
theorem overwrite_overwrite (h : s.length ≤ t.length) :
    (b.overwrite s).overwrite t = b.overwrite t := by
  rw [overwrite, overwrite, overwrite, List.drop_append, List.length_map, List.drop_drop,
    Nat.add_sub_cancel' h]
  rw [List.drop_eq_nil_of_le (by rwa [List.length_map]), List.nil_append]

/-- The beginning of what was written is there already. -/
theorem overwrite_append : (b.overwrite (s ++ t)).overwrite s = b.overwrite (s ++ t) := by
  simp only [overwrite, List.map_append, List.append_assoc]
  rw [List.drop_append, List.length_map, Nat.sub_self, List.drop_zero,
    List.drop_eq_nil_of_le (by rw [List.length_map]), List.nil_append]

/-- `strcat` writes over the NUL, if there is room for the text and another one. -/
theorem strcat_eq (h : '\x00' ∉ s) (hroom : s.length + t.length < b.length) :
    (b.overwrite (s ++ ['\x00'])).strcat t = some (b.overwrite (s ++ t ++ ['\x00'])) := by
  have hlength : (b.overwrite (s ++ ['\x00'])).length = b.length :=
    length_overwrite (by rw [List.length_append, List.length_singleton]; omega)
  have hfits : (s ++ (t ++ ['\x00'])).length ≤ (b.overwrite (s ++ ['\x00'])).length := by
    rw [hlength, List.length_append, List.length_append, List.length_singleton]
    omega
  have hwrite := write_overwrite hfits
  rw [overwrite_append] at hwrite
  rw [strcat, string_overwrite h, Option.bind_some, writeString, hwrite, overwrite_overwrite,
    List.append_assoc]
  rw [List.length_append, List.length_append]
  exact Nat.add_le_add_left (by rw [List.length_append]; omega) _

/-- What `strcat` has appended has found room, and can be read back with what was there. -/
theorem strcat_some {b' : Block} (hs : b.string = some s) (ht : '\x00' ∉ t)
    (hcat : b.strcat t = some b') : b'.length = b.length ∧ b'.string = some (s ++ t) := by
  obtain ⟨hnul, rest, rfl⟩ := string_eq_some_iff.mp hs
  have hlength : (t ++ ['\x00']).length = t.length + 1 := List.length_append
  have hmapped : ((s.map some).length : Int) = s.length := by rw [List.length_map]
  rw [strcat, hs, Option.bind_some, writeString, ← hmapped] at hcat
  have hroom : (t ++ ['\x00']).length ≤ (some '\x00' :: rest).length := by
    by_contra hbeyond
    rw [write_beyond (s := t ++ ['\x00']) (s.map some) (some '\x00' :: rest) (by omega)] at hcat
    cases hcat
  rw [write_fits (s := t ++ ['\x00']) _ _ hroom] at hcat
  obtain rfl := Option.some.inj hcat
  constructor
  · simp only [List.length_append, List.length_map, List.length_drop, List.length_cons,
      List.length_nil] at hroom ⊢
    omega
  · refine string_eq_some_iff.mpr ⟨?_, (some '\x00' :: rest).drop (t.length + 1), ?_⟩
    · rw [List.mem_append, not_or]
      exact ⟨hnul, ht⟩
    · simp

/-! ### A string is compacted in place -/

/-- Where the loop stands: the block, the place that is written next, and what it remembers. -/
structure Cursor where
  block : Block
  j : Nat
  flag : Bool

/-- The loop has written a text over the beginning of the block. -/
def cursor (b : Block) (st : CStr × Bool) : Cursor := ⟨b.overwrite st.1, st.1.length, st.2⟩

variable {step : CStr × Bool → Char → CStr × Bool} {turn : Cursor → Nat → Option Cursor}

/-- The turns of a loop that compacts what it reads. Every turn reads a character that is as it
was, and writes at most one: the place written next is never ahead of the one read next. -/
theorem compact (hone : ∀ st c, (step st c).1.length ≤ st.1.length + 1)
    (hturn : ∀ st i c, st.1.length ≤ i → i < b.length → b.load i = some c →
      turn (b.cursor st) i = some (b.cursor (step st c)))
    (hs : ∀ i < s.length, b.load i = s[i]?) (hroom : s.length ≤ b.length) (f : Bool) {n : Nat}
    (hn : n ≤ s.length) :
    (List.range n).foldlM turn (b.cursor ([], f)) =
        some (b.cursor ((s.take n).foldl step ([], f))) ∧
      ((s.take n).foldl step ([], f)).1.length ≤ n := by
  induction n with
  | zero => exact ⟨rfl, Nat.le_refl 0⟩
  | succ n ih =>
    obtain ⟨hloop, hle⟩ := ih (Nat.le_of_succ_le hn)
    have hget : s[n]? = some s[n] := List.getElem?_eq_getElem hn
    have hread := (hs n hn).trans hget
    have hnext := hturn _ n s[n] hle (Nat.lt_of_lt_of_le hn hroom) hread
    have htake : s.take (n + 1) = s.take n ++ [s[n]] := (List.take_append_getElem hn).symm
    constructor
    · rw [List.range_succ, List.foldlM_append, hloop, htake, List.foldl_append]
      simpa only [List.foldlM_cons, List.foldlM_nil, List.foldl_cons, List.foldl_nil,
        Option.bind_eq_bind, Option.bind_some, Option.pure_def, Option.bind_fun_some] using hnext
    · rw [htake, List.foldl_append]
      exact (hone _ _).trans (Nat.succ_le_succ hle)

end Block

end Ebotula.Library
