import Ebotula.InPlace
import Ebotula.Laws.Trim
import Mathlib.Data.List.DropRight

/-!
# What `trim` does to a string where it stands

The loops of `trim` and `clearspace` read a character at a time and write at most one for it, so
the place they write to is never ahead of the one they read, and what they still have to read is
the string as it was. In its own block a string therefore becomes what the functions of the text
answer.

What `trim` is for has three stages, each a function of its own: the tabs and line ends go, a run
of blanks becomes one, and the blanks at both ends go.
-/

set_option autoImplicit false

namespace Ebotula

open Library

/-! ## The three stages -/

/-- The tabs, carriage returns and line feeds are deleted. -/
def deleteTabs (s : CStr) : CStr := s.filter fun c => c ≠ '\t' ∧ c ≠ '\r' ∧ c ≠ '\n'

/-- A run of blanks becomes one: of two blanks in a row the first is left out. -/
def oneBlank : CStr → CStr
  | [] => []
  | c :: s => if c = ' ' ∧ s.head? = some ' ' then oneBlank s else c :: oneBlank s

/-- The blanks at both ends are removed. -/
def stripBlanks (s : CStr) : CStr := (s.dropWhile (· = ' ')).rdropWhile (· = ' ')

/-- The three stages one after the other. -/
def trimmed (s : CStr) : CStr := stripBlanks (oneBlank (deleteTabs s))

section Stages

variable {s : CStr}

/-- A character that is deleted is not looked at. -/
theorem foldl_deleteTabs (st : CStr × Bool) :
    (deleteTabs s).foldl trimStep st = s.foldl trimStep st := by
  induction s generalizing st with
  | nil => rfl
  | cons c s ih =>
    rw [deleteTabs, List.filter_cons]
    split
    · rw [List.foldl_cons, List.foldl_cons]
      exact ih _
    · next hc =>
      have hskip : trimStep st c = st := by
        have hdeleted : c = '\t' ∨ c = '\r' ∨ c = '\n' := by
          simp only [ne_eq, decide_eq_true_eq] at hc
          tauto
        rcases hdeleted with rfl | rfl | rfl <;> rfl
      rw [List.foldl_cons, hskip]
      exact ih _

/-- In a text without the other white space the loop makes one blank of a run; at the beginning,
where no word is written yet, it makes none. -/
theorem fst_foldl_trimStep (h : ∀ c ∈ s, c = ' ' ∨ IsPlain c) :
    (s.foldl trimStep ([], true)).1 = oneBlank s ∧
      (s.foldl trimStep ([], false)).1 = oneBlank (s.dropWhile (· = ' ')) := by
  induction s with
  | nil => exact ⟨rfl, rfl⟩
  | cons c s ih =>
    obtain ⟨htrue, hfalse⟩ := ih fun x hx => h x (List.mem_cons_of_mem _ hx)
    rcases h c List.mem_cons_self with rfl | hplain
    · have hblank : trimStep ([], true) ' ' = ([' '], false) := rfl
      have hskip : trimStep ([], false) ' ' = ([], false) := rfl
      constructor
      · rw [List.foldl_cons, hblank, trim_fold_append, hfalse, oneBlank]
        cases s with
        | nil => rfl
        | cons a s =>
          by_cases ha : a = ' '
          · -- the second blank of a run is written in place of the first
            subst ha
            have hagain := htrue
            rw [List.foldl_cons, hblank, trim_fold_append] at hagain
            rw [List.foldl_cons, hskip] at hfalse
            rw [if_pos ⟨rfl, rfl⟩, ← hagain, ← hfalse]
          · have hhead : ¬ (' ' = ' ' ∧ (a :: s).head? = some ' ') := fun hh =>
              ha (Option.some.inj hh.2)
            rw [if_neg hhead, List.dropWhile_cons_of_neg (by simpa using ha)]
            rfl
      · rw [List.foldl_cons, hskip, hfalse, List.dropWhile_cons_of_pos (by simp)]
    · have hstep (b : Bool) : trimStep ([], b) c = ([c], true) := trimStep_plain hplain
      have hone : oneBlank (c :: s) = c :: oneBlank s := if_neg fun hh => hplain.1 hh.1
      have hfold (b : Bool) : ((c :: s).foldl trimStep ([], b)).1 = oneBlank (c :: s) := by
        rw [List.foldl_cons, hstep, trim_fold_append, htrue, hone]
        rfl
      refine ⟨hfold true, ?_⟩
      rw [hfold false, List.dropWhile_cons_of_neg (by simpa using hplain.1)]

theorem dropWhile_oneBlank :
    (oneBlank s).dropWhile (· = ' ') = oneBlank (s.dropWhile (· = ' ')) := by
  induction s with
  | nil => rfl
  | cons c s ih =>
    by_cases hc : c = ' '
    · subst hc
      rw [oneBlank, List.dropWhile_cons_of_pos (by simp)]
      split
      · exact ih
      · rw [List.dropWhile_cons_of_pos (by simp), ih]
    · have hone : oneBlank (c :: s) = c :: oneBlank s := if_neg fun hh => hc hh.1
      rw [hone, List.dropWhile_cons_of_neg (by simpa using hc),
        List.dropWhile_cons_of_neg (by simpa using hc), hone]

/-- `trim` is the three stages. -/
theorem trim_eq_trimmed (s : CStr) : trim s = trimmed s := by
  have hdeleted : ∀ c ∈ deleteTabs s, c = ' ' ∨ IsPlain c := fun c hc => by
    have hkept := (List.mem_filter.mp hc).2
    simp only [ne_eq, decide_eq_true_eq] at hkept
    by_cases hblank : c = ' '
    · exact .inl hblank
    · exact .inr ⟨hblank, hkept⟩
  have hfold : (s.foldl trimStep ([], false)).1 =
      (oneBlank (deleteTabs s)).dropWhile (· = ' ') := by
    rw [← foldl_deleteTabs, (fst_foldl_trimStep hdeleted).2, dropWhile_oneBlank]
  -- at most one blank is left at the end
  have hlast := (isTrimmed_iff.mp (isTrimmed_trim s)).2
  have hself : (trim s).rdropWhile (· = ' ') = trim s :=
    List.rdropWhile_eq_self_iff.mpr fun hne => by
      rw [List.getLast?_eq_some_getLast hne] at hlast
      simpa using fun he => hlast (congrArg some he)
  rw [trimmed, stripBlanks, ← hfold]
  rw [trim] at hself ⊢
  split at hself
  · next hblank =>
    obtain ⟨out, hout⟩ := List.getLast?_eq_some_iff.mp hblank
    rw [if_pos hblank]
    rw [hout, List.dropLast_concat] at hself ⊢
    rw [List.rdropWhile_concat_pos _ _ _ (by simp), hself]
  · next hblank => rw [if_neg hblank, hself]

/-- Nothing but words with one blank between two of them. -/
structure Normal (s : CStr) : Prop where
  plain : '\t' ∉ s ∧ '\r' ∉ s ∧ '\n' ∉ s
  single : ¬ [' ', ' '] <:+: s
  head : s.head? ≠ some ' '
  last : s.getLast? ≠ some ' '

theorem IsTrimmed.normal (h : IsTrimmed s) : Normal s where
  plain := by
    refine ⟨h.no_tab, fun hr => ?_, fun hn => ?_⟩
    · exact (h.plain hr).elim (by decide) fun hplain => hplain.2.2.1 rfl
    · exact (h.plain hn).elim (by decide) fun hplain => hplain.2.2.2 rfl
  single := by
    rintro ⟨before, behind, hs⟩
    have htwo : s = before ++ ' ' :: ' ' :: behind := by
      rw [← hs, List.append_assoc]
      rfl
    -- behind the first blank stands a trimmed text, and that does not start with one
    have hbehind := (htwo ▸ h).blank.2.2
    exact (IsTrimmed.blank (s := []) hbehind).1.1 rfl
  head := fun hhead => by
    obtain ⟨rest, rfl⟩ := List.head?_eq_some_iff.mp hhead
    exact (IsTrimmed.blank (s := []) h).1.1 rfl
  last := (isTrimmed_iff.mp h).2

end Stages

/-! ## In the block of the string -/

section Block

variable {b : Block} {s : CStr} {st : CStr × Bool} {i : Nat} {c : Char}

theorem length_trimStep (st : CStr × Bool) (c : Char) :
    (trimStep st c).1.length ≤ st.1.length + 1 := by
  unfold trimStep
  split
  · rw [List.length_append, List.length_singleton]
  · split
    · rw [List.length_append, List.length_singleton]
    · exact Nat.le_succ _

theorem InPlace.trimTurn_eq (hle : st.1.length ≤ i) (hi : i < b.length)
    (hread : b.load i = some c) :
    trimTurn (b.cursor st) i = some (b.cursor (trimStep st c)) := by
  obtain ⟨out, flag⟩ := st
  have hroom : out.length < b.length := Nat.lt_of_le_of_lt hle hi
  have hload : (b.overwrite out).load i = some c := by
    rw [Block.load_overwrite_of_le hle, hread]
  simp only [trimTurn, trimStep, Block.cursor, hload, Option.bind_eq_bind, Option.bind_some,
    Block.store_overwrite hroom, Option.pure_def]
  split
  · rw [List.length_append, List.length_singleton]
  · split
    · rw [List.length_append, List.length_singleton]
    · rfl

/-- The loop of `trim`, as far as it has come: what it has written is what the function of the
text makes of the beginning that was read, and it is not ahead of that. -/
theorem InPlace.trimLoop (hs : b.string = some s) {n : Nat} (hn : n ≤ s.length) :
    (List.range n).foldlM trimTurn { block := b, j := 0, flag := false } =
        some (b.cursor ((s.take n).foldl trimStep ([], false))) ∧
      ((s.take n).foldl trimStep ([], false)).1.length ≤ n :=
  Block.compact length_trimStep (fun _ _ _ => trimTurn_eq)
    (fun _ hi => Block.load_of_string hs hi) (Nat.le_of_lt (Block.length_of_string hs)) false hn

/-- The beginning of a string that an `int` counts. -/
def counted (s : CStr) : CStr := s.take (strlenInt s).toNat

theorem counted_eq (h : s.length < 2 ^ 31) : counted s = s := by
  rw [counted, strlenInt_eq h, Int.toNat_natCast, List.take_length]

theorem counted_append_drop (s : CStr) : counted s ++ s.drop (strlenInt s).toNat = s :=
  List.take_append_drop ..

/-- What is counted of a string is trimmed where it stands; the bytes behind are not written. -/
theorem InPlace.trim_counted (hs : b.string = some s) :
    trim b = some (b.overwrite (Ebotula.trim (counted s) ++ ['\x00'])) := by
  obtain ⟨hloop, hle⟩ := trimLoop hs (strlenInt_le s)
  replace hle := Nat.le_trans hle (strlenInt_le s)
  have hlt := Block.length_of_string hs
  rw [← turns] at hloop
  rw [trim, hs, Option.bind_eq_bind, Option.bind_some, hloop, Ebotula.trim, counted]
  generalize (s.take (strlenInt s).toNat).foldl trimStep ([], false) = st at hle ⊢
  obtain ⟨out, flag⟩ := st
  simp only [Block.cursor, Option.bind_eq_bind, Option.bind_some] at hle ⊢
  rcases List.eq_nil_or_concat out with rfl | ⟨out, last, rfl⟩
  · exact Block.store_overwrite (s := []) (Nat.zero_lt_of_lt hlt)
  · rw [List.concat_eq_append] at hle ⊢
    have hlength : (out ++ [last]).length = out.length + 1 := List.length_append
    have hread : (b.overwrite (out ++ [last])).load out.length = some last := by
      rw [Block.load_overwrite_of_lt (by omega), List.getElem?_concat_length]
    rw [hlength] at hle
    rw [hlength, if_pos (Nat.succ_pos _), Nat.add_sub_cancel, hread, Option.map_some,
      Option.bind_some, List.getLast?_concat]
    by_cases hblank : last = ' '
    · rw [if_pos hblank, if_pos (congrArg some hblank), List.dropLast_concat]
      exact Block.store_last ..
    · rw [if_neg hblank, if_neg fun he => hblank (Option.some.inj he), ← hlength]
      exact Block.store_overwrite (by omega)

/-- A string is trimmed where it stands. -/
theorem InPlace.trim_eq (hs : b.string = some s) (hlen : s.length < 2 ^ 31) :
    trim b = some (b.overwrite (Ebotula.trim s ++ ['\x00'])) := by
  rw [trim_counted hs, counted_eq hlen]

/-- The block with a string and whatever stands behind its NUL. -/
def stringBlock (s : Str) (rest : Block) : Block := s.1.map some ++ some '\x00' :: rest

theorem string_stringBlock (s : Str) (rest : Block) : (stringBlock s rest).string = some s.1 :=
  Block.string_text s.2 rest

/-- What `trim` is to do to a string in its block: the three stages are left, in as many bytes as
before; trimmed once more they stay as they are; they have the normal form; and before every turn
the place that is written next is not behind the one that is read. -/
structure TrimsInPlace (s : Str) (rest : Block) : Prop where
  stages : ∃ b, InPlace.trim (stringBlock s rest) = some b ∧ b.string = some (trimmed s) ∧
    b.length = (stringBlock s rest).length ∧
    ∃ again, InPlace.trim b = some again ∧ again.string = some (trimmed s)
  normal : Normal (trimmed s)
  behind : ∀ i ≤ (turns (strlenInt s)).length, ∃ st, (List.range i).foldlM InPlace.trimTurn
    { block := stringBlock s rest, j := 0, flag := false } = some st ∧ st.j ≤ i

theorem nul_notMem_trim_counted (s : Str) : '\x00' ∉ trim (counted s.1) := fun hmem =>
  s.2 (List.mem_of_mem_take (trim_subset _ hmem))

/-- Trimming what an `int` counts of a string trims all of it, if only white space stands behind. -/
theorem trimmed_eq_iff (s : CStr) :
    trimmed s = trim (counted s) ↔ ∀ c ∈ s.drop (strlenInt s).toNat, ¬ IsPlain c := by
  have happend := @trim_append_eq_iff (counted s) (s.drop (strlenInt s).toNat)
  rwa [counted_append_drop, trim_eq_trimmed s] at happend

/-- What is left in the block is the trimmed string that was counted. -/
theorem TrimsInPlace.eq {s : Str} {rest : Block} (h : TrimsInPlace s rest) :
    trimmed s.1 = trim (counted s.1) := by
  obtain ⟨b, hb, htrimmed, -⟩ := h.stages
  rw [InPlace.trim_counted (string_stringBlock s rest)] at hb
  obtain rfl := Option.some.inj hb
  have hread := Block.string_overwrite (b := stringBlock s rest) (nul_notMem_trim_counted s)
  exact Option.some.inj (htrimmed.symm.trans hread)

theorem TrimsInPlace.of_eq {s : Str} (rest : Block) (h : trimmed s.1 = trim (counted s.1)) :
    TrimsInPlace s rest := by
  have hstring := string_stringBlock s rest
  have hnul := nul_notMem_trim_counted s
  have hread := Block.string_overwrite (b := stringBlock s rest) hnul
  have hcounted : (counted s.1).length < 2 ^ 31 := by
    have hbound := strlenInt_lt s.1
    have htake : (counted s.1).length ≤ (strlenInt s.1).toNat := List.length_take_le _ _
    omega
  refine ⟨⟨_, InPlace.trim_counted hstring, h.symm ▸ hread, ?_, ?_⟩, ?_, fun i hi => ?_⟩
  · refine Block.length_overwrite ?_
    have hlt := Block.length_of_string hstring
    have hle := length_trim_le (counted s.1)
    have htake := List.length_take_le (strlenInt s.1).toNat s.1
    have hcount := strlenInt_le s.1
    rw [counted] at hle ⊢
    rw [List.length_append, List.length_singleton]
    omega
  · have hshort := Nat.lt_of_le_of_lt (length_trim_le (counted s.1)) hcounted
    have hidem : trim (trim (counted s.1)) = trim (counted s.1) := isTrimmed_trim _
    refine ⟨_, InPlace.trim_eq hread hshort, ?_⟩
    rw [hidem, h]
    exact Block.string_overwrite hnul
  · rw [h]
    exact (isTrimmed_trim _).normal
  · rw [turns, List.length_range] at hi
    obtain ⟨hloop, hle⟩ := InPlace.trimLoop hstring (Nat.le_trans hi (strlenInt_le s.1))
    exact ⟨_, hloop, hle⟩

/-- Every string that is shorter than 2 GiB is trimmed. -/
theorem TrimsInPlace.of_short {s : Str} (rest : Block) (h : s.1.length < 2 ^ 31) :
    TrimsInPlace s rest := by
  refine .of_eq rest ((trimmed_eq_iff s.1).mpr ?_)
  rw [strlenInt_eq h, Int.toNat_natCast, List.drop_length]
  exact nofun

/-- `trim` meets its specification in place exactly if nothing but white space stands behind what
an `int` counts of the string. -/
theorem trims_in_place_iff (s : Str) (rest : Block) :
    TrimsInPlace s rest ↔ ∀ c ∈ s.1.drop (strlenInt s).toNat, ¬ IsPlain c :=
  ⟨fun h => (trimmed_eq_iff s.1).mp h.eq, fun h => .of_eq rest ((trimmed_eq_iff s.1).mpr h)⟩

/-- Of 2 GiB of letters nothing is left. -/
theorem letters_are_lost : ¬ ∀ (s : Str) (rest : Block), TrimsInPlace s rest := by
  intro hall
  obtain ⟨s, hlength, hletters⟩ : ∃ s : Str, s.1.length = 2 ^ 31 ∧ ∀ c ∈ s.1, c = 'a' := by
    refine ⟨⟨List.replicate (2 ^ 31) 'a', fun hmem => ?_⟩, List.length_replicate, fun c hc => ?_⟩
    · exact absurd (List.eq_of_mem_replicate hmem) (by decide)
    · exact List.eq_of_mem_replicate hc
  have hnone : (strlenInt s.1).toNat = 0 := by
    unfold strlenInt toInt sizeT
    rw [hlength, Int.bmod_def]
    rfl
  have hwhite := (trimmed_eq_iff s.1).mp (hall s []).eq
  rw [hnone, List.drop_zero] at hwhite
  obtain ⟨c, hc⟩ := List.exists_mem_of_length_pos (l := s.1) (by omega)
  exact hwhite c hc (hletters c hc ▸ by decide)

end Block

end Ebotula
