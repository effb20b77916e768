import Ebotula.Laws.Trim
import Mathlib.Data.Finset.Basic
import Mathlib.Data.Finset.Union

/-!
# The codec of the channel record

A record is a mode line, a topic and a greeting, with tabs between them. The mode line
is read here as what it says: a sign, a set of flags and the words that go with `k` and
`l`. `ModeText` is its text for any list of flags, and one lemma reads it back
(`strToChannelMode_text`), whichever order the letters are in; `channelModeToStr` writes
such a text with the letters in the order of their slots. That a whole record reads back
follows from the two.
-/

set_option autoImplicit false

namespace Ebotula

open Library

/-! ## Flags -/

/-- The channel modes a record can save. -/
inductive Flag
  | keyword | limit | topic | message | moderat | privat | secret | anonym | quiet | reop | invite
  deriving DecidableEq, Repr

namespace Flag

def letter : Flag → Char
  | keyword => 'k'
  | limit => 'l'
  | topic => 't'
  | message => 'n'
  | moderat => 'm'
  | privat => 'p'
  | secret => 's'
  | anonym => 'a'
  | quiet => 'q'
  | reop => 'r'
  | invite => 'i'

/-- The slot of `pModeStr` a flag has. -/
def slot : Flag → ChanModeEnum
  | keyword => .modKeyword
  | limit => .modLimit
  | topic => .modTopic
  | message => .modMessage
  | moderat => .modModerat
  | privat => .modPrivat
  | secret => .modSecret
  | anonym => .modAnonym
  | quiet => .modQuiet
  | reop => .modReop
  | invite => .modInvite

/-- The flags in the order of their slots. -/
def all : List Flag :=
  [keyword, limit, topic, message, moderat, privat, secret, anonym, quiet, reop, invite]

theorem mem_all (f : Flag) : f ∈ all := by cases f <;> decide

theorem letter_ne_blank (f : Flag) : f.letter ≠ ' ' := by cases f <;> decide

end Flag

/-! ## Mode strings -/

/-- The mode string with a sign and a character for each flag. -/
def modeStr (sign : Char) (chars : Flag → Char) : CStr := sign :: Flag.all.map chars

/-- The character that says whether a flag is set: its letter or a blank. -/
def slotChar (flags : Finset Flag) (f : Flag) : Char := if f ∈ flags then f.letter else ' '

section ModeStr

variable {sign c : Char} {chars : Flag → Char} {flags : Finset Flag} {f : Flag}

@[simp] theorem strAt_modeStr_type :
    strAt (modeStr sign chars) ChanModeEnum.modType.ctorIdx = sign := rfl

@[simp] theorem strAt_modeStr : strAt (modeStr sign chars) f.slot.ctorIdx = chars f := by
  cases f <;> rfl

theorem set_modeStr_type :
    (modeStr sign chars).set ChanModeEnum.modType.ctorIdx c = modeStr c chars := rfl

/-- Writing a slot changes the character of its flag. -/
theorem set_modeStr :
    (modeStr sign chars).set f.slot.ctorIdx c = modeStr sign (Function.update chars f c) := by
  cases f <;> simp [modeStr, Flag.all, Flag.slot, ChanModeEnum.ctorIdx]

theorem slotChar_insert :
    Function.update (slotChar flags) f f.letter = slotChar (insert f flags) := by
  funext g
  by_cases h : g = f
  · subst h
    rw [Function.update_self, slotChar, if_pos (Finset.mem_insert_self _ _)]
  · rw [Function.update_of_ne h, slotChar, slotChar]
    exact if_congr (by rw [Finset.mem_insert, or_iff_right h]) rfl rfl

theorem slotChar_erase : Function.update (slotChar flags) f ' ' = slotChar (flags.erase f) := by
  funext g
  by_cases h : g = f
  · subst h
    rw [Function.update_self, slotChar, if_neg (Finset.notMem_erase _ _)]
  · rw [Function.update_of_ne h, slotChar, slotChar]
    exact if_congr (by rw [Finset.mem_erase, and_iff_right h]) rfl rfl

theorem slotChar_eq_blank : slotChar flags f = ' ' ↔ f ∉ flags := by
  rw [slotChar]
  split
  · next h => exact iff_of_false (Flag.letter_ne_blank f) (not_not_intro h)
  · next h => exact iff_of_true rfl h

end ModeStr

/-! ## Well-formed records -/

/-- Each slot has a blank or its own letter, and the keyword and the limit are there
exactly when their flags are. -/
structure ChannelMode.WellFormed (m : ChannelMode) : Prop where
  length : m.pModeStr.length = 12
  sign : strAt m.pModeStr ChanModeEnum.modType.ctorIdx ∈ [' ', '+', '-']
  slot : ∀ f : Flag, strAt m.pModeStr f.slot.ctorIdx = ' ' ∨
    strAt m.pModeStr f.slot.ctorIdx = f.letter
  keyword_iff : m.pKeyword.isSome ↔ strAt m.pModeStr Flag.keyword.slot.ctorIdx = 'k'
  limit_iff : m.pLimit.isSome ↔ strAt m.pModeStr Flag.limit.slot.ctorIdx = 'l'
  keyword : ∀ s ∈ m.pKeyword, IsWord s
  limit : ∀ s ∈ m.pLimit, IsWord s

/-- A well-formed mode, and texts that are either not there or neither empty nor with a
tab. -/
structure ChannelData.WellFormed (d : ChannelData) : Prop where
  modes : d.sModes.WellFormed
  topic : ∀ s ∈ d.pTopic, s ≠ [] ∧ '\t' ∉ s
  greeting : ∀ s ∈ d.pGreeting, s ≠ [] ∧ '\t' ∉ s

/-- The flags of a mode string. -/
def flagsOf (pModeStr : CStr) : Finset Flag :=
  (Flag.all.filter fun f => strAt pModeStr f.slot.ctorIdx = f.letter).toFinset

theorem mem_flagsOf {pModeStr : CStr} {f : Flag} :
    f ∈ flagsOf pModeStr ↔ strAt pModeStr f.slot.ctorIdx = f.letter := by
  simp only [flagsOf, List.mem_toFinset, List.mem_filter, f.mem_all, true_and,
    decide_eq_true_eq]

/-- A well-formed mode string is a sign and a set of flags. -/
theorem ChannelMode.WellFormed.modeStr_eq {m : ChannelMode} (h : m.WellFormed) :
    m.pModeStr = modeStr (strAt m.pModeStr ChanModeEnum.modType.ctorIdx)
      (slotChar (flagsOf m.pModeStr)) := by
  have chars (f : Flag) : slotChar (flagsOf m.pModeStr) f = strAt m.pModeStr f.slot.ctorIdx := by
    rw [slotChar]
    split
    · next hf => exact (mem_flagsOf.mp hf).symm
    · next hf => exact ((h.slot f).resolve_right (mt mem_flagsOf.mpr hf)).symm
  rw [show slotChar (flagsOf m.pModeStr) = fun f => strAt m.pModeStr f.slot.ctorIdx from
    funext chars]
  have hlen := h.length
  match m.pModeStr, hlen with
  | [_, _, _, _, _, _, _, _, _, _, _, _], _ => rfl

/-! ## The text of a mode -/

/-- The words that go with a list of flags, in its order. -/
def flagArgs (pKeyword pLimit : CStr) (fs : List Flag) : List CStr :=
  fs.filterMap fun f =>
    match f with
    | .keyword => some pKeyword
    | .limit => some pLimit
    | _ => none

/-- Words behind a text, each after a blank. -/
def withArgs (text : CStr) (args : List CStr) : CStr := text ++ args.flatMap (' ' :: ·)

theorem withArgs_nil {text : CStr} : withArgs text [] = text := List.append_nil _

theorem withArgs_cons {text arg : CStr} {args : List CStr} :
    withArgs text (arg :: args) = text ++ ' ' :: withArgs arg args := by
  simp only [withArgs, List.flatMap_cons, List.cons_append]

/-- The sign as it is written: a blank is not. -/
def signText (sign : Char) : CStr := if sign = ' ' then [] else [sign]

/-- A mode line: the sign, the letters and their words. -/
def modeText (sign : Char) (fs : List Flag) (pKeyword pLimit : CStr) : CStr :=
  withArgs (signText sign ++ fs.map Flag.letter) (flagArgs pKeyword pLimit fs)

/-- Distinct flags have two words at most. -/
theorem length_flagArgs {pKeyword pLimit : CStr} {fs : List Flag} (h : fs.Nodup) :
    (flagArgs pKeyword pLimit fs).length ≤ 2 := by
  have hlen : (flagArgs pKeyword pLimit fs).length =
      (fs.filter (· ∈ [Flag.keyword, .limit])).length := by
    clear h
    induction fs with
    | nil => rfl
    | cons f fs ih => cases f <;> simp [flagArgs] at ih ⊢ <;> exact ih
  rw [hlen]
  have hsub : fs.filter (· ∈ [Flag.keyword, .limit]) ⊆ [.keyword, .limit] := fun f hf =>
    of_decide_eq_true (List.mem_filter.mp hf).2
  exact (h.filter _).length_le_of_subset hsub

/-! ### Reading it -/

theorem splitArgv_none (n : Nat) : splitArgv n none = List.replicate n none := by
  induction n with
  | zero => rfl
  | succ n ih => rw [splitArgv, ih, List.replicate_succ]

/-- Splitting a line gives its words, and NULL where there are no more. -/
theorem splitArgv_withArgs {n : Nat} {text : CStr} {args : List CStr} (hlen : args.length ≤ n)
    (htext : ' ' ∉ text) (hargs : ∀ arg ∈ args, ' ' ∉ arg) :
    splitArgv (n + 1) (some (withArgs text args)) =
      some text :: args.map some ++ List.replicate (n - args.length) none := by
  induction args generalizing n text with
  | nil =>
    simp only [withArgs_nil, splitArgv, cutFirst_eq_none_iff.mpr htext, splitArgv_none,
      List.map_nil, List.length_nil, Nat.sub_zero, List.singleton_append]
  | cons arg args ih =>
    obtain ⟨n, rfl⟩ : ∃ k, n = k + 1 := ⟨n - 1, by rw [List.length_cons] at hlen; omega⟩
    rw [List.length_cons, Nat.add_le_add_iff_right] at hlen
    rw [withArgs_cons, splitArgv, cutFirst_append _ htext]
    dsimp only
    rw [ih hlen (hargs arg List.mem_cons_self) fun x hx => hargs x (List.mem_cons_of_mem _ hx)]
    simp only [List.map_cons, List.length_cons, Nat.add_sub_add_right, List.cons_append]

section Letters

variable {ppArgv : List (Option CStr)} {sign : Char} {flags : Finset Flag} {k l : Option CStr}
  {j : Nat} {f : Flag} {fs : List Flag} {pKeyword pLimit : CStr}

/-- A letter without a word sets its slot. -/
theorem strToChannelModeStep_letter (hk : f ≠ .keyword) (hl : f ≠ .limit) :
    strToChannelModeStep ppArgv (⟨modeStr sign (slotChar flags), k, l⟩, j) f.letter =
      some (⟨modeStr sign (slotChar (insert f flags)), k, l⟩, j) := by
  have hslot : strToChannelModeStep ppArgv (⟨modeStr sign (slotChar flags), k, l⟩, j) f.letter =
      some (⟨(modeStr sign (slotChar flags)).set f.slot.ctorIdx f.letter, k, l⟩, j) := by
    cases f <;> first | rfl | exact absurd rfl hk | exact absurd rfl hl
  rw [hslot, set_modeStr, slotChar_insert]

theorem strToChannelModeStep_keyword (harg : ppArgv[j]? = some (some pKeyword)) :
    strToChannelModeStep ppArgv (⟨modeStr sign (slotChar flags), k, l⟩, j) Flag.keyword.letter =
      some (⟨modeStr sign (slotChar (insert .keyword flags)), some pKeyword, l⟩, j + 1) := by
  rw [← slotChar_insert, ← set_modeStr]
  simp only [Flag.letter, strToChannelModeStep, harg, Option.join_some, Option.map_some]
  rfl

theorem strToChannelModeStep_limit (harg : ppArgv[j]? = some (some pLimit)) :
    strToChannelModeStep ppArgv (⟨modeStr sign (slotChar flags), k, l⟩, j) Flag.limit.letter =
      some (⟨modeStr sign (slotChar (insert .limit flags)), k, some pLimit⟩, j + 1) := by
  rw [← slotChar_insert, ← set_modeStr]
  simp only [Flag.letter, strToChannelModeStep, harg, Option.join_some, Option.map_some]
  rfl

/-- The argument the counter stands at, and the ones after it. -/
theorem next_arg {arg : Option CStr} {rest : List (Option CStr)} (h : ppArgv.drop j = arg :: rest) :
    ppArgv[j]? = some arg ∧ ppArgv.drop (j + 1) = rest := by
  refine ⟨?_, ?_⟩
  · rw [← Nat.add_zero j, ← List.getElem?_drop, h]
    rfl
  · rw [← List.drop_drop, h]
    rfl

/-- The loop over the letters sets their flags and takes a word for each `k` and `l`. -/
theorem foldlM_letters {tail : List (Option CStr)}
    (hargs : ppArgv.drop j = (flagArgs pKeyword pLimit fs).map some ++ tail) :
    (fs.map Flag.letter).foldlM (strToChannelModeStep ppArgv)
        (⟨modeStr sign (slotChar flags), k, l⟩, j) =
      some (⟨modeStr sign (slotChar (flags ∪ fs.toFinset)),
        if .keyword ∈ fs then some pKeyword else k, if .limit ∈ fs then some pLimit else l⟩,
        j + (flagArgs pKeyword pLimit fs).length) := by
  induction fs generalizing flags k l j with
  | nil => simp only [List.map_nil, List.foldlM_nil, List.toFinset_nil, Finset.union_empty,
      List.not_mem_nil, if_false, flagArgs, List.filterMap_nil, List.length_nil, Nat.add_zero]; rfl
  | cons f fs ih =>
    rw [List.map_cons, List.foldlM_cons, List.toFinset_cons, Finset.union_insert,
      ← Finset.insert_union]
    by_cases hk : f = .keyword
    · subst hk
      obtain ⟨harg, hrest⟩ := next_arg hargs
      rw [strToChannelModeStep_keyword harg, Option.bind_eq_bind, Option.bind_some, ih hrest]
      simp [flagArgs]
      omega
    · by_cases hl : f = .limit
      · subst hl
        obtain ⟨harg, hrest⟩ := next_arg hargs
        rw [strToChannelModeStep_limit harg, Option.bind_eq_bind, Option.bind_some, ih hrest]
        simp [flagArgs]
        omega
      · have hskip : flagArgs pKeyword pLimit (f :: fs) = flagArgs pKeyword pLimit fs := by
          cases f <;> first | rfl | exact absurd rfl hk | exact absurd rfl hl
        rw [hskip] at hargs ⊢
        rw [strToChannelModeStep_letter hk hl, Option.bind_eq_bind, Option.bind_some, ih hargs]
        simp only [List.mem_cons, Ne.symm hk, Ne.symm hl, false_or]

end Letters

/-- The mode a sign and a list of flags stand for. -/
def modeOf (sign : Char) (fs : List Flag) (pKeyword pLimit : CStr) : ChannelMode :=
  ⟨modeStr sign (slotChar fs.toFinset), if .keyword ∈ fs then some pKeyword else none,
    if .limit ∈ fs then some pLimit else none⟩

theorem mem_flagArgs {fs : List Flag} {pKeyword pLimit arg : CStr}
    (h : arg ∈ flagArgs pKeyword pLimit fs) :
    (.keyword ∈ fs ∧ arg = pKeyword) ∨ (.limit ∈ fs ∧ arg = pLimit) := by
  obtain ⟨f, hf, heq⟩ := List.mem_filterMap.mp h
  cases f <;> cases heq
  · exact .inl ⟨hf, rfl⟩
  · exact .inr ⟨hf, rfl⟩

theorem blank_notMem_letters {sign : Char} {fs : List Flag} :
    ' ' ∉ signText sign ++ fs.map Flag.letter := by
  rw [List.mem_append, not_or, signText]
  refine ⟨?_, fun h => ?_⟩
  · split
    · exact List.not_mem_nil
    · next h => simpa only [List.mem_singleton] using Ne.symm h
  · obtain ⟨f, -, hf⟩ := List.mem_map.mp h
    exact f.letter_ne_blank hf

/-- A mode line reads back as what it was written for, whatever the order of its letters. -/
theorem strToChannelMode_text {sign : Char} {fs : List Flag} {pKeyword pLimit : CStr}
    (hsign : sign ∈ [' ', '+', '-']) (hfs : fs.Nodup) (hk : .keyword ∈ fs → ' ' ∉ pKeyword)
    (hl : .limit ∈ fs → ' ' ∉ pLimit) :
    strToChannelMode (modeText sign fs pKeyword pLimit) =
      some (modeOf sign fs pKeyword pLimit) := by
  have hargs (arg : CStr) (h : arg ∈ flagArgs pKeyword pLimit fs) : ' ' ∉ arg := by
    rcases mem_flagArgs h with ⟨hf, rfl⟩ | ⟨hf, rfl⟩
    · exact hk hf
    · exact hl hf
  have hlen : (flagArgs pKeyword pLimit fs).length ≤ 2 := length_flagArgs hfs
  have hletters : ' ' ∉ signText sign ++ fs.map Flag.letter := blank_notMem_letters
  have hsplit := splitArgv_withArgs hlen hletters hargs
  rw [strToChannelMode, modeText, hsplit]
  simp only [List.cons_append, List.head?_cons, Option.join_some, List.foldlM_append]
  -- the sign goes into the first slot
  have hfirst (ppArgv : List (Option CStr)) : (signText sign).foldlM (strToChannelModeStep ppArgv)
      (emptyChannelMode, 1) = some (⟨modeStr sign (slotChar ∅), none, none⟩, 1) := by
    simp only [List.mem_cons, List.not_mem_nil, or_false] at hsign
    rcases hsign with rfl | rfl | rfl <;> rfl
  rw [hfirst, Option.bind_eq_bind, Option.bind_some, foldlM_letters rfl, Option.map_some,
    Finset.empty_union, modeOf]

/-! ### Writing it -/

theorem clearspace_fold (out : CStr) {s : CStr} (h : '"' ∉ s) :
    s.foldl clearspaceStep (out, false) = (out ++ s.filter (· ≠ ' '), false) := by
  induction s generalizing out with
  | nil => simp only [List.foldl_nil, List.filter_nil, List.append_nil]
  | cons c s ih =>
    have hc : c ≠ '"' := fun e => h (e ▸ List.mem_cons_self)
    have hs : '"' ∉ s := fun m => h (List.mem_cons_of_mem _ m)
    by_cases hb : c = ' '
    · subst hb
      rw [List.foldl_cons, List.filter_cons_of_neg (by decide)]
      exact ih out hs
    · have hstep : clearspaceStep (out, false) c = (out ++ [c], false) := by
        simp only [clearspaceStep, ne_eq, hb, hc, not_false_eq_true, Bool.false_eq_true, or_false,
          if_true, false_and, if_false]
      rw [List.foldl_cons, hstep, ih _ hs, List.filter_cons_of_pos (by exact decide_eq_true hb),
        List.append_assoc, List.singleton_append]

/-- Without quotation marks `clearspace` removes the blanks. -/
theorem clearspace_eq {s : CStr} (h : '"' ∉ s) : clearspace s = s.filter (· ≠ ' ') := by
  rw [clearspace, clearspace_fold [] h, List.nil_append]

/-- Words behind a text that is not empty stay as they are. -/
theorem trim_fold_args {out : CStr} {args : List CStr} (h : ∀ arg ∈ args, IsWord arg) :
    (args.flatMap (' ' :: ·)).foldl trimStep (out, true) =
      (out ++ args.flatMap (' ' :: ·), true) := by
  induction args generalizing out with
  | nil => simp only [List.flatMap_nil, List.foldl_nil, List.append_nil]
  | cons arg args ih =>
    obtain ⟨hne, hplain⟩ := h arg List.mem_cons_self
    have hword : arg.foldl trimStep (out ++ [' '], false) = (out ++ ' ' :: arg, true) := by
      rw [trim_fold_plain hplain, List.append_assoc, List.singleton_append,
        List.isEmpty_eq_false_iff.mpr hne]
      rfl
    rw [List.flatMap_cons, List.cons_append, List.foldl_cons, List.foldl_append]
    rw [show trimStep (out, true) ' ' = (out ++ [' '], false) from rfl, hword,
      ih fun x hx => h x (List.mem_cons_of_mem _ hx)]
    simp only [List.append_assoc, List.cons_append]

/-- A mode line is left as it is. -/
theorem trim_withArgs {text : CStr} {args : List CStr} (htext : ∀ c ∈ text, IsPlain c)
    (hargs : ∀ arg ∈ args, IsWord arg) (hne : args ≠ [] → text ≠ []) :
    trim (withArgs text args) = withArgs text args := by
  by_cases htext' : text = []
  · have hnil : args = [] := by
      by_contra h
      exact hne h htext'
    subst htext' hnil
    rfl
  · have hfold : (withArgs text args).foldl trimStep ([], false) = (withArgs text args, true) := by
      rw [withArgs, List.foldl_append, trim_fold_plain htext, List.nil_append,
        List.isEmpty_eq_false_iff.mpr htext', Bool.not_false, Bool.or_true, trim_fold_args hargs]
    have hlast := @trim_fold_last (withArgs text args) ([], false) fun h => by cases h
    rw [hfold] at hlast
    rw [trim, hfold]
    exact if_neg (hlast rfl)

/-- The flags that are set, in the order of their slots. -/
def setFlags (flags : Finset Flag) : List Flag := Flag.all.filter (· ∈ flags)

@[simp] theorem mem_setFlags {flags : Finset Flag} {f : Flag} : f ∈ setFlags flags ↔ f ∈ flags := by
  simp only [setFlags, List.mem_filter, f.mem_all, true_and, decide_eq_true_eq]

theorem nodup_setFlags (flags : Finset Flag) : (setFlags flags).Nodup :=
  (by decide : Flag.all.Nodup).filter _

theorem toFinset_setFlags (flags : Finset Flag) : (setFlags flags).toFinset = flags := by
  ext f
  rw [List.mem_toFinset, mem_setFlags]

theorem letter_plain (f : Flag) : IsPlain f.letter := by cases f <;> decide

/-- Taking the blanks out of a mode string leaves the sign and the letters. -/
theorem clearspace_modeStr {sign : Char} {flags : Finset Flag} (hsign : sign ∈ [' ', '+', '-']) :
    clearspace (modeStr sign (slotChar flags)) =
      signText sign ++ (setFlags flags).map Flag.letter := by
  have letters (fs : List Flag) : (fs.map (slotChar flags)).filter (· ≠ ' ') =
      (fs.filter (· ∈ flags)).map Flag.letter := by
    induction fs with
    | nil => rfl
    | cons f fs ih =>
      rw [List.map_cons, List.filter_cons, List.filter_cons, ih]
      by_cases hf : f ∈ flags
      · simp only [slotChar, hf, if_true, ne_eq, f.letter_ne_blank, not_false_eq_true, decide_true,
          List.map_cons]
      · simp only [slotChar, hf, if_false, ne_eq, not_true_eq_false, decide_false,
          Bool.false_eq_true]
  have noQuote : '"' ∉ modeStr sign (slotChar flags) := by
    rw [modeStr, List.mem_cons, not_or]
    refine ⟨fun h => absurd (h ▸ hsign) (by decide), fun h => ?_⟩
    obtain ⟨f, -, hf⟩ := List.mem_map.mp h
    rw [slotChar] at hf
    split at hf
    · cases f <;> exact absurd hf (by decide)
    · exact absurd hf (by decide)
  rw [clearspace_eq noQuote, modeStr, List.filter_cons, letters]
  by_cases hb : sign = ' '
  · simp only [hb, signText, ne_eq, not_true_eq_false, decide_false, Bool.false_eq_true, if_false,
      if_true, List.nil_append]
    rfl
  · simp only [hb, signText, ne_eq, not_false_eq_true, decide_true, if_true, if_false,
      List.singleton_append]
    rfl

theorem flagArgs_setFlags {flags : Finset Flag} {pKeyword pLimit : CStr} :
    flagArgs pKeyword pLimit (setFlags flags) =
      (if .keyword ∈ flags then [pKeyword] else []) ++
        (if .limit ∈ flags then [pLimit] else []) := by
  have others : flagArgs pKeyword pLimit ((Flag.all.drop 2).filter (· ∈ flags)) = [] := by
    refine List.filterMap_eq_nil_iff.mpr fun f hf => ?_
    have hmem := (List.mem_filter.mp hf).1
    cases f <;> first | rfl | exact absurd hmem (by decide)
  have hsplit : setFlags flags = [Flag.keyword].filter (· ∈ flags) ++
      ([Flag.limit].filter (· ∈ flags) ++ (Flag.all.drop 2).filter (· ∈ flags)) := by
    rw [← List.filter_append, ← List.filter_append]
    rfl
  rw [hsplit, flagArgs, List.filterMap_append, List.filterMap_append]
  rw [flagArgs] at others
  rw [others, List.append_nil]
  by_cases hk : Flag.keyword ∈ flags <;> by_cases hl : Flag.limit ∈ flags <;>
    simp only [hk, hl, List.filter_cons, List.filter_nil, decide_true, decide_false, if_true,
      Bool.false_eq_true, if_false, List.filterMap_cons, List.filterMap_nil]

/-- A mode is written as its sign, its letters in the order of their slots and their
words. -/
theorem channelModeToStr_modeOf {sign : Char} {flags : Finset Flag} {pKeyword pLimit : CStr}
    (hsign : sign ∈ [' ', '+', '-']) (hk : .keyword ∈ flags → IsWord pKeyword)
    (hl : .limit ∈ flags → IsWord pLimit) :
    channelModeToStr (modeOf sign (setFlags flags) pKeyword pLimit) =
      modeText sign (setFlags flags) pKeyword pLimit := by
  let text := signText sign ++ (setFlags flags).map Flag.letter
  have letter_mem {f : Flag} (hf : f ∈ flags) : f.letter ∈ text :=
    List.mem_append_right _ (List.mem_map_of_mem (mem_setFlags.mpr hf))
  have htext : ∀ c ∈ text, IsPlain c := by
    intro c hc
    rcases List.mem_append.mp hc with hc | hc
    · rw [signText] at hc
      split at hc
      · cases hc
      · next hb =>
        obtain rfl := List.mem_singleton.mp hc
        simp only [List.mem_cons, hb, List.not_mem_nil, or_false, false_or] at hsign
        rcases hsign with rfl | rfl <;> decide
    · obtain ⟨f, -, rfl⟩ := List.mem_map.mp hc
      exact letter_plain f
  have hargs : ∀ arg ∈ flagArgs pKeyword pLimit (setFlags flags), IsWord arg := by
    intro arg harg
    rcases mem_flagArgs harg with ⟨hf, rfl⟩ | ⟨hf, rfl⟩
    · exact hk (mem_setFlags.mp hf)
    · exact hl (mem_setFlags.mp hf)
  have hne : flagArgs pKeyword pLimit (setFlags flags) ≠ [] → text ≠ [] := by
    intro hargs htext
    obtain ⟨arg, harg⟩ := List.exists_mem_of_ne_nil _ hargs
    rcases mem_flagArgs harg with ⟨hf, -⟩ | ⟨hf, -⟩ <;>
      exact absurd (letter_mem (mem_setFlags.mp hf)) (by rw [htext]; exact List.not_mem_nil)
  -- before it is trimmed the line is the text with the words behind it
  rw [modeText, ← trim_withArgs htext hargs hne, channelModeToStr]
  refine congrArg trim ?_
  rw [modeOf, toFinset_setFlags, clearspace_modeStr hsign, flagArgs_setFlags]
  simp only [mem_setFlags, show signText sign ++ (setFlags flags).map Flag.letter = text from rfl]
  clear_value text
  by_cases hk' : Flag.keyword ∈ flags
  · have hmemk : 'k' ∈ text := letter_mem hk'
    simp only [hk', if_true, hmemk]
    by_cases hl' : Flag.limit ∈ flags
    · have hmeml : 'l' ∈ text ++ ' ' :: pKeyword := List.mem_append_left _ (letter_mem hl')
      simp only [hl', if_true, hmeml, List.singleton_append, withArgs_cons, withArgs_nil]
      rw [List.append_assoc, List.cons_append]
    · simp only [hl', if_false, List.append_nil, withArgs_cons, withArgs_nil]
  · simp only [hk', if_false, List.nil_append]
    by_cases hl' : Flag.limit ∈ flags
    · have hmeml : 'l' ∈ text := letter_mem hl'
      simp only [hl', if_true, hmeml, withArgs_cons, withArgs_nil]
    · simp only [hl', if_false, withArgs_nil]

/-! ## The record -/

/-- A well-formed mode is the one its sign, its flags and its words stand for. -/
theorem ChannelMode.WellFormed.eq_modeOf {m : ChannelMode} (h : m.WellFormed) :
    m = modeOf (strAt m.pModeStr ChanModeEnum.modType.ctorIdx) (setFlags (flagsOf m.pModeStr))
      (m.pKeyword.getD []) (m.pLimit.getD []) := by
  have words {arg : Option CStr} {f : Flag} (hiff : arg.isSome ↔ f ∈ flagsOf m.pModeStr) :
      arg = if f ∈ setFlags (flagsOf m.pModeStr) then some (arg.getD []) else none := by
    cases arg with
    | none => exact (if_neg fun hf => Bool.false_ne_true (hiff.mpr (mem_setFlags.mp hf))).symm
    | some s => exact (if_pos (mem_setFlags.mpr (hiff.mp rfl))).symm
  obtain ⟨pModeStr, pKeyword, pLimit⟩ := m
  refine ChannelMode.mk.injEq .. |>.mpr ⟨?_, ?_, ?_⟩
  · rw [toFinset_setFlags]
    exact h.modeStr_eq
  · exact words (h.keyword_iff.trans mem_flagsOf.symm)
  · exact words (h.limit_iff.trans mem_flagsOf.symm)

namespace ChannelMode.WellFormed

variable {m : ChannelMode}

theorem keyword_word (h : m.WellFormed) (hf : .keyword ∈ flagsOf m.pModeStr) :
    IsWord (m.pKeyword.getD []) := by
  obtain ⟨s, hs⟩ := Option.isSome_iff_exists.mp (h.keyword_iff.mpr (mem_flagsOf.mp hf))
  rw [hs, Option.getD_some]
  exact h.keyword s hs

theorem limit_word (h : m.WellFormed) (hf : .limit ∈ flagsOf m.pModeStr) :
    IsWord (m.pLimit.getD []) := by
  obtain ⟨s, hs⟩ := Option.isSome_iff_exists.mp (h.limit_iff.mpr (mem_flagsOf.mp hf))
  rw [hs, Option.getD_some]
  exact h.limit s hs

theorem channelModeToStr_eq (h : m.WellFormed) : channelModeToStr m =
    modeText (strAt m.pModeStr ChanModeEnum.modType.ctorIdx) (setFlags (flagsOf m.pModeStr))
      (m.pKeyword.getD []) (m.pLimit.getD []) := by
  conv_lhs => rw [h.eq_modeOf]
  exact channelModeToStr_modeOf h.sign h.keyword_word h.limit_word

/-- A mode that is written reads back. -/
theorem strToChannelMode (h : m.WellFormed) :
    strToChannelMode (channelModeToStr m) = some m := by
  have blankless {s : CStr} (hs : IsWord s) : ' ' ∉ s := fun hb => (hs.2 _ hb).1 rfl
  rw [h.channelModeToStr_eq, strToChannelMode_text h.sign (nodup_setFlags _)
    (fun hf => blankless (h.keyword_word (mem_setFlags.mp hf)))
    (fun hf => blankless (h.limit_word (mem_setFlags.mp hf))), ← h.eq_modeOf]

/-- A mode line has no tab. -/
theorem tab_notMem (h : m.WellFormed) : '\t' ∉ channelModeToStr m := by
  have hsign := h.sign
  rw [h.channelModeToStr_eq, modeText, withArgs, List.mem_append, List.mem_append, not_or, not_or]
  refine ⟨⟨fun hmem => ?_, fun hmem => ?_⟩, fun hmem => ?_⟩
  · rw [signText] at hmem
    split at hmem
    · cases hmem
    · rw [← List.mem_singleton.mp hmem] at hsign
      exact absurd hsign (by decide)
  · obtain ⟨f, -, hf⟩ := List.mem_map.mp hmem
    exact absurd hf (letter_plain f).2.1
  · obtain ⟨arg, harg, hmem⟩ := List.mem_flatMap.mp hmem
    have hword : IsWord arg := by
      rcases mem_flagArgs harg with ⟨hf, rfl⟩ | ⟨hf, rfl⟩
      · exact h.keyword_word (mem_setFlags.mp hf)
      · exact h.limit_word (mem_setFlags.mp hf)
    rcases List.mem_cons.mp hmem with hmem | hmem
    · exact absurd hmem (by decide)
    · exact (hword.2 _ hmem).2.1 rfl

end ChannelMode.WellFormed

section Record

variable {modes topic greeting : CStr}

/-- A record with three texts. -/
theorem getChannelMode_record (hm : '\t' ∉ modes) :
    getChannelMode (modes ++ '\t' :: topic ++ '\t' :: greeting) = modes := by
  rw [getChannelMode, List.append_assoc, List.cons_append, cutFirst_append _ hm]

theorem getTopic_record (hm : '\t' ∉ modes) (ht : '\t' ∉ topic) :
    getTopic (modes ++ '\t' :: topic ++ '\t' :: greeting) =
      if topic.isEmpty then none else some topic := by
  rw [getTopic, List.append_assoc, List.cons_append, cutFirst_append _ hm]
  dsimp only
  rw [cutFirst_append _ ht]

theorem getGreeting_record (hg : '\t' ∉ greeting) :
    getGreeting (modes ++ '\t' :: topic ++ '\t' :: greeting) =
      if greeting.isEmpty then none else some greeting := by
  rw [getGreeting, cutLast_append _ hg]

/-- A text that is not empty is told from one that is not there. -/
theorem text_or_none {text : Option CStr} (h : ∀ s ∈ text, s ≠ [] ∧ '\t' ∉ s) :
    '\t' ∉ text.getD [] ∧
      (if (text.getD []).isEmpty then none else some (text.getD [])) = text := by
  cases text with
  | none => exact ⟨List.not_mem_nil, rfl⟩
  | some s =>
    obtain ⟨hne, htab⟩ := h s rfl
    exact ⟨htab, if_neg (by rwa [Option.getD_some, List.isEmpty_iff])⟩

end Record

/-- A well-formed record that is written reads back in all its parts. -/
theorem strToChannelData_back {d : ChannelData} (h : d.WellFormed) :
    strToChannelData (channelDataToStr d) = some d := by
  obtain ⟨htopic, htopic'⟩ := text_or_none h.topic
  obtain ⟨hgreeting, hgreeting'⟩ := text_or_none h.greeting
  rw [strToChannelData, channelDataToStr, getChannelMode_record h.modes.tab_notMem,
    getTopic_record h.modes.tab_notMem htopic, getGreeting_record hgreeting, htopic', hgreeting',
    h.modes.strToChannelMode, Option.map_some]

end Ebotula
