import Ebotula.Laws.ChanMode
import Ebotula.Laws.Lines

/-!
# The arguments of a mode line

`StrToChannelMode` cuts its line into three parts and takes the next part for every `k` and
`l` in the first. It never asks whether there is a next part. Which parts there are is a
matter of the blanks of the line, and which are asked for one of its letters; the two are
compared here, for every line.
-/

set_option autoImplicit false

namespace Ebotula

open Library

/-! ## The parts -/

/-- The part of a mode line with its letters: `ppArgv[0]`. -/
def modeLetters (text : CStr) : CStr := text.takeWhile (· ≠ ' ')

/-- The letters that take a part of the line with them. -/
def takesPart (c : Char) : Bool := c = 'k' || c = 'l'

/-- The letters of the line take no more parts than there are, and no more than the array
has room for. -/
def PartsGiven (text : CStr) : Prop :=
  (modeLetters text).countP takesPart ≤ min 2 (text.count ' ')

instance (text : CStr) : Decidable (PartsGiven text) := inferInstanceAs (Decidable (_ ≤ _))

section Parts

variable {text a b : CStr} {n i : Nat}

/-- So it is where each of the two letters occurs once at most, and has its part. -/
theorem partsGiven_of_once (hk : (modeLetters text).count 'k' ≤ 1)
    (hl : (modeLetters text).count 'l' ≤ 1)
    (hparts : (modeLetters text).countP takesPart ≤ text.count ' ') : PartsGiven text := by
  have hsum (s : CStr) : s.countP takesPart ≤ s.count 'k' + s.count 'l' := by
    induction s with
    | nil => exact Nat.le_refl 0
    | cons c s ih =>
      simp only [List.countP_cons, List.count_cons, takesPart, beq_iff_eq, Bool.or_eq_true,
        decide_eq_true_eq]
      by_cases hck : c = 'k' <;> by_cases hcl : c = 'l' <;> simp only [hck, hcl, if_true,
        if_false, or_true, or_false, true_or] <;> omega
  have := hsum (modeLetters text)
  rw [PartsGiven]
  omega

theorem modeLetters_blank (h : ' ' ∉ a) : modeLetters (a ++ ' ' :: b) = a := by
  rw [modeLetters, List.takeWhile_append_of_pos, List.takeWhile_cons]
  · simp
  · exact fun c hc => decide_eq_true fun e : c = ' ' => h (e ▸ hc)

theorem modeLetters_word (h : ' ' ∉ a) : modeLetters a = a :=
  List.takeWhile_eq_self_iff.mpr fun _ hc => decide_eq_true fun e => h (e ▸ hc)

theorem head_splitArgv :
    (splitArgv (n + 1) (some text)).head? = some (some (modeLetters text)) := by
  rw [splitArgv]
  cases hcut : cutFirst ' ' text with
  | none => rw [modeLetters_word (cutFirst_eq_none_iff.mp hcut)]; rfl
  | some split =>
    obtain ⟨word, rest⟩ := split
    obtain ⟨hword, rfl⟩ := cutFirst_eq_some_iff.mp hcut
    rw [modeLetters_blank hword]
    rfl

/-- There is a part for every blank and one more, as far as there is room. -/
theorem splitArgv_isSome :
    ((splitArgv n (some text))[i]?.join).isSome = true ↔ i < n ∧ i ≤ text.count ' ' := by
  induction n generalizing text i with
  | zero => simp [splitArgv]
  | succ n ih =>
    rw [splitArgv]
    cases hcut : cutFirst ' ' text with
    | none =>
      have hcount : text.count ' ' = 0 := List.count_eq_zero.mpr (cutFirst_eq_none_iff.mp hcut)
      rw [splitArgv_none, hcount]
      cases i with
      | zero => simp
      | succ i =>
        refine iff_of_false ?_ (by omega)
        rw [List.getElem?_cons_succ, List.getElem?_replicate]
        split <;> simp
    | some split =>
      obtain ⟨word, rest⟩ := split
      obtain ⟨hword, rfl⟩ := cutFirst_eq_some_iff.mp hcut
      have hcount : (word ++ ' ' :: rest).count ' ' = rest.count ' ' + 1 := by
        rw [List.count_append, List.count_eq_zero.mpr hword, List.count_cons_self, Nat.zero_add]
      rw [hcount]
      cases i with
      | zero => simp
      | succ i =>
        rw [List.getElem?_cons_succ, ih]
        omega

/-- The parts of a trimmed line are words. -/
theorem mem_splitArgv (hne : text ≠ []) (htrim : IsTrimmed text)
    (h : some a ∈ splitArgv n (some text)) : IsWord a := by
  induction n generalizing text with
  | zero => cases h
  | succ n ih =>
    rw [splitArgv] at h
    cases hcut : cutFirst ' ' text with
    | none =>
      rw [hcut] at h
      rcases List.mem_cons.mp h with heq | hmem
      · cases heq
        exact htrim.isWord hne (cutFirst_eq_none_iff.mp hcut)
      · rw [splitArgv_none] at hmem
        cases (List.mem_replicate.mp hmem).2
    | some split =>
      obtain ⟨word, rest⟩ := split
      obtain ⟨hword, rfl⟩ := cutFirst_eq_some_iff.mp hcut
      obtain ⟨⟨hne', htrim'⟩, hrest⟩ := htrim.blank
      rw [hcut] at h
      rcases List.mem_cons.mp h with heq | hmem
      · cases heq
        exact htrim'.isWord hne' hword
      · exact ih hrest.1 hrest.2 hmem

end Parts

/-! ## The loop over the letters -/

section Loop

variable {ppArgv : List (Option CStr)} {letters : CStr} {st st' : ChannelMode × Nat} {c : Char}
  {m : ChannelMode} {j n : Nat}

/-- A turn of the loop fails where its letter takes a part that is not there. -/
theorem strToChannelModeStep_isSome : (strToChannelModeStep ppArgv (m, j) c).isSome = true ↔
    (takesPart c = true → (ppArgv[j]?.join).isSome = true) := by
  unfold strToChannelModeStep takesPart
  dsimp only
  split
  case h_14 hk hl _ _ _ _ _ _ _ _ _ =>
    simp [show c ≠ 'k' from hk, show c ≠ 'l' from hl]
  all_goals simp

/-- It moves on by one part with such a letter. -/
theorem strToChannelModeStep_index (h : strToChannelModeStep ppArgv (m, j) c = some st) :
    st.2 = j + if takesPart c then 1 else 0 := by
  unfold strToChannelModeStep at h
  dsimp only at h
  split at h
  case h_3 | h_4 =>
    obtain ⟨arg, -, rfl⟩ := Option.map_eq_some_iff.mp h
    rfl
  case h_14 hk hl _ _ _ _ _ _ _ _ _ =>
    cases h
    simp [takesPart, show c ≠ 'k' from hk, show c ≠ 'l' from hl]
  all_goals
    cases h
    rfl

/-- With `n` parts behind the letters the loop ends well if it takes no more. -/
theorem foldlM_isSome (hparts : ∀ i, (ppArgv[i]?.join).isSome = true ↔ i ≤ n)
    (hj : j ≤ n + 1) : (letters.foldlM (strToChannelModeStep ppArgv) (m, j)).isSome = true ↔
      j + letters.countP takesPart ≤ n + 1 := by
  induction letters generalizing m j with
  | nil => simpa using hj
  | cons c letters ih =>
    have hone : (strToChannelModeStep ppArgv (m, j) c).isSome = true ↔
        (takesPart c = true → j ≤ n) := by
      rw [strToChannelModeStep_isSome, hparts]
    rw [List.foldlM_cons, List.countP_cons]
    cases hstep : strToChannelModeStep ppArgv (m, j) c with
    | none =>
      rw [hstep] at hone
      have htakes : takesPart c = true ∧ ¬ j ≤ n := by simpa using hone
      rw [if_pos htakes.1]
      refine iff_of_false Bool.false_ne_true ?_
      omega
    | some st =>
      have hindex := strToChannelModeStep_index hstep
      rw [hstep] at hone
      have hroom := hone.mp rfl
      have hj' : st.2 ≤ n + 1 := by
        split at hindex
        · next htakes =>
          have := hroom htakes
          omega
        · omega
      have hrest := @ih st.1 st.2 hj'
      rw [Option.bind_eq_bind, Option.bind_some, hrest, hindex]
      omega

/-- The loop ends well exactly if every letter that takes a part finds one. -/
theorem foldlM_reads {st : ChannelMode × Nat} :
    (∀ before c after st', letters = before ++ c :: after → takesPart c = true →
      before.foldlM (strToChannelModeStep ppArgv) st = some st' →
      (ppArgv[st'.2]?.join).isSome = true) ↔
    (letters.foldlM (strToChannelModeStep ppArgv) st).isSome = true := by
  induction letters generalizing st with
  | nil => exact iff_of_true (fun before _ _ _ h => by cases before <;> cases h) rfl
  | cons c letters ih =>
    have hone := @strToChannelModeStep_isSome ppArgv c st.1 st.2
    rw [List.foldlM_cons]
    constructor
    · intro h
      obtain ⟨st₁, hstep⟩ := Option.isSome_iff_exists.mp (hone.mpr fun htakes =>
        h [] c letters st rfl htakes rfl)
      rw [show strToChannelModeStep ppArgv st c = some st₁ from hstep, Option.bind_eq_bind,
        Option.bind_some, ← ih]
      intro before d after st' hletters htakes hfold
      refine h (c :: before) d after st' (by rw [hletters]; rfl) htakes ?_
      rw [List.foldlM_cons, show strToChannelModeStep ppArgv st c = some st₁ from hstep]
      exact hfold
    · intro h
      obtain ⟨st₂, hfold₂⟩ := Option.isSome_iff_exists.mp h
      obtain ⟨st₁, hstep, hrest⟩ := Option.bind_eq_some_iff.mp hfold₂
      intro before d after st' hletters htakes hfold
      cases before with
      | nil =>
        obtain ⟨rfl, rfl⟩ := List.cons.inj hletters
        cases hfold
        exact hone.mp (Option.isSome_iff_exists.mpr ⟨st₁, hstep⟩) htakes
      | cons c' before =>
        obtain ⟨rfl, rfl⟩ := List.cons.inj hletters
        rw [List.foldlM_cons, hstep] at hfold
        have hreads := ih.mpr (Option.isSome_iff_exists.mpr ⟨st₂, hrest⟩)
        exact hreads before d after st' rfl htakes hfold

end Loop

/-! ## What is read -/

/-- Every index that `StrToChannelMode` uses into `ppArgv` is one of its three, and it is not
NULL there. -/
def ArgvInBounds (pModeStr : CStr) : Prop :=
  ∀ before c after st,
    (splitArgv 3 (some pModeStr)).head? = some (some (before ++ c :: after)) →
    takesPart c = true →
    before.foldlM (strToChannelModeStep (splitArgv 3 (some pModeStr))) (emptyChannelMode, 1) =
      some st →
    st.2 < 3 ∧ ∃ arg, (splitArgv 3 (some pModeStr))[st.2]? = some (some arg)

section Bounds

variable {text : CStr} {m : ChannelMode}

theorem strToChannelMode_eq (text : CStr) : strToChannelMode text =
    ((modeLetters text).foldlM (strToChannelModeStep (splitArgv 3 (some text)))
      (emptyChannelMode, 1)).map Prod.fst := by
  rw [strToChannelMode, head_splitArgv, Option.join_some]

/-- The line can be read exactly if its letters have their parts. -/
theorem strToChannelMode_isSome : (strToChannelMode text).isSome = true ↔ PartsGiven text := by
  have hparts (i : Nat) : ((splitArgv 3 (some text))[i]?.join).isSome = true ↔
      i ≤ min 2 (text.count ' ') := by
    rw [splitArgv_isSome]
    omega
  rw [strToChannelMode_eq, Option.isSome_map, foldlM_isSome hparts (Nat.le_add_left _ _),
    PartsGiven]
  omega

/-- All its reads are in bounds exactly if it can be read. -/
theorem argvInBounds_iff_isSome :
    ArgvInBounds text ↔ (strToChannelMode text).isSome = true := by
  rw [strToChannelMode_eq, Option.isSome_map, ← foldlM_reads, ArgvInBounds]
  refine forall_congr' fun before => forall_congr' fun c => forall_congr' fun after =>
    forall_congr' fun st => ?_
  rw [head_splitArgv, Option.some.injEq, Option.some.injEq]
  refine imp_congr_right fun _ => imp_congr_right fun _ => imp_congr_right fun _ => ?_
  constructor
  · rintro ⟨-, arg, harg⟩
    rw [harg]
    rfl
  · intro h
    refine ⟨(splitArgv_isSome.mp h).1, ?_⟩
    obtain ⟨arg, harg⟩ := Option.isSome_iff_exists.mp h
    exact ⟨arg, Option.join_eq_some_iff.mp harg⟩

theorem argvInBounds_iff : ArgvInBounds text ↔ PartsGiven text :=
  argvInBounds_iff_isSome.trans strToChannelMode_isSome

/-- The words of a mode are parts of its line. -/
theorem strToChannelMode_words (hne : text ≠ []) (htrim : IsTrimmed text)
    (h : strToChannelMode text = some m) :
    (∀ word ∈ m.pKeyword, IsWord word) ∧ ∀ word ∈ m.pLimit, IsWord word := by
  have parts {j : Nat} {arg : CStr} (h : (splitArgv 3 (some text))[j]?.join = some arg) :
      IsWord arg :=
    mem_splitArgv hne htrim (List.mem_of_getElem? (Option.join_eq_some_iff.mp h))
  have fold {letters : CStr} {st st' : ChannelMode × Nat}
      (hst : (∀ word ∈ st.1.pKeyword, IsWord word) ∧ ∀ word ∈ st.1.pLimit, IsWord word)
      (hfold : letters.foldlM (strToChannelModeStep (splitArgv 3 (some text))) st = some st') :
      (∀ word ∈ st'.1.pKeyword, IsWord word) ∧ ∀ word ∈ st'.1.pLimit, IsWord word := by
    induction letters generalizing st with
    | nil =>
      cases hfold
      exact hst
    | cons c letters ih =>
      rw [List.foldlM_cons] at hfold
      obtain ⟨st₁, hstep, hrest⟩ := Option.bind_eq_some_iff.mp hfold
      refine ih ?_ hrest
      obtain ⟨m, j⟩ := st
      unfold strToChannelModeStep at hstep
      dsimp only at hstep
      split at hstep
      case h_3 =>
        obtain ⟨arg, harg, rfl⟩ := Option.map_eq_some_iff.mp hstep
        exact ⟨fun _ hword => Option.some.inj hword ▸ parts harg, hst.2⟩
      case h_4 =>
        obtain ⟨arg, harg, rfl⟩ := Option.map_eq_some_iff.mp hstep
        exact ⟨hst.1, fun _ hword => Option.some.inj hword ▸ parts harg⟩
      all_goals
        cases hstep
        exact hst
  rw [strToChannelMode_eq] at h
  obtain ⟨st, hfold, rfl⟩ := Option.map_eq_some_iff.mp h
  have hstart : emptyChannelMode.pKeyword = none ∧ emptyChannelMode.pLimit = none :=
    ⟨rfl, rfl⟩
  refine fold ⟨fun _ hword => ?_, fun _ hword => ?_⟩ hfold
  · cases hstart.1.symm.trans hword
  · cases hstart.2.symm.trans hword

end Bounds

end Ebotula
