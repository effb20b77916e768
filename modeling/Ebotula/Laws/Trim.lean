import Ebotula.Utilities

/-!
# What `trim` leaves

`trim` copies a text in place and leaves out the white space it has no use for. What it
writes depends on what it has written already only in one bit, so a text can be read in
parts. A text that it leaves as it is stays so behind another word, and so does every
beginning of it that ends in no blank.
-/

set_option autoImplicit false

namespace Ebotula

open Library

/-! ## Words -/

/-- No white space: a character that `trim` keeps wherever it stands. -/
def IsPlain (c : Char) : Prop := c ≠ ' ' ∧ c ≠ '\t' ∧ c ≠ '\r' ∧ c ≠ '\n'

instance (c : Char) : Decidable (IsPlain c) := inferInstanceAs (Decidable (_ ∧ _))

/-- A word: a text that is there, without white space. -/
def IsWord (s : CStr) : Prop := s ≠ [] ∧ ∀ c ∈ s, IsPlain c

theorem trimStep_plain {st : CStr × Bool} {c : Char} (h : IsPlain c) :
    trimStep st c = (st.1 ++ [c], true) := by
  obtain ⟨hb, ht, hr, hn⟩ := h
  rw [trimStep, if_neg fun e => hb e.1, if_pos ⟨hn, hr, hb, ht⟩]

/-- White space is left out, but for a blank behind a word. -/
theorem trimStep_skip {st : CStr × Bool} {c : Char} (hblank : ¬ (c = ' ' ∧ st.2))
    (h : ¬ IsPlain c) : trimStep st c = st := by
  rw [trimStep, if_neg hblank, if_neg fun hkept => h ⟨hkept.2.2.1, hkept.2.2.2, hkept.2.1, hkept.1⟩]

theorem trim_fold_plain {st : CStr × Bool} {s : CStr} (h : ∀ c ∈ s, IsPlain c) :
    s.foldl trimStep st = (st.1 ++ s, st.2 || !s.isEmpty) := by
  induction s generalizing st with
  | nil =>
    simp only [List.foldl_nil, List.append_nil, List.isEmpty_nil, Bool.not_true, Bool.or_false]
  | cons c s ih =>
    rw [List.foldl_cons, trimStep_plain (h c List.mem_cons_self),
      ih fun x hx => h x (List.mem_cons_of_mem _ hx)]
    simp only [List.append_assoc, List.singleton_append, Bool.true_or, List.isEmpty_cons,
      Bool.not_false, Bool.or_true]

/-- What `trim` has written ends in a blank only while it waits for a word. -/
theorem trim_fold_last {s : CStr} {st : CStr × Bool}
    (h : st.2 = true → st.1.getLast? ≠ some ' ') :
    (s.foldl trimStep st).2 = true → (s.foldl trimStep st).1.getLast? ≠ some ' ' := by
  induction s generalizing st with
  | nil => exact h
  | cons c s ih =>
    rw [List.foldl_cons]
    refine ih ?_
    rw [trimStep]
    split
    · exact fun hb => by cases hb
    · split
      · next hc =>
        intro _
        rw [List.getLast?_concat]
        simpa only [ne_eq, Option.some.injEq] using hc.2.2.1
      · exact h

/-! ## Trimmed texts -/

/-- What is written before does not matter for what is written next. -/
theorem trim_fold_append (out : CStr) (b : Bool) (s : CStr) :
    s.foldl trimStep (out, b) =
      (out ++ (s.foldl trimStep ([], b)).1, (s.foldl trimStep ([], b)).2) := by
  induction s generalizing out b with
  | nil => simp only [List.foldl_nil, List.append_nil]
  | cons c s ih =>
    obtain ⟨x, b', hstep, hempty⟩ : ∃ x b', trimStep (out, b) c = (out ++ x, b') ∧
        trimStep ([], b) c = (x, b') := by
      simp only [trimStep]
      split
      · exact ⟨[' '], false, rfl, rfl⟩
      · split
        · exact ⟨[c], true, rfl, rfl⟩
        · exact ⟨[], b, by rw [List.append_nil], rfl⟩
    rw [List.foldl_cons, List.foldl_cons, hstep, hempty, ih (out ++ x), ih x, List.append_assoc]

/-- At most one character is written for each one that is read. -/
theorem trim_fold_length (b : Bool) (s : CStr) :
    (s.foldl trimStep ([], b)).1.length ≤ s.length := by
  induction s generalizing b with
  | nil => exact Nat.le_refl 0
  | cons c s ih =>
    have hstep : (trimStep ([], b) c).1.length ≤ 1 := by
      simp only [trimStep]
      split
      · exact Nat.le_refl 1
      · split <;> simp
    rw [List.foldl_cons, trim_fold_append, List.length_append, List.length_cons]
    have := ih (trimStep ([], b) c).2
    omega

theorem length_trim_le (s : CStr) : (trim s).length ≤ s.length := by
  have hfold := trim_fold_length false s
  rw [trim]
  split
  · rw [List.length_dropLast]
    omega
  · exact hfold

/-- `trim` writes nothing that it has not read. -/
theorem mem_of_mem_trim_fold {s : CStr} {b : Bool} {c : Char}
    (h : c ∈ (s.foldl trimStep ([], b)).1) : c ∈ s := by
  induction s generalizing b with
  | nil => cases h
  | cons a s ih =>
    obtain ⟨x, b', hstep, hx⟩ : ∃ x b', trimStep ([], b) a = (x, b') ∧ ∀ y ∈ x, y = a := by
      simp only [trimStep]
      split
      · next hblank => exact ⟨[' '], false, rfl, fun y hy => hblank.1 ▸ List.mem_singleton.mp hy⟩
      · split
        · exact ⟨[a], true, rfl, fun y hy => List.mem_singleton.mp hy⟩
        · exact ⟨[], b, rfl, nofun⟩
    rw [List.foldl_cons, hstep, trim_fold_append, List.mem_append] at h
    rcases h with h | h
    · exact hx c h ▸ List.mem_cons_self
    · exact List.mem_cons_of_mem _ (ih h)

theorem trim_subset (s : CStr) : trim s ⊆ s := by
  intro c hc
  rw [trim] at hc
  split at hc
  · exact mem_of_mem_trim_fold (List.mem_of_mem_dropLast hc)
  · exact mem_of_mem_trim_fold hc

/-- A beginning of a text that is written in full is written in full. -/
theorem trim_fold_of_append {s t : CStr} (h : ((s ++ t).foldl trimStep ([], false)).1 = s ++ t) :
    (s.foldl trimStep ([], false)).1 = s ∧
      (t.foldl trimStep ([], (s.foldl trimStep ([], false)).2)).1 = t := by
  rw [List.foldl_append, trim_fold_append] at h
  refine List.append_inj h ?_
  have hlength := congrArg List.length h
  rw [List.length_append, List.length_append] at hlength
  have hs := trim_fold_length false s
  have ht := trim_fold_length (s.foldl trimStep ([], false)).2 t
  omega

/-- A text that `trim` leaves as it is. -/
def IsTrimmed (s : CStr) : Prop := trim s = s

instance (s : CStr) : Decidable (IsTrimmed s) := inferInstanceAs (Decidable (_ = _))

/-- Such a text is written in full, and does not end in a blank. -/
theorem isTrimmed_iff {s : CStr} : IsTrimmed s ↔
    (s.foldl trimStep ([], false)).1 = s ∧ s.getLast? ≠ some ' ' := by
  rw [IsTrimmed, trim]
  constructor
  · intro h
    split at h
    · next hlast =>
      have hlength := trim_fold_length false s
      have hdrop := congrArg List.length h
      rw [List.length_dropLast] at hdrop
      have hnil : (s.foldl trimStep ([], false)).1 = [] := by
        refine List.length_eq_zero_iff.mp ?_
        omega
      rw [hnil] at hlast
      cases hlast
    · next hlast => exact ⟨h, h ▸ hlast⟩
  · rintro ⟨h, hlast⟩
    rw [h, if_neg hlast]

/-- A beginning of a trimmed text that ends in no blank is trimmed. -/
theorem IsTrimmed.of_append {s t : CStr} (h : IsTrimmed (s ++ t))
    (hlast : s.getLast? ≠ some ' ') : IsTrimmed s :=
  isTrimmed_iff.mpr ⟨(trim_fold_of_append (isTrimmed_iff.mp h).1).1, hlast⟩

/-- A word and a blank in front of a trimmed text. -/
theorem IsTrimmed.word {word s : CStr} (hword : IsWord word) (hs : s ≠ []) (h : IsTrimmed s) :
    IsTrimmed (word ++ ' ' :: s) := by
  obtain ⟨hfold, hlast⟩ := isTrimmed_iff.mp h
  refine isTrimmed_iff.mpr ⟨?_, ?_⟩
  · rw [List.foldl_append, trim_fold_plain hword.2, List.foldl_cons,
      List.isEmpty_eq_false_iff.mpr hword.1, List.nil_append]
    rw [show trimStep (word, false || !false) ' ' = (word ++ [' '], false) from rfl,
      trim_fold_append, hfold, List.append_assoc, List.singleton_append]
  · rw [List.getLast?_append, List.getLast?_cons_of_ne_nil hs]
    cases hs' : s.getLast? with
    | none => exact absurd (List.getLast?_eq_none_iff.mp hs') hs
    | some c =>
      rw [Option.some_or]
      exact hs' ▸ hlast

theorem IsWord.trimmed {word : CStr} (h : IsWord word) : IsTrimmed word := by
  refine isTrimmed_iff.mpr ⟨by rw [trim_fold_plain h.2, List.nil_append], fun hlast => ?_⟩
  exact (h.2 _ (List.mem_of_getLast? hlast)).1 rfl

/-! ### What a trimmed text looks like -/

/-- What has been written is written once more in the same way. -/
theorem trim_fold_idem (s : CStr) :
    (s.foldl trimStep ([], false)).1.foldl trimStep ([], false) = s.foldl trimStep ([], false) := by
  have step {st : CStr × Bool} (h : st.1.foldl trimStep ([], false) = st) (c : Char) :
      (trimStep st c).1.foldl trimStep ([], false) = trimStep st c := by
    obtain ⟨out, b⟩ := st
    by_cases hblank : c = ' ' ∧ b
    · rw [trimStep, if_pos hblank, List.foldl_append, h, List.foldl_cons, trimStep,
        if_pos ⟨rfl, hblank.2⟩]
      rfl
    · by_cases hplain : IsPlain c
      · rw [trimStep_plain hplain, List.foldl_append, h, List.foldl_cons, trimStep_plain hplain]
        rfl
      · rw [trimStep_skip hblank hplain]
        exact h
  have fold {st : CStr × Bool} (h : st.1.foldl trimStep ([], false) = st) :
      (s.foldl trimStep st).1.foldl trimStep ([], false) = s.foldl trimStep st := by
    induction s generalizing st with
    | nil => exact h
    | cons c s ih =>
      rw [List.foldl_cons]
      exact ih (step h c)
  exact fold rfl

/-- A blank is only written behind a word. -/
theorem trim_fold_blank {s t : CStr}
    (h : ((s ++ ' ' :: t).foldl trimStep ([], false)).1 = s ++ ' ' :: t) :
    (s.foldl trimStep ([], false)).2 = true ∧ (t.foldl trimStep ([], false)).1 = t := by
  obtain ⟨-, ht⟩ := trim_fold_of_append h
  rw [List.foldl_cons] at ht
  cases hb : (s.foldl trimStep ([], false)).2 with
  | true =>
    rw [hb, show trimStep ([], true) ' ' = ([' '], false) from rfl, trim_fold_append] at ht
    exact ⟨rfl, List.append_cancel_left ht⟩
  | false =>
    rw [hb, show trimStep ([], false) ' ' = ([], false) from rfl] at ht
    have hlength := congrArg List.length ht
    have := trim_fold_length false t
    rw [List.length_cons] at hlength
    omega

/-- What `trim` leaves it leaves as it is. -/
theorem isTrimmed_trim (s : CStr) : IsTrimmed (trim s) := by
  have hidem := congrArg Prod.fst (trim_fold_idem s)
  rw [trim]
  generalize (s.foldl trimStep ([], false)).1 = out at hidem ⊢
  split
  · next hlast =>
    obtain ⟨out, rfl⟩ := List.getLast?_eq_some_iff.mp hlast
    rw [List.dropLast_concat]
    have hword := (trim_fold_blank hidem).1
    have hfold := (trim_fold_of_append hidem).1
    refine isTrimmed_iff.mpr ⟨hfold, ?_⟩
    have := @trim_fold_last out ([], false) nofun hword
    rwa [hfold] at this
  · next hlast => exact isTrimmed_iff.mpr ⟨hidem, hlast⟩

/-- Around a blank of a trimmed text stand two texts of the kind. -/
theorem IsTrimmed.blank {s t : CStr} (h : IsTrimmed (s ++ ' ' :: t)) :
    (s ≠ [] ∧ IsTrimmed s) ∧ t ≠ [] ∧ IsTrimmed t := by
  obtain ⟨hfold, hlast⟩ := isTrimmed_iff.mp h
  obtain ⟨hword, ht⟩ := trim_fold_blank hfold
  have hs := (trim_fold_of_append hfold).1
  have hends := @trim_fold_last s ([], false) nofun hword
  rw [hs] at hends
  have hne : t ≠ [] := by
    rintro rfl
    exact hlast (by rw [List.getLast?_concat])
  refine ⟨⟨?_, isTrimmed_iff.mpr ⟨hs, hends⟩⟩, hne, isTrimmed_iff.mpr ⟨ht, ?_⟩⟩
  · rintro rfl
    cases hword
  · rwa [List.getLast?_append_of_ne_nil _ (List.cons_ne_nil _ _),
      List.getLast?_cons_of_ne_nil hne] at hlast

/-- Of the white space only blanks are left. -/
theorem IsTrimmed.plain {s : CStr} (h : IsTrimmed s) {c : Char} (hc : c ∈ s) :
    c = ' ' ∨ IsPlain c := by
  obtain ⟨a, b, rfl⟩ := List.append_of_mem hc
  have hb := (trim_fold_of_append (isTrimmed_iff.mp h).1).2
  by_contra hnot
  obtain ⟨hblank, hplain⟩ := not_or.mp hnot
  rw [List.foldl_cons, trimStep_skip (fun h => hblank h.1) hplain] at hb
  have hlength := congrArg List.length hb
  have := trim_fold_length (a.foldl trimStep ([], false)).2 b
  rw [List.length_cons] at hlength
  omega

theorem IsTrimmed.no_tab {s : CStr} (h : IsTrimmed s) : '\t' ∉ s := fun ht =>
  (h.plain ht).elim (by decide) fun hplain => hplain.2.1 rfl

/-- Without a blank it is a word. -/
theorem IsTrimmed.isWord {s : CStr} (h : IsTrimmed s) (hne : s ≠ []) (hblank : ' ' ∉ s) :
    IsWord s :=
  ⟨hne, fun _ hc => (h.plain hc).resolve_left fun e => hblank (e ▸ hc)⟩

/-! ## White space at the end -/

section White

variable {s t : CStr} {c : Char}

/-- White space behind a text is left out again. -/
theorem trim_concat_white (h : ¬ IsPlain c) : trim (s ++ [c]) = trim s := by
  have hlast := @trim_fold_last s ([], false) nofun
  rw [trim, trim, List.foldl_append]
  generalize s.foldl trimStep ([], false) = st at hlast ⊢
  obtain ⟨out, b⟩ := st
  rw [List.foldl_cons, List.foldl_nil]
  by_cases hblank : c = ' ' ∧ b
  · -- the blank is the last character written, and goes
    rw [trimStep, if_pos hblank, List.getLast?_concat, if_pos rfl, List.dropLast_concat,
      if_neg (hlast hblank.2)]
  · rw [trimStep_skip hblank h]

theorem trim_append_white (h : ∀ c ∈ t, ¬ IsPlain c) : trim (s ++ t) = trim s := by
  induction t using List.reverseRecOn with
  | nil => rw [List.append_nil]
  | append_singleton t c ih =>
    rw [List.forall_mem_append, List.forall_mem_singleton] at h
    rw [← List.append_assoc, trim_concat_white h.2, ih h.1]

/-- Every other character is kept. -/
theorem filter_plain_trim (s : CStr) : (trim s).filter (IsPlain ·) = s.filter (IsPlain ·) := by
  have hblank : [' '].filter (IsPlain ·) = [] := rfl
  have hstep (st : CStr × Bool) (c : Char) :
      (trimStep st c).1.filter (IsPlain ·) = st.1.filter (IsPlain ·) ++ [c].filter (IsPlain ·) := by
    by_cases hplain : IsPlain c
    · rw [trimStep_plain hplain, List.filter_append]
    · have hnone : [c].filter (IsPlain ·) = [] := List.filter_cons_of_neg (by simpa using hplain)
      rw [hnone, List.append_nil]
      by_cases hbehind : c = ' ' ∧ st.2
      · rw [trimStep, if_pos hbehind, List.filter_append, hblank, List.append_nil]
      · rw [trimStep_skip hbehind hplain]
  have hfold (st : CStr × Bool) :
      (s.foldl trimStep st).1.filter (IsPlain ·) =
        st.1.filter (IsPlain ·) ++ s.filter (IsPlain ·) := by
    induction s generalizing st with
    | nil => rw [List.foldl_nil, List.filter_nil, List.append_nil]
    | cons c s ih =>
      rw [List.foldl_cons, ih, hstep, List.append_assoc, ← List.filter_append,
        List.singleton_append]
  have hall := hfold ([], false)
  rw [List.filter_nil, List.nil_append] at hall
  rw [trim]
  split
  · next hlast =>
    obtain ⟨out, hout⟩ := List.getLast?_eq_some_iff.mp hlast
    rw [hout, List.filter_append, hblank, List.append_nil] at hall
    rw [hout, List.dropLast_concat, hall]
  · exact hall

/-- A beginning is trimmed to the same as the whole exactly if only white space follows it. -/
theorem trim_append_eq_iff : trim (s ++ t) = trim s ↔ ∀ c ∈ t, ¬ IsPlain c := by
  refine ⟨fun h => ?_, trim_append_white⟩
  have hkept := congrArg (List.filter (IsPlain ·)) h
  rw [filter_plain_trim, filter_plain_trim, List.filter_append, List.append_right_eq_self,
    List.filter_eq_nil_iff] at hkept
  simpa using hkept

end White

/-! ## Behind a word -/

/-- What `trim` leaves of a text behind a word. -/
def trimBehind (s : CStr) : CStr :=
  let out := (s.foldl trimStep ([], true)).1
  if out.getLast? = some ' ' then out.dropLast else out

theorem trim_word_append {word : CStr} (hword : IsWord word) (s : CStr) :
    trim (word ++ s) = word ++ trimBehind s := by
  have hfold : ((word ++ s).foldl trimStep ([], false)).1 =
      word ++ (s.foldl trimStep ([], true)).1 := by
    rw [List.foldl_append, trim_fold_plain hword.2, List.isEmpty_eq_false_iff.mpr hword.1,
      trim_fold_append]
    rfl
  simp only [trim, trimBehind, hfold]
  generalize (s.foldl trimStep ([], true)).1 = out
  cases out with
  | nil =>
    have hlast : word.getLast? ≠ some ' ' := fun hlast =>
      (hword.2 _ (List.mem_of_getLast? hlast)).1 rfl
    simp only [List.append_nil, if_neg hlast, List.getLast?_nil, reduceCtorEq, if_false]
  | cons c out =>
    rw [List.getLast?_append_of_ne_nil _ (List.cons_ne_nil _ _)]
    split
    · rw [List.dropLast_append_of_ne_nil (List.cons_ne_nil _ _)]
    · rfl

/-- Behind a word and a blank it leaves nothing, or a blank and the rest. -/
theorem trim_word_blank {word : CStr} (hword : IsWord word) (s : CStr) :
    trim (word ++ ' ' :: s) = word ∨
      ∃ t, trim (word ++ ' ' :: s) = word ++ ' ' :: t := by
  rw [trim_word_append hword, trimBehind, List.foldl_cons,
    show trimStep ([], true) ' ' = ([' '], false) from rfl, trim_fold_append]
  cases (s.foldl trimStep ([], false)).1 with
  | nil => exact .inl (List.append_nil _)
  | cons c t =>
    refine .inr ?_
    dsimp only
    split
    · exact ⟨(c :: t).dropLast, rfl⟩
    · exact ⟨c :: t, rfl⟩

end Ebotula
