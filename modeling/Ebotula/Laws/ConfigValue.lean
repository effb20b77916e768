import Ebotula.Laws.ConfigFile
import Ebotula.Laws.Trim

/-!
# What the parser makes of a value

A line of the configuration file passes `trim` and `clearspace` before its value is cut off at
the `=`. `trim` leaves one of several blanks and no tab, wherever they stand; `clearspace` then
takes the other blanks that stand outside of double quotes, and the quotes. `configValue` is what
the two leave of the value, since nothing in front of it changes.

So a quoted value keeps its blanks only as far as `trim` has left any.
-/

set_option autoImplicit false

namespace Ebotula

open Library

/-! ## Behind a word -/

/-- Behind a word `trim` may leave a blank more. -/
theorem trim_fold_true (s : CStr) :
    (s.foldl trimStep ([], true)).1 = (s.foldl trimStep ([], false)).1 ∨
      (s.foldl trimStep ([], true)).1 = ' ' :: (s.foldl trimStep ([], false)).1 := by
  induction s with
  | nil => exact .inl rfl
  | cons c s ih =>
    simp only [List.foldl_cons]
    by_cases hplain : IsPlain c
    · rw [trimStep_plain hplain, trimStep_plain hplain]
      exact .inl rfl
    · by_cases hblank : c = ' '
      · subst hblank
        rw [show trimStep ([], true) ' ' = ([' '], false) from rfl, trim_fold_append]
        exact .inr rfl
      · have hskip (b : Bool) : trimStep ([], b) c = ([], b) := by
          rw [trimStep, if_neg fun h => hblank h.1,
            if_neg fun h => hplain ⟨h.2.2.1, h.2.2.2, h.2.1, h.1⟩]
        rwa [hskip, hskip]

/-! ## Quotes -/

/-- What is written before does not matter for what is written next. -/
theorem clearspace_fold_append (out : CStr) (noclr : Bool) (s : CStr) :
    s.foldl clearspaceStep (out, noclr) =
      (out ++ (s.foldl clearspaceStep ([], noclr)).1,
        (s.foldl clearspaceStep ([], noclr)).2) := by
  induction s generalizing out noclr with
  | nil => simp only [List.foldl_nil, List.append_nil]
  | cons c s ih =>
    obtain ⟨x, b, hstep, hempty⟩ : ∃ x b, clearspaceStep (out, noclr) c = (out ++ x, b) ∧
        clearspaceStep ([], noclr) c = (x, b) := by
      simp only [clearspaceStep]
      split
      · split
        · exact ⟨[], true, by rw [List.append_nil], rfl⟩
        · split
          · exact ⟨[], false, by rw [List.append_nil], rfl⟩
          · exact ⟨[c], noclr, rfl, rfl⟩
      · exact ⟨[], noclr, by rw [List.append_nil], rfl⟩
    rw [List.foldl_cons, List.foldl_cons, hstep, hempty, ih (out ++ x), ih x, List.append_assoc]

/-- A text without a quote is written as it is where quotes are open, and without its blanks
where none are. -/
theorem clearspace_fold_unquoted {s : CStr} (h : '"' ∉ s) (noclr : Bool) :
    s.foldl clearspaceStep ([], noclr) =
      (if noclr then s else s.filter (· ≠ ' '), noclr) := by
  induction s with
  | nil => cases noclr <;> rfl
  | cons c s ih =>
    rw [List.mem_cons, not_or] at h
    rw [List.foldl_cons]
    have hquote : c ≠ '"' := fun e => h.1 e.symm
    cases noclr with
    | true =>
      rw [show clearspaceStep ([], true) c = ([c], true) by simp [clearspaceStep, hquote],
        clearspace_fold_append, ih h.2]
      rfl
    | false =>
      by_cases hblank : c = ' '
      · rw [show clearspaceStep ([], false) c = ([], false) by simp [clearspaceStep, hblank],
          ih h.2, hblank]
        rfl
      · rw [show clearspaceStep ([], false) c = ([c], false) by
            simp [clearspaceStep, hblank, hquote], clearspace_fold_append, ih h.2]
        simp [hblank]

/-- Where no quotes are open, what has neither quotes nor blanks stays. -/
theorem clearspace_append {s t : CStr} (hquote : '"' ∉ s) (hblank : ' ' ∉ s) :
    clearspace (s ++ t) = s ++ clearspace t := by
  have hfilter : s.filter (· ≠ ' ') = s := List.filter_eq_self.mpr fun c hc =>
    decide_eq_true fun e : c = ' ' => hblank (e ▸ hc)
  rw [clearspace, List.foldl_append, clearspace_fold_unquoted hquote, clearspace_fold_append]
  simp only [Bool.false_eq_true, if_false, hfilter, clearspace]

theorem clearspace_blank (s : CStr) : clearspace (' ' :: s) = clearspace s := rfl

/-- A text in quotes loses nothing but the quotes. -/
theorem clearspace_quoted {s : CStr} (h : '"' ∉ s) : clearspace ('"' :: (s ++ ['"'])) = s := by
  rw [clearspace, List.foldl_cons, show clearspaceStep ([], false) '"' = ([], true) from rfl,
    List.foldl_append, clearspace_fold_unquoted h]
  rfl

/-! ## The value of a line -/

/-- What `trim` and `clearspace` leave of a value. -/
def configValue (value : CStr) : CStr := clearspace (trim value)

/-- Behind a word they leave the same. -/
theorem clearspace_trimBehind (value : CStr) :
    clearspace (trimBehind value) = configValue value := by
  unfold configValue
  simp only [trim, trimBehind]
  rcases trim_fold_true value with h | h
  · rw [h]
  · rw [h]
    generalize (value.foldl trimStep ([], false)).1 = out
    cases out with
    | nil => rfl
    | cons c out =>
      rw [List.getLast?_cons_cons, List.dropLast_cons_cons]
      split <;> exact clearspace_blank _

/-- The names of the settings are words without quotes and `=`, and no comments. -/
theorem sParamName_plain (counter : Values) : IsWord counter.sParamName ∧
    '"' ∉ counter.sParamName ∧ '=' ∉ counter.sParamName ∧ '\x00' ∉ counter.sParamName ∧
    counter.sParamName.head? ≠ some commentChar := by
  cases counter <;>
    exact ⟨⟨by decide, forall_of_all (by decide)⟩, by decide, by decide, by decide, by decide⟩

theorem find?_sParamName (counter : Values) :
    Values.all.find? (fun c => c.sParamName = counter.sParamName) = some counter := by
  cases counter <;> decide +kernel

/-- The line of a setting. -/
def settingLine (counter : Values) (value : CStr) : CStr := counter.sParamName ++ '=' :: value

/-- What the line of a setting is to the parser. -/
theorem entryOf_settingLine (counter : Values) {value : CStr} (hnul : '\x00' ∉ value) :
    entryOf (settingLine counter value) = .known counter (configValue value) := by
  obtain ⟨hword, hquote, hequal, hname, hcomment⟩ := sParamName_plain counter
  have hplain : IsWord (counter.sParamName ++ ['=']) := by
    refine ⟨List.append_ne_nil_of_left_ne_nil hword.1 _, fun c hc => ?_⟩
    rcases List.mem_append.mp hc with hc | hc
    · exact hword.2 c hc
    · rw [List.mem_singleton.mp hc]
      decide
  have hline : cString (settingLine counter value) = settingLine counter value := by
    refine List.takeWhile_eq_self_iff.mpr fun c hc => decide_eq_true fun e : c = '\x00' => ?_
    subst e
    rw [settingLine, List.mem_append, List.mem_cons] at hc
    rcases hc with hc | hc | hc
    · exact hname hc
    · exact absurd hc (by decide)
    · exact hnul hc
  have hbuffer : clearspace (trim (settingLine counter value)) =
      counter.sParamName ++ '=' :: configValue value := by
    rw [settingLine, List.append_cons, trim_word_append hplain, clearspace_append,
      ← List.append_cons, clearspace_trimBehind]
    · rw [List.mem_append, not_or]
      exact ⟨hquote, by decide⟩
    · exact fun hc => (hplain.2 _ hc).1 rfl
  have hhead : ¬ ((counter.sParamName ++ '=' :: configValue value).head? = some commentChar ∨
      counter.sParamName ++ '=' :: configValue value = []) := by
    rw [List.head?_append_of_ne_nil _ hword.1]
    exact not_or.mpr ⟨hcomment, List.append_ne_nil_of_left_ne_nil hword.1 _⟩
  unfold entryOf
  rw [hline, hbuffer]
  dsimp only
  rw [if_neg hhead, cutFirst_append _ hequal]
  split
  · next h => cases h
  · next h => exact absurd (Prod.mk.inj (Option.some.inj h)).1 hword.1
  · next h =>
    obtain ⟨rfl, rfl⟩ := Prod.mk.inj (Option.some.inj h)
    rw [find?_sParamName]

/-- A file of one line is read by the body of the loop. -/
theorem configFileParser_line {line : CStr} (hline : IsLine line) (st : ConfigState) :
    configFileParser (some (fileOf [line])) st = configLine { st with elem := false } line := by
  have hlines : ∀ l ∈ [line], IsLine l := fun l hl => List.mem_singleton.mp hl ▸ hline
  rw [configFileParser, configLoop_lines hlines _ (Nat.le_refl _), List.foldlM_cons]
  exact bind_pure _

/-! ## Quoted texts -/

/-- `trim` leaves all of a text behind a word exactly if it has no white space but blanks, and no
two of them in a row. -/
theorem trim_fold_eq_iff {s : CStr} (b : Bool) : (s.foldl trimStep ([], b)).1 = s ↔
    (∀ c ∈ s, c = ' ' ∨ IsPlain c) ∧ ¬ [' ', ' '] <:+: s ∧ (b = false → s.head? ≠ some ' ') := by
  induction s generalizing b with
  | nil =>
    refine iff_of_true rfl ⟨nofun, fun h => ?_, nofun⟩
    cases List.eq_nil_of_infix_nil h
  | cons c s ih =>
    have shorter (b' : Bool) : (s.foldl trimStep ([], b')).1 ≠ c :: s := fun h => by
      have hlength := congrArg List.length h
      have := trim_fold_length b' s
      rw [List.length_cons] at hlength
      omega
    rw [List.foldl_cons, List.infix_cons_iff, List.forall_mem_cons, List.head?_cons]
    by_cases hplain : IsPlain c
    · -- a character that is always written
      have htwo : ¬ [' ', ' '] <+: c :: s := fun h =>
        hplain.1 (List.cons_prefix_cons.mp h).1.symm
      rw [trimStep_plain hplain, trim_fold_append, List.nil_append, List.singleton_append,
        List.cons_inj_right, ih]
      simp only [hplain, or_true, true_and, htwo, false_or, Option.some.injEq, hplain.1,
        Bool.true_eq_false, false_implies, and_true, ne_eq, not_false_eq_true, implies_true]
    · by_cases hblank : c = ' '
      · subst hblank
        cases b with
        | true =>
          -- a blank that is written, and no other one behind it
          have htwo : [' ', ' '] <+: ' ' :: s ↔ s.head? = some ' ' := by
            rw [List.cons_prefix_cons, and_iff_right rfl]
            cases s <;> simp [eq_comm]
          rw [show trimStep ([], true) ' ' = ([' '], false) from rfl, trim_fold_append,
            List.singleton_append, List.cons_inj_right, ih]
          simp only [htwo, true_or, true_and, not_or, Bool.true_eq_false, false_implies,
            and_true, true_implies, ne_eq]
          exact and_congr_right fun _ => and_comm
        | false =>
          refine iff_of_false (shorter false) fun h => h.2.2 rfl rfl
      · have hskip : trimStep ([], b) c = ([], b) := by
          rw [trimStep, if_neg fun h => hblank h.1,
            if_neg fun h => hplain ⟨h.2.2.1, h.2.2.2, h.2.1, h.1⟩]
        rw [hskip]
        exact iff_of_false (shorter b) fun h => h.1.1.elim hblank hplain

/-- What is left of a text in quotes. -/
theorem configValue_quoted {t : CStr} (hquote : '"' ∉ t) :
    configValue ('"' :: (t ++ ['"'])) = (t.foldl trimStep ([], true)).1 := by
  have hfold : (('"' :: (t ++ ['"'])).foldl trimStep ([], false)).1 =
      '"' :: ((t.foldl trimStep ([], true)).1 ++ ['"']) := by
    rw [List.foldl_cons, show trimStep ([], false) '"' = (['"'], true) from rfl,
      trim_fold_append, List.foldl_append, List.foldl_cons, List.foldl_nil,
      trimStep_plain (by decide)]
    rfl
  have hlast : ('"' :: ((t.foldl trimStep ([], true)).1 ++ ['"'])).getLast? = some '"' := by
    rw [← List.cons_append, List.getLast?_concat]
  have hwritten : '"' ∉ (t.foldl trimStep ([], true)).1 := fun h =>
    hquote (mem_of_mem_trim_fold h)
  simp only [configValue, trim, hfold, hlast, Option.some.injEq]
  rw [if_neg (by decide)]
  exact clearspace_quoted hwritten

/-- The line with the quoted text. -/
def quotedLine (t : CStr) : CStr := settingLine .realname ('"' :: (t ++ ['"']))

/-- A printable character, or a tab. -/
def IsText (c : Char) : Prop := c = '\t' ∨ ' '.val ≤ c.val

instance (c : Char) : Decidable (IsText c) := inferInstanceAs (Decidable (_ ∨ _))

theorem IsText.ne {c : Char} (h : IsText c) : c ≠ '\n' ∧ c ≠ '\r' ∧ c ≠ '\x00' := by
  refine ⟨?_, ?_, ?_⟩ <;>
  · rintro rfl
    exact absurd h (by decide)

/-- In a text only tabs are white space that `trim` does not keep. -/
theorem text_plain_iff {t : CStr} (htext : ∀ c ∈ t, IsText c) :
    (∀ c ∈ t, c = ' ' ∨ IsPlain c) ↔ '\t' ∉ t := by
  constructor
  · intro h htab
    exact (h _ htab).elim (by decide) fun hplain => hplain.2.1 rfl
  · intro htab c hc
    obtain ⟨hn, hr, -⟩ := (htext c hc).ne
    by_cases hblank : c = ' '
    · exact .inl hblank
    · exact .inr ⟨hblank, fun e => htab (e ▸ hc), hr, hn⟩

/-- The line with the quoted text has only characters of the text and printable ones. -/
theorem isText_quotedLine {t : CStr} (htext : ∀ c ∈ t, IsText c) :
    ∀ c ∈ quotedLine t, IsText c := by
  have hname : ∀ c ∈ Values.realname.sParamName ++ ['=', '"'], IsText c := forall_of_all (by decide)
  intro c hc
  rw [quotedLine, settingLine, List.append_cons, List.append_cons, ← List.append_assoc] at hc
  rcases List.mem_append.mp hc with hc | hc
  · rcases List.mem_append.mp hc with hc | hc
    · have hc : c ∈ Values.realname.sParamName ++ ['=', '"'] := by
        rwa [List.append_cons]
      exact hname c hc
    · exact htext c hc
  · rw [List.mem_singleton.mp hc]
    exact .inr (by decide)

/-- The real name is set to the text between the quotes exactly if it has no tab and no two blanks
in a row. -/
theorem quoted_value_literal_iff {st : ConfigState} (fresh : st.isFound .realname = false)
    {t : CStr} (htext : ∀ c ∈ t, IsText c) (hquote : '"' ∉ t)
    (hlength : (quotedLine t).length < maxReadBufferSize) :
    (∃ st', configFileParser (some (fileOf [quotedLine t])) st = .ok st' ∧
      st'.sSetup .realname = (some t : Option CStr)) ↔ '\t' ∉ t ∧ ¬ [' ', ' '] <:+: t := by
  have hchars := isText_quotedLine htext
  have hline : IsLine (quotedLine t) := ⟨fun h => (hchars _ h).ne.1 rfl, hlength⟩
  have hnul : '\x00' ∉ '"' :: (t ++ ['"']) := fun h =>
    (hchars _ (List.mem_append_right _ (List.mem_cons_of_mem _ h))).ne.2.2 rfl
  have hentry := entryOf_settingLine .realname hnul
  have hvalue : (∃ st', configFileParser (some (fileOf [quotedLine t])) st = .ok st' ∧
      st'.sSetup .realname = (some t : Option CStr)) ↔
      configValue ('"' :: (t ++ ['"'])) = t := by
    rw [configFileParser_line hline, quotedLine, configLine_known hentry]
    dsimp only
    rw [if_neg (by rw [fresh]; exact Bool.false_ne_true)]
    have hstored (v : CStr) : (Function.update st.sSetup .realname
        (ParamType.store (Values.iParamType .realname) (st.sSetup .realname) v)) .realname =
        (some v : Option CStr) := Function.update_self ..
    constructor
    · rintro ⟨st', hst', hreal⟩
      cases hst'
      exact Option.some.inj ((hstored _).symm.trans hreal)
    · intro heq
      exact ⟨_, rfl, (hstored _).trans (congrArg some heq)⟩
  rw [hvalue, configValue_quoted hquote, trim_fold_eq_iff, text_plain_iff htext]
  simp only [Bool.true_eq_false, false_implies, and_true]

/-- A real name with two blanks in a row, which loses one of them. -/
theorem quoted_value_loses_blank :
    ¬ ∀ (st : ConfigState) (t : CStr), st.isFound .realname = false → (∀ c ∈ t, IsText c) →
      '"' ∉ t → (quotedLine t).length < maxReadBufferSize →
      ∃ st', configFileParser (some (fileOf [quotedLine t])) st = .ok st' ∧
        st'.sSetup .realname = (some t : Option CStr) := by
  intro claim
  have htext : ∀ c ∈ "IRC  bot".toList, IsText c := forall_of_all (by decide)
  obtain ⟨st', hrun, hreal⟩ := claim zeroConfig "IRC  bot" rfl htext (by decide) (by decide)
  have computed : (match configFileParser (some (fileOf [quotedLine "IRC  bot"])) zeroConfig with
      | .ok st => (st.sSetup .realname : Option CStr)
      | .error _ => none) = some "IRC bot".toList := by
    decide +kernel
  rw [hrun] at computed
  have heq : "IRC  bot".toList = "IRC bot" := Option.some.inj (hreal.symm.trans computed)
  exact absurd heq (by decide)

/-- A real name that is taken as it stands. -/
theorem quoted_value_literal_botname :
    ∃ st', configFileParser (some (fileOf [quotedLine "I'm an IRC bot"])) zeroConfig = .ok st' ∧
      st'.sSetup .realname = (some "I'm an IRC bot".toList : Option CStr) := by
  have htext : ∀ c ∈ "I'm an IRC bot".toList, IsText c := forall_of_all (by decide)
  refine (quoted_value_literal_iff rfl htext (by decide) (by decide)).mpr ⟨by decide, ?_⟩
  decide

end Ebotula
