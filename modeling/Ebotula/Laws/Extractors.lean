import Ebotula.Laws.Lines

/-!
# Extractors on one line

The extractors take a line that they may not write to, and two of them write to it. `getArgument`
trims the argument in the line: no extractor answers anything else for that. `getAccessChannel`
ends the line behind a channel that it has found in the text, with `strtok` on the line itself;
what stood behind the channel is then gone for the calls that follow.

So the calls for one line do not disturb each other exactly if nothing stands there that is part
of an argument: `Undisturbed`.
-/

set_option autoImplicit false

namespace Ebotula

open Library

/-- The extractors that are called for the line of a message. -/
inductive Extractor
  | getNetmask
  | getNickname
  | getChannel
  | getAccessChannel
  | getArgument
  | getParameters
  | getAnswerMode
  deriving DecidableEq, Repr

/-- What an extractor answers. -/
inductive Extracted
  | text (answer : Option CStr)
  | mode (answer : AnswerMode)
  deriving DecidableEq, Repr

/-- One call: the answer, and the line as the call leaves it. -/
def Extractor.call (pLine : CStr) : Extractor → Extracted × CStr
  | .getNetmask => (.text (Ebotula.getNetmask pLine), pLine)
  | .getNickname => (.text (Ebotula.getNickname pLine), pLine)
  | .getChannel => (.text (Ebotula.getChannel pLine), pLine)
  | .getAccessChannel =>
    (.text (Ebotula.getAccessChannel pLine).1, (Ebotula.getAccessChannel pLine).2)
  | .getArgument => (.text (Ebotula.getArgument pLine).1, (Ebotula.getArgument pLine).2)
  | .getParameters => (.text (Ebotula.getParameters pLine).1, (Ebotula.getParameters pLine).2)
  | .getAnswerMode => (.mode (Ebotula.getAnswerMode pLine), pLine)

/-- The answers of one call after the other, all for the same line. -/
def extract : CStr → List Extractor → List Extracted
  | _, [] => []
  | pLine, e :: es => (e.call pLine).1 :: extract (e.call pLine).2 es

/-- A line with a command: what stands in front of the mark, the word behind it, and all behind
the blank that ends this word. -/
def splitArgument (pLine : CStr) : Option (CStr × CStr × CStr) :=
  (cutString " :!".toList pLine).bind fun p => (cutFirst ' ' p.2).map fun q => (p.1, q.1, q.2)

/-- The line has no argument, or one that begins with a channel, or a channel in its preamble; or
with its argument trimmed there is no blank behind its first ` :#`. -/
def Undisturbed (pLine : CStr) : Prop :=
  match splitArgument pLine with
  | none => True
  | some (before, word, arg) =>
    trim arg = [] ∨ (trim arg).head? = some '#' ∨
      (∃ pPreamble, getCommand pLine = some pPreamble ∧ '#' ∈ pPreamble) ∨
      ∀ x y, cutString " :#".toList (before ++ " :!".toList ++ word ++ ' ' :: trim arg) =
        some (x, y) → ' ' ∉ y

/-! ## The argument -/

section Argument

variable {pLine before word arg t : CStr}

theorem getArgument_of_none (h : splitArgument pLine = none) :
    getArgument pLine = (none, pLine) := by
  unfold splitArgument at h
  unfold getArgument
  cases hmark : cutString " :!".toList pLine with
  | none => rfl
  | some p =>
    rw [hmark, Option.bind_some, Option.map_eq_none_iff] at h
    dsimp only
    rw [h]

theorem getArgument_of_some (h : splitArgument pLine = some (before, word, arg)) :
    getArgument pLine = (if trim arg = [] then none else some (trim arg),
      before ++ " :!".toList ++ word ++ ' ' :: trim arg) := by
  unfold splitArgument at h
  unfold getArgument
  obtain ⟨⟨x, y⟩, hmark, h⟩ := Option.bind_eq_some_iff.mp h
  obtain ⟨⟨x', y'⟩, hblank, h⟩ := Option.map_eq_some_iff.mp h
  cases h
  rw [hmark]
  dsimp only
  rw [hblank]
  simp only [List.isEmpty_iff]

/-- The line in its parts; with another argument it has the same parts in front. -/
theorem splitArgument_eq_some (h : splitArgument pLine = some (before, word, arg)) :
    pLine = before ++ " :!".toList ++ word ++ ' ' :: arg ∧ ' ' ∉ word ∧
      ∀ t, splitArgument (before ++ " :!".toList ++ word ++ ' ' :: t) =
        some (before, word, t) := by
  unfold splitArgument at h
  obtain ⟨⟨x, y⟩, hmark, h⟩ := Option.bind_eq_some_iff.mp h
  obtain ⟨⟨x', y'⟩, hblank, h⟩ := Option.map_eq_some_iff.mp h
  cases h
  obtain ⟨hword, rfl⟩ := cutFirst_eq_some_iff.mp hblank
  refine ⟨?_, hword, fun t => ?_⟩
  · rw [cutString_eq_some hmark]
    simp only [List.append_assoc]
  · rw [splitArgument, List.append_assoc, cutString_rest hmark, Option.bind_some,
      cutFirst_append t hword]
    rfl

/-- What is added at the end of a line belongs to its argument. -/
theorem splitArgument_append (h : splitArgument pLine = some (before, word, arg)) (t : CStr) :
    splitArgument (pLine ++ t) = some (before, word, arg ++ t) := by
  obtain ⟨rfl, -, hsplit⟩ := splitArgument_eq_some h
  rw [← hsplit (arg ++ t)]
  simp only [List.append_assoc, List.cons_append]

/-- A trimmed line answers the same argument, and stays as it is. -/
theorem getArgument_getArgument (pLine : CStr) :
    getArgument (getArgument pLine).2 = getArgument pLine := by
  cases h : splitArgument pLine with
  | none => rw [getArgument_of_none h, getArgument_of_none h]
  | some parts =>
    obtain ⟨before, word, arg⟩ := parts
    have hidem : trim (trim arg) = trim arg := isTrimmed_trim arg
    have hsplit := (splitArgument_eq_some h).2.2 (trim arg)
    rw [getArgument_of_some h, getArgument_of_some hsplit, hidem]

/-- A line without an argument has none before any of its ends. -/
theorem getArgument_none_of_append (h : getArgument (pLine ++ t) = (none, pLine ++ t)) :
    getArgument pLine = (none, pLine) := by
  cases hsplit : splitArgument pLine with
  | none => exact getArgument_of_none hsplit
  | some parts =>
    obtain ⟨before, word, arg⟩ := parts
    obtain ⟨rfl, -⟩ := splitArgument_eq_some hsplit
    rw [getArgument_of_some (splitArgument_append hsplit t)] at h
    obtain ⟨hnone, hline⟩ := Prod.mk.inj h
    have hempty : trim (arg ++ t) = [] := by
      by_contra hne
      rw [if_neg hne] at hnone
      cases hnone
    -- the blank is the end of the line, so nothing was cut off
    rw [hempty] at hline
    have hlength := congrArg List.length hline
    simp only [List.length_append, List.length_cons, List.length_nil] at hlength
    have harg : arg = [] := List.eq_nil_of_length_eq_zero (by omega)
    rw [getArgument_of_some hsplit, harg]
    rfl

/-- One that is cut off somewhere has another argument than before. -/
theorem getArgument_ne_of_append {a : CStr} (ht : t ≠ [])
    (h : getArgument (pLine ++ t) = (some a, pLine ++ t)) : (getArgument pLine).1 ≠ some a := by
  intro hsame
  cases hsplit : splitArgument pLine with
  | none =>
    rw [getArgument_of_none hsplit] at hsame
    cases hsame
  | some parts =>
    obtain ⟨before, word, arg⟩ := parts
    rw [getArgument_of_some (splitArgument_append hsplit t)] at h
    obtain ⟨hargument, hline⟩ := Prod.mk.inj h
    obtain ⟨rfl, -⟩ := splitArgument_eq_some hsplit
    rw [getArgument_of_some hsplit] at hsame
    have hwhole : trim (arg ++ t) = a := by
      split at hargument
      · cases hargument
      · exact Option.some.inj hargument
    have hpart : trim arg = a := by
      split at hsame
      · cases hsame
      · exact Option.some.inj hsame
    have hshort := length_trim_le arg
    have hlength := congrArg List.length hline
    have hpositive := List.length_pos_of_ne_nil ht
    rw [hwhole, ← hpart] at hlength
    simp only [List.length_append, List.length_cons] at hlength
    omega

end Argument

/-! ## The other extractors -/

section Others

variable {pLine x y z w t : CStr}

/-- The sender is read up to the end of a word that does not begin the line. -/
theorem getNetmask_behind (hz : z ≠ []) (hw : w ≠ []) (hblank : ' ' ∉ w) (t : CStr) :
    getNetmask (z ++ w ++ ' ' :: t) = getNetmask (z ++ w) := by
  obtain ⟨c, z, rfl⟩ := List.exists_cons_of_ne_nil hz
  obtain ⟨w, e, rfl⟩ := List.eq_nil_or_concat w |>.resolve_left hw
  have he : e ≠ ' ' := fun he => hblank (by rw [he]; simp)
  have hbuf : strtokBuf ' ' (z ++ (w ++ [e]) ++ ' ' :: t) = strtokBuf ' ' (z ++ (w ++ [e])) := by
    have hlong : z ++ (w ++ [e]) ++ ' ' :: t = (z ++ w) ++ e :: ' ' :: t := by simp
    rw [hlong, strtokBuf_append_delim he, List.append_assoc]
  rw [List.concat_eq_append, List.cons_append, List.cons_append, getNetmask, getNetmask,
    hbuf]

/-- A channel is in front of the text exactly if the preamble has its sign. -/
theorem getChannel_isSome_iff : (getChannel pLine).isSome ↔
    ∃ pPreamble, getCommand pLine = some pPreamble ∧ '#' ∈ pPreamble := by
  unfold getChannel
  cases hcommand : getCommand pLine with
  | none => exact iff_of_false Bool.false_ne_true nofun
  | some pPreamble =>
    dsimp only
    cases hcut : cutFirst '#' pPreamble with
    | none =>
      refine iff_of_false Bool.false_ne_true ?_
      rintro ⟨p, hp, hmem⟩
      exact cutFirst_eq_none_iff.mp hcut (Option.some.inj hp ▸ hmem)
    | some parts =>
      obtain ⟨-, hsplit⟩ := cutFirst_eq_some_iff.mp hcut
      refine iff_of_true rfl ⟨pPreamble, rfl, ?_⟩
      rw [hsplit]
      exact List.mem_append_right _ List.mem_cons_self

/-- Two lines that the extractors cannot tell apart, but for the argument. -/
structure SameFront (pLine pLine' : CStr) : Prop where
  netmask : getNetmask pLine = getNetmask pLine'
  channel : getChannel pLine = getChannel pLine'

/-- What stands behind the word of a text makes no difference for its front. -/
theorem sameFront_word {head word : CStr} (hword : ' ' ∉ word) (t : CStr) :
    SameFront (lineOf head (word ++ ' ' :: t)) (lineOf head word) where
  netmask := by
    have hcolon : ' ' ∉ ':' :: word := by simp [hword]
    have hsplit (s : CStr) : lineOf head s = (head ++ [' ']) ++ ':' :: s := by simp [lineOf]
    rw [hsplit, hsplit, ← List.cons_append, ← List.append_assoc]
    exact getNetmask_behind (by simp) (List.cons_ne_nil _ _) hcolon t
  channel := getChannel_lineOf.trans getChannel_lineOf.symm

theorem SameFront.symm (h : SameFront x y) : SameFront y x := ⟨h.netmask.symm, h.channel.symm⟩

theorem SameFront.trans (h : SameFront x y) (h' : SameFront y z) : SameFront x z :=
  ⟨h.netmask.trans h'.netmask, h.channel.trans h'.channel⟩

/-- Two lines with the same command have the same front. -/
theorem sameFront_of_splitArgument {pLine' before word arg arg' : CStr}
    (h : splitArgument pLine = some (before, word, arg))
    (h' : splitArgument pLine' = some (before, word, arg')) : SameFront pLine pLine' := by
  obtain ⟨hline, hword, -⟩ := splitArgument_eq_some h
  obtain ⟨hline', -, -⟩ := splitArgument_eq_some h'
  have hmark : ' ' ∉ '!' :: word := by simp [hword]
  have hparts (t : CStr) : before ++ " :!".toList ++ word ++ ' ' :: t =
      lineOf before ('!' :: word ++ ' ' :: t) := by simp [lineOf]
  rw [hline, hline', hparts, hparts]
  exact (sameFront_word hmark _).trans (sameFront_word hmark _).symm

/-- To trim the argument makes no difference either. -/
theorem sameFront_getArgument (pLine : CStr) : SameFront (getArgument pLine).2 pLine := by
  cases h : splitArgument pLine with
  | none =>
    rw [getArgument_of_none h]
    exact ⟨rfl, rfl⟩
  | some parts =>
    obtain ⟨before, word, arg⟩ := parts
    rw [getArgument_of_some h]
    exact sameFront_of_splitArgument ((splitArgument_eq_some h).2.2 (trim arg)) h

/-- The answer is looked for in the trimmed line alone. -/
theorem getAccessChannel_congr {pLine' : CStr} (h : getArgument pLine = getArgument pLine') :
    getAccessChannel pLine = getAccessChannel pLine' := by
  rw [getAccessChannel, getAccessChannel, h]

theorem getChannel_getArgument (pLine : CStr) :
    getChannel (getArgument pLine).2 = getChannel pLine := (sameFront_getArgument pLine).channel

theorem getArgument_pair (pLine : CStr) :
    getArgument pLine = ((getArgument pLine).1, (getArgument pLine).2) := rfl

/-- A channel that is found in the text ends the line. -/
theorem getAccessChannel_cut (hchannel : getChannel pLine = none)
    (hne : ∀ rest, (getArgument pLine).1 ≠ some ('#' :: rest))
    (hcut : cutString " :#".toList (getArgument pLine).2 = some (x, y)) :
    getAccessChannel pLine =
      (some ('#' :: y.takeWhile (· ≠ ' ')), lineOf x ('#' :: y.takeWhile (· ≠ ' '))) := by
  have htoken : strtokBuf ' ' ('#' :: y) = '#' :: y.takeWhile (· ≠ ' ') :=
    strtokBuf_of_head (by decide)
  rw [getAccessChannel_of_argument (getArgument_pair pLine) hne,
    getChannel_getArgument, hchannel, hcut]
  dsimp only
  rw [htoken]
  simp [lineOf]

/-- Otherwise the line is left trimmed. -/
theorem getAccessChannel_left (h : getChannel pLine ≠ none ∨
      (∃ rest, (getArgument pLine).1 = some ('#' :: rest)) ∨
      cutString " :#".toList (getArgument pLine).2 = none) :
    (getAccessChannel pLine).2 = (getArgument pLine).2 := by
  by_cases hhash : ∃ rest, (getArgument pLine).1 = some ('#' :: rest)
  · obtain ⟨rest, hrest⟩ := hhash
    rw [getAccessChannel_of_channel (Prod.ext hrest rfl)]
  · have hne : ∀ rest, (getArgument pLine).1 ≠ some ('#' :: rest) := fun rest h =>
      hhash ⟨rest, h⟩
    rw [getAccessChannel_of_argument (getArgument_pair pLine) hne,
      getChannel_getArgument]
    cases hchannel : getChannel pLine with
    | some pChannel => rfl
    | none =>
      have hcut := (h.resolve_left (not_not.mpr hchannel)).resolve_left hhash
      dsimp only
      rw [hcut]

/-- The part that is cut off leaves the front alone. -/
theorem sameFront_getAccessChannel (pLine : CStr) :
    SameFront (getAccessChannel pLine).2 pLine := by
  have hsame := sameFront_getArgument pLine
  by_cases hfound : getChannel pLine ≠ none ∨
      (∃ rest, (getArgument pLine).1 = some ('#' :: rest)) ∨
      cutString " :#".toList (getArgument pLine).2 = none
  · rw [getAccessChannel_left hfound]
    exact hsame
  · simp only [not_or, not_exists, not_not] at hfound
    obtain ⟨hchannel, hne, hcut⟩ := hfound
    obtain ⟨⟨x, y⟩, hcut⟩ := Option.ne_none_iff_exists'.mp hcut
    have hline : (getArgument pLine).2 = lineOf x ('#' :: y) := by
      rw [cutString_eq_some hcut]
      simp [lineOf]
    rw [getAccessChannel_cut hchannel hne hcut]
    rw [hline] at hsame
    refine SameFront.trans ?_ hsame
    cases hblank : cutFirst ' ' y with
    | none =>
      rw [takeWhile_ne_self (cutFirst_eq_none_iff.mp hblank)]
      exact ⟨rfl, rfl⟩
    | some parts =>
      obtain ⟨w, t⟩ := parts
      obtain ⟨hw, rfl⟩ := cutFirst_eq_some_iff.mp hblank
      have hword : ' ' ∉ '#' :: w := by simp [hw]
      rw [takeWhile_ne_word hw]
      exact (sameFront_word hword t).symm

theorem getParameters_eq (pLine : CStr) : getParameters pLine =
    (match (getArgument pLine).1 with
      | some ('#' :: rest) => (cutFirst ' ' ('#' :: rest)).map Prod.snd
      | pParameter => pParameter, (getArgument pLine).2) := by
  rw [getParameters]
  obtain ⟨pParameter, left⟩ := getArgument pLine
  split
  · next heq =>
    cases heq
    rfl
  · next hno heq =>
    cases heq
    dsimp only
    split
    · exact (hno _ rfl).elim
    · rfl

end Others

/-! ## All of them -/

/-- A line for which all extractors answer what they do for another one, and behind whose channel
they look at the same line. -/
structure Agrees (pLine line : CStr) : Prop where
  front : SameFront pLine line
  argument : (getArgument pLine).1 = (getArgument line).1
  access : getAccessChannel pLine = getAccessChannel line

section Agrees

variable {pLine line : CStr}

theorem Agrees.answer (h : Agrees pLine line) (e : Extractor) :
    (e.call pLine).1 = (e.call line).1 := by
  cases e with
  | getNetmask => exact congrArg Extracted.text h.front.netmask
  | getNickname =>
    show Extracted.text (getNickname pLine) = Extracted.text (getNickname line)
    rw [getNickname, getNickname, h.front.netmask]
  | getChannel => exact congrArg Extracted.text h.front.channel
  | getAccessChannel => exact congrArg (Extracted.text ·.1) h.access
  | getArgument => exact congrArg Extracted.text h.argument
  | getParameters =>
    show Extracted.text (getParameters pLine).1 = Extracted.text (getParameters line).1
    rw [getParameters_eq, getParameters_eq, h.argument]
  | getAnswerMode =>
    show Extracted.mode (getAnswerMode pLine) = Extracted.mode (getAnswerMode line)
    rw [getAnswerMode, getAnswerMode, h.front.channel]

theorem agrees_refl (line : CStr) : Agrees line line := ⟨⟨rfl, rfl⟩, rfl, rfl⟩

theorem agrees_getArgument (line : CStr) : Agrees (getArgument line).2 line where
  front := sameFront_getArgument line
  argument := congrArg Prod.fst (getArgument_getArgument line)
  access := getAccessChannel_congr (getArgument_getArgument line)

/-- A call leaves the line, the line trimmed, or what `getAccessChannel` leaves. -/
theorem call_left (pLine : CStr) (e : Extractor) : (e.call pLine).2 = pLine ∨
    (e.call pLine).2 = (getArgument pLine).2 ∨ (e.call pLine).2 = (getAccessChannel pLine).2 := by
  cases e with
  | getAccessChannel => exact .inr (.inr rfl)
  | getArgument => exact .inr (.inl rfl)
  | getParameters => exact .inr (.inl (congrArg Prod.snd (getParameters_eq pLine)))
  | _ => exact .inl rfl

/-- If the line that `getAccessChannel` leaves agrees with the first one, so do all lines. -/
theorem extract_eq_of_agrees (haccess : Agrees (getAccessChannel line).2 line)
    (hstays : (getArgument (getAccessChannel line).2).2 = (getAccessChannel line).2)
    (calls : List Extractor) : extract line calls = calls.map fun e => (e.call line).1 := by
  have hrun (pLine : CStr) (h : Agrees pLine line) (htrim : Agrees (getArgument pLine).2 line) :
      extract pLine calls = calls.map fun e => (e.call line).1 := by
    induction calls generalizing pLine with
    | nil => rfl
    | cons e calls ih =>
      rw [extract, List.map_cons, h.answer e]
      refine congrArg _ ?_
      rcases call_left pLine e with hleft | hleft | hleft
      · rw [hleft]
        exact ih pLine h htrim
      · rw [hleft]
        refine ih _ htrim ?_
        rw [getArgument_getArgument]
        exact htrim
      · rw [hleft, h.access]
        refine ih _ haccess ?_
        rw [hstays]
        exact haccess
  exact hrun line (agrees_refl line) (agrees_getArgument line)

/-- A line that is only trimmed agrees. -/
theorem agrees_of_trimmed (hleft : (getAccessChannel line).2 = (getArgument line).2) :
    Agrees (getAccessChannel line).2 line ∧
      (getArgument (getAccessChannel line).2).2 = (getAccessChannel line).2 := by
  rw [hleft, getArgument_getArgument]
  exact ⟨agrees_getArgument line, rfl⟩

variable {x w t : CStr}

/-- Where something is cut off behind the channel, there is no argument that could be lost. -/
theorem Undisturbed.no_argument (h : Undisturbed line) (hchannel : getChannel line = none)
    (hne : ∀ rest, (getArgument line).1 ≠ some ('#' :: rest))
    (hcut : cutString " :#".toList (getArgument line).2 = some (x, w ++ ' ' :: t)) :
    (getArgument line).1 = none := by
  unfold Undisturbed at h
  cases hsplit : splitArgument line with
  | none => rw [getArgument_of_none hsplit]
  | some parts =>
    obtain ⟨before, word, arg⟩ := parts
    have hargument := getArgument_of_some hsplit
    rw [hsplit] at h
    rcases h with hempty | hhash | hpreamble | hlast
    · rw [hargument, if_pos hempty]
    · obtain ⟨rest, hrest⟩ := List.head?_eq_some_iff.mp hhash
      refine absurd ?_ (hne rest)
      rw [hargument, hrest]
      rfl
    · rw [← getChannel_isSome_iff, hchannel] at hpreamble
      cases hpreamble
    · rw [hargument] at hcut
      exact absurd (by simp) (hlast _ _ hcut)

/-- A line without an argument agrees with what is left of it up to its channel. -/
theorem agrees_of_cut (hnone : (getArgument line).1 = none) (hchannel : getChannel line = none)
    (hcut : cutString " :#".toList (getArgument line).2 = some (x, w ++ ' ' :: t))
    (hw : ' ' ∉ w) : Agrees (getAccessChannel line).2 line ∧
      (getArgument (getAccessChannel line).2).2 = (getAccessChannel line).2 := by
  have haccess := getAccessChannel_cut hchannel
    (fun rest hrest => by rw [hnone] at hrest; cases hrest) hcut
  rw [takeWhile_ne_word hw] at haccess
  have hwhole : (getArgument line).2 = lineOf x ('#' :: w) ++ ' ' :: t := by
    rw [cutString_eq_some hcut]
    simp [lineOf]
  have hcutArgument : getArgument (lineOf x ('#' :: w)) = (none, lineOf x ('#' :: w)) := by
    refine getArgument_none_of_append (t := ' ' :: t) ?_
    rw [← hwhole, getArgument_getArgument, ← hnone]
  have hfront : SameFront (lineOf x ('#' :: w)) line := by
    have hsame := sameFront_getAccessChannel line
    rwa [haccess] at hsame
  have hcutAgain : cutString " :#".toList (getArgument (lineOf x ('#' :: w))).2 =
      some (x, w) := by
    have hrest := cutString_rest hcut w
    have hparts : x ++ " :#".toList ++ w = lineOf x ('#' :: w) := by simp [lineOf]
    rw [hcutArgument]
    rwa [hparts] at hrest
  have hagain := getAccessChannel_cut (hfront.channel.trans hchannel)
    (fun rest hrest => by rw [hcutArgument] at hrest; cases hrest) hcutAgain
  rw [takeWhile_ne_self hw] at hagain
  have hleft : (getAccessChannel line).2 = lineOf x ('#' :: w) := congrArg Prod.snd haccess
  rw [hleft]
  exact ⟨⟨hfront, (congrArg Prod.fst hcutArgument).trans hnone.symm,
    hagain.trans haccess.symm⟩, congrArg Prod.snd hcutArgument⟩

/-- Where no blank is lost behind an argument, the line that is left agrees. -/
theorem Undisturbed.agrees (h : Undisturbed line) : Agrees (getAccessChannel line).2 line ∧
    (getArgument (getAccessChannel line).2).2 = (getAccessChannel line).2 := by
  by_cases hfound : getChannel line ≠ none ∨
      (∃ rest, (getArgument line).1 = some ('#' :: rest)) ∨
      cutString " :#".toList (getArgument line).2 = none
  · exact agrees_of_trimmed (getAccessChannel_left hfound)
  · simp only [not_or, not_exists, not_not] at hfound
    obtain ⟨hchannel, hne, hcut⟩ := hfound
    obtain ⟨⟨x, y⟩, hcut⟩ := Option.ne_none_iff_exists'.mp hcut
    cases hblank : cutFirst ' ' y with
    | none =>
      -- nothing is cut off
      refine agrees_of_trimmed ?_
      rw [getAccessChannel_cut hchannel hne hcut, cutString_eq_some hcut,
        takeWhile_ne_self (cutFirst_eq_none_iff.mp hblank)]
      simp [lineOf]
    | some parts =>
      obtain ⟨w, t⟩ := parts
      obtain ⟨hw, rfl⟩ := cutFirst_eq_some_iff.mp hblank
      exact agrees_of_cut (h.no_argument hchannel hne hcut) hchannel hcut hw

/-- When the extractors do not disturb each other: for the calls of a line, however many and in
whatever order, each answers what it does for the line as it came, exactly if the line is
undisturbed. -/
theorem extractors_independent_iff (line : CStr) :
    (∀ calls, extract line calls = calls.map fun e => (e.call line).1) ↔ Undisturbed line := by
  constructor
  · intro hall
    unfold Undisturbed
    cases hsplit : splitArgument line with
    | none => trivial
    | some parts =>
      obtain ⟨before, word, arg⟩ := parts
      dsimp only
      by_contra hnot
      simp only [not_or, not_forall, not_not] at hnot
      obtain ⟨hempty, hhash, hpreamble, x, y, hcut, hblank⟩ := hnot
      have hargument := getArgument_of_some hsplit
      rw [if_neg hempty] at hargument
      have hchannel : getChannel line = none := by
        rw [← Option.not_isSome_iff_eq_none, getChannel_isSome_iff]
        exact hpreamble
      have hne : ∀ rest, (getArgument line).1 ≠ some ('#' :: rest) := fun rest hrest => by
        rw [hargument] at hrest
        exact hhash (Option.some.inj hrest ▸ rfl)
      have hcut' : cutString " :#".toList (getArgument line).2 = some (x, y) := by
        rw [hargument]
        exact hcut
      have haccess := getAccessChannel_cut hchannel hne hcut'
      obtain ⟨⟨w, t⟩, hparts⟩ := Option.ne_none_iff_exists'.mp
        fun hnone => cutFirst_eq_none_iff.mp hnone hblank
      obtain ⟨hw, rfl⟩ := cutFirst_eq_some_iff.mp hparts
      rw [takeWhile_ne_word hw] at haccess
      have hwhole : (getArgument line).2 = lineOf x ('#' :: w) ++ ' ' :: t := by
        rw [cutString_eq_some hcut']
        simp [lineOf]
      -- the argument is another one behind the cut
      have hanswers := hall [.getAccessChannel, .getArgument]
      have hsecond : Extracted.text (getArgument (lineOf x ('#' :: w))).1 =
          .text (getArgument line).1 := by
        have htail := (List.cons.inj (List.cons.inj hanswers).2).1
        simpa only [Extractor.call, haccess] using htail
      refine getArgument_ne_of_append (t := ' ' :: t) (a := trim arg) (List.cons_ne_nil _ _) ?_
        ((Extracted.text.inj hsecond).trans (congrArg Prod.fst hargument))
      rw [← hwhole, getArgument_getArgument, hargument]
  · intro h calls
    exact extract_eq_of_agrees h.agrees.1 h.agrees.2 calls

/-- The channel that `getAccessChannel` takes out of a text ends the line, and the words behind it
are no longer parameters. -/
theorem extractors_disturbed :
    ¬ ∀ (line : CStr) (calls : List Extractor),
      extract line calls = calls.map fun e => (e.call line).1 := by
  intro hall
  have hcalls := hall ":n!u@h PRIVMSG bot :!say hello :#chan more"
    [.getAccessChannel, .getParameters]
  revert hcalls
  decide

end Agrees

end Ebotula
