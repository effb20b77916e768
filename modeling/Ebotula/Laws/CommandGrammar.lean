import Ebotula.Laws.EventText
import Ebotula.Laws.Recognition

/-!
# The channel and the parameters of a command

A message with a command is `:sender PRIVMSG target :!word argument`. The channel that the command
is about is the first word of the argument, if that begins with `#`, and else the channel that the
message was sent to; the parameters are the rest of the argument. The extractors know nothing of
this grammar and search the line. They come to the same, but for one search: where no channel is
found in front of the text, `getAccessChannel` takes the text itself for one, as it is in
` :#channel`, and looks for it in the whole line.
-/

set_option autoImplicit false

namespace Ebotula

open Library

/-! ## The grammar -/

/-- The first word of a text. -/
def firstWord (a : CStr) : CStr := a.takeWhile (· ≠ ' ')

/-- What is behind the first word and its blank. -/
def behindFirstWord (a : CStr) : Option CStr :=
  match a.dropWhile (· ≠ ' ') with
  | _ :: rest => some rest
  | [] => none

/-- The part of the target from its first `#` on. -/
def channelInTarget (target : CStr) : Option CStr :=
  if '#' ∈ target then some (target.dropWhile (· ≠ '#')) else none

/-- The channel of a command with the argument `a`. -/
def channelOfCommand (target a : CStr) : Option CStr :=
  if a.head? = some '#' then
    if ',' ∈ firstWord a ∨ '\x07' ∈ firstWord a then none else some (firstWord a)
  else channelInTarget target

/-- Its parameters. -/
def parametersOfCommand (a : CStr) : Option CStr :=
  if a.head? = some '#' then behindFirstWord a else if a = [] then none else some a

/-- A message with a command, and perhaps a blank and a text behind it. -/
def commandMessage (sender target word : CStr) (args : Option CStr) : CStr :=
  lineOf (messageHead sender target)
    ('!' :: word ++ match args with
      | some args => ' ' :: args
      | none => [])

section Grammar

variable {sender target word a : CStr}

theorem behindFirstWord_eq (a : CStr) : (cutFirst ' ' a).map Prod.snd = behindFirstWord a := by
  cases hcut : cutFirst ' ' a with
  | none =>
    have hall : a.dropWhile (· ≠ ' ') = [] := List.dropWhile_eq_nil_iff.mpr fun c hc => by
      simpa using fun he : c = ' ' => cutFirst_eq_none_iff.mp hcut (he ▸ hc)
    rw [behindFirstWord, hall]
    rfl
  | some parts =>
    obtain ⟨before, rest⟩ := parts
    obtain ⟨hbefore, rfl⟩ := cutFirst_eq_some_iff.mp hcut
    have hskip : (before ++ ' ' :: rest).dropWhile (· ≠ ' ') = ' ' :: rest := by
      rw [List.dropWhile_append_of_pos fun c hc => by
        simpa using fun he : c = ' ' => hbefore (he ▸ hc)]
      exact List.dropWhile_cons_of_neg (by simp)
    rw [behindFirstWord, hskip]
    rfl

/-- In a trimmed text only a comma or a bell keeps a word from being a channel. -/
theorem channelStringCheck_firstWord {rest : CStr} (htrim : IsTrimmed ('#' :: rest)) :
    channelStringCheck (firstWord ('#' :: rest)) = true ↔
      ¬ (',' ∈ firstWord ('#' :: rest) ∨ '\x07' ∈ firstWord ('#' :: rest)) := by
  have hplain : ∀ c ∈ firstWord ('#' :: rest), IsPlain c := fun c hc => by
    refine (htrim.plain ((List.takeWhile_prefix _).subset hc)).resolve_left ?_
    simpa using List.mem_takeWhile_imp hc
  have hfirst : strAt (firstWord ('#' :: rest)) 0 = '#' := rfl
  simp only [channelStringCheck, commonStringCheck, hfirst, strpbrk, Bool.and_eq_true,
    Bool.not_eq_true', List.any_eq_false, List.contains_iff_mem, BEq.rfl, Bool.true_or, and_true]
  constructor
  · rintro hnone (hcomma | hbell)
    · exact hnone ',' hcomma (by decide)
    · exact hnone '\x07' hbell (by decide)
  · intro hneither c hc hmem
    obtain ⟨hb, ht, hr, hn⟩ := hplain c hc
    simp only [commonNotAllowChar, List.mem_cons, List.not_mem_nil, or_false] at hmem
    rcases hmem with rfl | rfl | rfl | rfl | rfl | rfl
    · exact ht rfl
    · exact hr rfl
    · exact hn rfl
    · exact hneither (.inl hc)
    · exact hb rfl
    · exact hneither (.inr hc)

/-- The channel in front of the text is looked for in the target. -/
theorem getChannel_messageHead (hsender : IsSender sender) (htarget : ' ' ∉ target ∧ ':' ∉ target) :
    getChannel (messageHead sender target ++ [' ']) = channelInTarget target := by
  have hcolon : ':' ∉ sender ++ ' ' :: ("PRIVMSG ".toList ++ target) ++ [' '] := by
    simp [hsender.no_colon, htarget.2]
  have hcommand : getCommand (messageHead sender target ++ [' ']) =
      some (messageHead sender target ++ [' ']) := by
    show some (':' :: strtokBuf ':' (sender ++ ' ' :: ("PRIVMSG ".toList ++ target) ++ [' '])) = _
    rw [strtokBuf_of_not_mem hcolon]
    rfl
  have hbefore : '#' ∉ ':' :: sender ++ ' ' :: "PRIVMSG ".toList := by
    simp [hsender.no_hash]
  rw [getChannel, hcommand]
  have hsplit : messageHead sender target ++ [' '] =
      (':' :: sender ++ ' ' :: "PRIVMSG ".toList) ++ (target ++ [' ']) := by
    simp [messageHead, sentBy]
  dsimp only
  by_cases hhash : '#' ∈ target
  · obtain ⟨⟨before, rest⟩, hcut⟩ := Option.ne_none_iff_exists'.mp
      fun hnone => cutFirst_eq_none_iff.mp hnone hhash
    obtain ⟨hno, rfl⟩ := cutFirst_eq_some_iff.mp hcut
    have hcutHead : cutFirst '#' (messageHead sender (before ++ '#' :: rest) ++ [' ']) =
        some (':' :: sender ++ ' ' :: "PRIVMSG ".toList ++ before, rest ++ [' ']) := by
      refine cutFirst_eq_some_iff.mpr ⟨?_, ?_⟩
      · rw [List.mem_append, not_or]
        exact ⟨hbefore, hno⟩
      · rw [hsplit]
        simp only [List.append_assoc, List.cons_append]
    have hblank : ' ' ∉ '#' :: rest := fun hmem =>
      htarget.1 (List.mem_append_right _ hmem)
    have htoken : strtokBuf ' ' ('#' :: (rest ++ [' '])) = '#' :: rest :=
      strtokBuf_append (List.cons_ne_nil _ _) hblank
    have hdrop : (before ++ '#' :: rest).dropWhile (· ≠ '#') = '#' :: rest := by
      rw [List.dropWhile_append_of_pos fun c hc => by
        simpa using fun he : c = '#' => hno (he ▸ hc)]
      exact List.dropWhile_cons_of_neg (by simp)
    rw [hcutHead, channelInTarget, if_pos hhash, hdrop]
    dsimp only
    rw [htoken]
  · have hnone : '#' ∉ messageHead sender target ++ [' '] := by
      rw [hsplit]
      simp [hhash, hsender.no_hash]
    rw [cutFirst_eq_none_iff.mpr hnone, channelInTarget, if_neg hhash]

/-! ## What the extractors answer -/

variable {args : Option CStr}

/-- The argument of a message with a command is its text, trimmed. -/
theorem getArgument_commandMessage (args : Option CStr) (hsender : IsSender sender)
    (htarget : ':' ∉ target) (hword : ' ' ∉ word) :
    ∃ left, getArgument (commandMessage sender target word args) =
      (if trim (args.getD []) = [] then none else some (trim (args.getD [])), left) ∧
      getChannel left = getChannel (messageHead sender target ++ [' ']) ∧
      cutString " :#".toList left = (cutString " :#".toList (' ' :: trim (args.getD []))).map
        fun p => (messageHead sender target ++ " :!".toList ++ word ++ p.1, p.2) := by
  have hhead := isHead_messageHead hsender.no_blank htarget
  cases args with
  | some args =>
    refine ⟨_, getArgument_trim hhead hword args, getChannel_lineOf, ?_⟩
    exact cutHash_commandLine hhead hword
  | none =>
    have hline : commandMessage sender target word none =
        lineOf (messageHead sender target) ('!' :: word) := by
      rw [commandMessage, List.append_nil]
    have hno (s : CStr) (hs : ' ' ∉ s) :
        cutString " :#".toList (' ' :: ':' :: '!' :: s) = none := by
      refine cutString_eq_none_iff.mpr fun hin => ?_
      rcases List.infix_cons_iff.mp hin with hpre | hin
      · exact absurd hpre (by simp)
      · have hmem : ' ' ∈ ':' :: '!' :: s := hin.subset (by decide)
        simp [hs] at hmem
    refine ⟨lineOf (messageHead sender target) ('!' :: word), ?_, getChannel_lineOf, ?_⟩
    · rw [hline]
      exact getArgument_lineOf_word hhead hword
    rw [show " :#".toList = ' ' :: ':' :: ['#'] from rfl, cutString_lineOf hhead]
    rw [show ' ' :: ':' :: ['#'] = " :#".toList from rfl, hno word hword]
    rfl

/-- The parameters are always those of the grammar. -/
theorem getParameters_commandMessage (hsender : IsSender sender) (htarget : ':' ∉ target)
    (hword : ' ' ∉ word) : (getParameters (commandMessage sender target word args)).1 =
      parametersOfCommand (trim (args.getD [])) := by
  obtain ⟨left, hargument, -⟩ := getArgument_commandMessage args hsender htarget hword
  rw [getParameters, hargument, parametersOfCommand]
  generalize trim (args.getD []) = a
  rcases head_hash a with ⟨rest, rfl⟩ | ⟨hhead, hcons⟩
  · rw [if_neg (List.cons_ne_nil _ _)]
    exact behindFirstWord_eq ('#' :: rest)
  · rw [if_neg hhead]
    by_cases ha : a = []
    · rw [if_pos ha]
    · rw [if_neg ha]
      split
      · next heq => exact absurd (Prod.mk.inj heq).1 (hcons _)
      · next heq => exact (Prod.mk.inj heq).1.symm

/-- The channel is that of the grammar, unless it is taken out of the text. -/
theorem getAccessChannel_commandMessage (hsender : IsSender sender)
    (htarget : ' ' ∉ target ∧ ':' ∉ target) (hword : ' ' ∉ word) :
    (getAccessChannel (commandMessage sender target word args)).1 =
        channelOfCommand target (trim (args.getD [])) ↔
      (trim (args.getD [])).head? = some '#' ∨ '#' ∈ target ∨
        ¬ " :#".toList <:+: ' ' :: trim (args.getD []) := by
  obtain ⟨left, hargument, hchannel, hhash⟩ :=
    getArgument_commandMessage args hsender htarget.2 hword
  have htrim := isTrimmed_trim (args.getD [])
  rw [getChannel_messageHead hsender htarget] at hchannel
  generalize trim (args.getD []) = a at *
  rcases head_hash a with ⟨rest, rfl⟩ | ⟨hhead, hcons⟩
  · -- the first word of the argument
    refine iff_of_true ?_ (.inl rfl)
    rw [if_neg (List.cons_ne_nil _ _)] at hargument
    have htoken : strtokBuf ' ' ('#' :: rest) = firstWord ('#' :: rest) :=
      strtokBuf_of_head (by decide)
    have hnamed : channelOfCommand target ('#' :: rest) =
        if ',' ∈ firstWord ('#' :: rest) ∨ '\x07' ∈ firstWord ('#' :: rest) then none
        else some (firstWord ('#' :: rest)) := if_pos rfl
    rw [getAccessChannel_of_channel hargument, htoken, hnamed]
    by_cases hcheck : channelStringCheck (firstWord ('#' :: rest)) = true
    · rw [if_pos hcheck, if_neg ((channelStringCheck_firstWord htrim).mp hcheck)]
    · rw [if_neg hcheck, if_pos (not_not.mp fun h =>
        hcheck ((channelStringCheck_firstWord htrim).mpr h))]
  · have hne : ∀ rest, (if a = [] then none else some a) ≠ some ('#' :: rest) := by
      intro rest
      split
      · exact nofun
      · exact hcons rest
    rw [getAccessChannel_of_argument hargument hne, hchannel, channelOfCommand, if_neg hhead,
      or_iff_right hhead]
    by_cases htargetHash : '#' ∈ target
    · refine iff_of_true ?_ (.inl htargetHash)
      rw [channelInTarget, if_pos htargetHash]
    · -- no channel is in front of the text: the text is searched for one
      rw [or_iff_right htargetHash, channelInTarget, if_neg htargetHash, hhash]
      cases hcut : cutString " :#".toList (' ' :: a) with
      | none => exact iff_of_true rfl (cutString_eq_none_iff.mp hcut)
      | some parts =>
        refine iff_of_false (fun h => nomatch h) fun hno => ?_
        rw [cutString_eq_none_iff.mpr hno] at hcut
        cases hcut

end Grammar

/-- When the channel and the parameters of a command are those of the grammar: for every target
and every argument, unless ` :#` is found in the argument of a command that neither names a
channel in front nor was sent to one. -/
theorem command_grammar_iff {sender target word : CStr} (args : Option CStr)
    (hsender : ' ' ∉ sender ∧ ':' ∉ sender ∧ '#' ∉ sender)
    (htarget : ' ' ∉ target ∧ ':' ∉ target) (hword : ' ' ∉ word ∧ ':' ∉ word) :
    ((getAccessChannel (commandMessage sender target word args)).1 =
        channelOfCommand target (trim (args.getD [])) ∧
      (getParameters (commandMessage sender target word args)).1 =
        parametersOfCommand (trim (args.getD []))) ↔
    (trim (args.getD [])).head? = some '#' ∨ '#' ∈ target ∨
      ¬ " :#".toList <:+: ' ' :: trim (args.getD []) := by
  have hsent : IsSender sender := ⟨hsender.1, hsender.2.1, hsender.2.2⟩
  rw [and_iff_left (getParameters_commandMessage hsent htarget.2 hword.1)]
  exact getAccessChannel_commandMessage hsent htarget hword.1

/-- The channel of a `say` is taken from the argument, and the text is what follows. -/
theorem command_grammar_say :
    (getAccessChannel (commandMessage "alice!a@h" "#home" "say" (some " #chan  hello "))).1 =
        channelOfCommand "#home" (trim " #chan  hello ") ∧
      (getParameters (commandMessage "alice!a@h" "#home" "say" (some " #chan  hello "))).1 =
        parametersOfCommand (trim " #chan  hello ") :=
  (command_grammar_iff (some " #chan  hello ") (by decide) (by decide) (by decide)).mpr
    (.inr (.inl (by decide)))

example : (getAccessChannel (commandMessage "alice!a@h" "#home" "say" (some " #chan  hello "))).1 =
    some "#chan".toList := by decide

/-- A text behind ` :#` in a private message is taken for the channel. -/
theorem channel_from_text : ¬ ∀ (sender target word : CStr) (args : Option CStr),
    (' ' ∉ sender ∧ ':' ∉ sender ∧ '#' ∉ sender) → (' ' ∉ target ∧ ':' ∉ target) →
      (' ' ∉ word ∧ ':' ∉ word) →
        (getAccessChannel (commandMessage sender target word args)).1 =
          channelOfCommand target (trim (args.getD [])) := by
  intro hall
  have htext := hall "alice!a@h" "ebotula" "say" (some "hello :#chan") (by decide) (by decide)
    (by decide)
  revert htext
  decide

end Ebotula
