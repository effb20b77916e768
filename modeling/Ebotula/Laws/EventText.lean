import Ebotula.Laws.Lines
import Ebotula.Laws.Sending
import Ebotula.Laws.Words
import Ebotula.Runs

/-!
# The text of an event

A KICK and a TOPIC name their channel in front of a text that some user has chosen. The
worker looks for the channel with the extractor of the bot commands: an argument that the
text seems to have comes first, and only without one the channel in front of the text, read
up to the first colon of the line. So the bot joins or resets the channel of the event
exactly when the text names no other one in that way and, where it names none, the channel
has no colon in its name.
-/

set_option autoImplicit false

namespace Ebotula

open Library

variable {head text sender c nick : CStr}

/-! ## The channel of a line with a text -/

/-- The argument that a text seems to have, when it is taken for a bot command: what follows
the first word behind the first mark. -/
def textArgument (text : CStr) : Option CStr :=
  match cutString " :!".toList (" :".toList ++ text) with
  | some (_, pStr) =>
    match cutFirst ' ' pStr with
    | some (_, pPos) => if (trim pPos).isEmpty then none else some (trim pPos)
    | none => none
  | none => none

/-- What is found behind a head is the argument of the text, and the head stays as it is. -/
theorem getArgument_lineOf (h : IsHead head) (text : CStr) :
    ∃ text', getArgument (lineOf head text) = (textArgument text, lineOf head text') := by
  have hcut : cutString " :!".toList (lineOf head text) =
      (cutString " :!".toList (' ' :: ':' :: text)).map fun p => (head ++ p.1, p.2) :=
    cutString_lineOf h
  rw [getArgument, textArgument, hcut, show " :".toList ++ text = ' ' :: ':' :: text from rfl]
  cases hmark : cutString " :!".toList (' ' :: ':' :: text) with
  | none => exact ⟨text, rfl⟩
  | some split =>
    obtain ⟨before, pStr⟩ := split
    simp only [Option.map_some]
    cases cutFirst ' ' pStr with
    | none => exact ⟨text, rfl⟩
    | some parts =>
      obtain ⟨word, pPos⟩ := parts
      -- the mark stands where the text begins or behind it, so the line still has its text
      have hsplit := cutString_eq_some hmark
      obtain ⟨text', htext'⟩ : ∃ text', before ++ " :!".toList ++ word ++ ' ' :: trim pPos =
          ' ' :: ':' :: text' := by
        cases before with
        | nil => exact ⟨'!' :: word ++ ' ' :: trim pPos, rfl⟩
        | cons b before =>
          obtain ⟨hb, hsplit⟩ := List.cons.inj hsplit
          cases before with
          | nil => exact absurd (List.cons.inj hsplit).1 (by decide)
          | cons b' before =>
            obtain ⟨hb', -⟩ := List.cons.inj hsplit
            exact ⟨before ++ " :!".toList ++ word ++ ' ' :: trim pPos, by
              rw [← hb, ← hb']
              rfl⟩
      refine ⟨text', Prod.ext rfl ?_⟩
      dsimp only
      rw [lineOf, ← htext']
      simp only [List.append_assoc]

/-- The channel that a text names for itself, if it seems to have a channel as its argument. -/
def textChannel (text : CStr) : Option CStr :=
  match textArgument text with
  | some ('#' :: rest) => some (strtokBuf ' ' ('#' :: rest))
  | _ => none

/-- Behind a head with a channel, the channel of the line is the one that the text names, and
else the one of the head. -/
theorem getAccessChannel_lineOf (h : IsHead head) {pChannel : CStr}
    (hchannel : getChannel (head ++ [' ']) = some pChannel) (text : CStr) :
    ∃ text', getAccessChannel (lineOf head text) =
      (match textChannel text with
        | some named => if channelStringCheck named then some named else none
        | none => some pChannel, lineOf head text') := by
  obtain ⟨text', hargument⟩ := getArgument_lineOf h text
  refine ⟨text', ?_⟩
  rw [textChannel]
  split
  · next named hnamed =>
    split at hnamed
    · next rest hrest =>
      obtain rfl := Option.some.inj hnamed
      exact getAccessChannel_of_channel (hrest ▸ hargument)
    · cases hnamed
  · next hnamed =>
    have hne (rest : CStr) : textArgument text ≠ some ('#' :: rest) := by
      intro hrest
      rw [hrest] at hnamed
      cases hnamed
    rw [getAccessChannel_of_argument hargument hne, getChannel_lineOf, hchannel]

theorem getParameters_lineOf (h : IsHead head) (text : CStr) :
    ∃ text', (getParameters (lineOf head text)).2 = lineOf head text' := by
  obtain ⟨text', hargument⟩ := getArgument_lineOf h text
  refine ⟨text', ?_⟩
  rw [getParameters, hargument]
  split
  · next heq => exact (Prod.mk.inj heq).2.symm
  · next heq => exact (Prod.mk.inj heq).2.symm

/-- What a worker's item holds of a line with a text. -/
theorem fillItem_lineOf (h : IsHead head) {pChannel : CStr}
    (hchannel : getChannel (head ++ [' ']) = some pChannel) (text : CStr)
    (userLevel : UserLevel) (bInteractiveMode : Bool) : ∃ text' text'',
      (fillItem (lineOf head text) userLevel bInteractiveMode).pRawLine = lineOf head text' ∧
      (fillItem (lineOf head text) userLevel bInteractiveMode).pCallingNick =
        getNickname (lineOf head text'') := by
  obtain ⟨text₁, haccess⟩ := getAccessChannel_lineOf h hchannel text
  obtain ⟨text₂, hparameters⟩ := getParameters_lineOf h text₁
  refine ⟨text₂, text₁, ?_, ?_⟩
  · show (getParameters (getAccessChannel (lineOf head text)).2).2 = lineOf head text₂
    rw [haccess, hparameters]
  · show getNickname (getAccessChannel (lineOf head text)).2 = getNickname (lineOf head text₁)
    rw [haccess]

/-! ## The head of an event -/

/-- The head of a line that tells of a KICK of a nick from a channel. -/
def kickHead (sender c nick : CStr) : CStr := sentBy sender ("KICK ".toList ++ (c ++ ' ' :: nick))

/-- The head of a line that tells of a new topic of a channel. -/
def topicHead (sender c : CStr) : CStr := sentBy sender ("TOPIC ".toList ++ c)

/-- What the sender of an event is: a word without a colon or a channel sign. -/
structure IsSender (sender : CStr) : Prop where
  no_blank : ' ' ∉ sender
  no_colon : ':' ∉ sender
  no_hash : '#' ∉ sender

/-- A name that the server takes for a channel of this kind. -/
structure IsChannelName (c : CStr) : Prop where
  hash : c.head? = some '#'
  check : channelStringCheck c = true

theorem IsChannelName.cons (h : IsChannelName c) : ∃ rest, c = '#' :: rest := by
  cases c with
  | nil => cases h.hash
  | cons a rest => exact ⟨rest, by rw [Option.some.inj h.hash]⟩

theorem IsChannelName.no_blank (h : IsChannelName c) : ' ' ∉ c := by
  intro hmem
  have hcheck := h.check
  simp only [channelStringCheck, commonStringCheck, strpbrk, Bool.and_eq_true, Bool.not_eq_true',
    List.any_eq_false] at hcheck
  exact absurd (hcheck.1 ' ' hmem) (by decide)

/-- The channel in front of the text is read up to its first colon. -/
theorem getChannel_event (word behind : CStr) (hsender : IsSender sender) (hc : IsChannelName c)
    (hword : '#' ∉ word ∧ ':' ∉ word) :
    getChannel (sentBy sender (word ++ (c ++ ' ' :: behind))) = some (c.takeWhile (· ≠ ':')) := by
  have hcolon : ':' ∉ sender.dropWhile (· = ':') := fun h =>
    hsender.no_colon ((List.dropWhile_suffix _).subset h)
  -- the preamble goes on behind the channel only if that has no colon
  obtain ⟨rest, hrest, hpreamble⟩ : ∃ rest, (rest = [] ∨ rest.head? = some ' ') ∧
      getCommand (sentBy sender (word ++ (c ++ ' ' :: behind))) =
        some (':' :: (sender ++ ' ' :: (word ++ (c.takeWhile (· ≠ ':') ++ rest)))) := by
    have hcommand : getCommand (sentBy sender (word ++ (c ++ ' ' :: behind))) =
        some (':' :: strtokBuf ':' (sender ++ ' ' :: (word ++ (c ++ ' ' :: behind)))) := rfl
    rw [hcommand, strtokBuf_append_word (by decide), if_neg hcolon, takeWhile_ne_append,
      if_neg hword.2, takeWhile_ne_append]
    split
    · exact ⟨[], .inl rfl, by rw [List.append_nil]⟩
    · next hno =>
      have hc : c.takeWhile (· ≠ ':') = c := List.takeWhile_eq_self_iff.mpr fun a ha =>
        decide_eq_true fun e : a = ':' => hno (e ▸ ha)
      exact ⟨(' ' :: behind).takeWhile (· ≠ ':'), .inr rfl, by rw [hc]⟩
  obtain ⟨name, rfl⟩ := hc.cons
  have hhash : '#' ∉ ':' :: (sender ++ ' ' :: word) := by
    simp [hsender.no_hash, hword.1]
  have hcut : cutFirst '#' (':' :: (sender ++ ' ' :: (word ++
      (('#' :: name).takeWhile (· ≠ ':') ++ rest)))) =
        some (':' :: (sender ++ ' ' :: word), name.takeWhile (· ≠ ':') ++ rest) := by
    rw [show (':' :: (sender ++ ' ' :: (word ++ (('#' :: name).takeWhile (· ≠ ':') ++ rest)))) =
      (':' :: (sender ++ ' ' :: word)) ++ '#' :: (name.takeWhile (· ≠ ':') ++ rest) by simp]
    exact cutFirst_append _ hhash
  have hblank : ' ' ∉ ('#' :: name).takeWhile (· ≠ ':') := fun h =>
    hc.no_blank ((List.takeWhile_prefix _).subset h)
  have htoken : strtokBuf ' ' (('#' :: name).takeWhile (· ≠ ':') ++ rest) =
      ('#' :: name).takeWhile (· ≠ ':') := by
    rcases hrest with rfl | hrest
    · rw [List.append_nil, strtokBuf_of_not_mem hblank]
    · cases rest with
      | nil => cases hrest
      | cons a rest =>
        obtain rfl := Option.some.inj hrest
        exact strtokBuf_append (by simp) hblank
  rw [getChannel, hpreamble]
  dsimp only
  rw [hcut]
  exact congrArg some htoken

/-- A word behind a blank looks like a text only if it begins with a colon. -/
theorem isHead_word {word rest : CStr} (hblank : ' ' ∉ word) (hword : word.head? ≠ some ':')
    (hrest : IsHead rest) (hrest' : rest.head? ≠ some ':') : IsHead (' ' :: (word ++ rest)) := by
  have hfirst : ¬ [' ', ':'] <+: ' ' :: (word ++ rest) := by
    intro hpat
    obtain ⟨s, hs⟩ := (List.cons_prefix_cons.mp hpat).2
    have hhead : (word ++ rest).head? = some ':' := by rw [← hs]; rfl
    rw [List.head?_append] at hhead
    cases hw : word.head? with
    | none => exact hrest' (by rwa [hw, Option.none_or] at hhead)
    | some a => exact hword (by rwa [hw, Option.some_or, ← hw] at hhead)
  have hnone : cutString [' ', ':'] rest = none := cutString_eq_none_iff.mpr hrest
  refine cutString_eq_none_iff.mp (?_ : cutString [' ', ':'] (' ' :: (word ++ rest)) = none)
  rw [cutString_cons hfirst, cutString_skip hblank, hnone]
  rfl

theorem IsChannelName.isHead (h : IsChannelName c) {rest : CStr} (hrest : IsHead rest)
    (hrest' : rest.head? ≠ some ':') : IsHead (' ' :: (c ++ rest)) :=
  isHead_word h.no_blank (by rw [h.hash]; decide) hrest hrest'

/-- The nick that a KICK names: a word that does not begin like a text. -/
def IsKicked (nick : CStr) : Prop := ' ' ∉ nick ∧ nick.head? ≠ some ':'

theorem isHead_kickHead (hsender : IsSender sender) (hc : IsChannelName c) (hnick : IsKicked nick) :
    IsHead (kickHead sender c nick) := by
  have hlast : IsHead (' ' :: (nick ++ [])) := isHead_word hnick.1 hnick.2 (by decide) nofun
  rw [List.append_nil] at hlast
  have hmiddle : IsHead (' ' :: ("KICK".toList ++ ' ' :: (c ++ ' ' :: nick))) :=
    isHead_word (by decide) (by decide) (hc.isHead hlast (by simp)) (by simp)
  exact isHead_sentBy hsender.no_blank hmiddle

theorem isHead_topicHead (hsender : IsSender sender) (hc : IsChannelName c) :
    IsHead (topicHead sender c) := by
  have hlast : IsHead (' ' :: (c ++ [])) := hc.isHead (by decide) nofun
  rw [List.append_nil] at hlast
  have hmiddle : IsHead (' ' :: ("TOPIC".toList ++ ' ' :: c)) :=
    isHead_word (by decide) (by decide) hlast (by simp)
  exact isHead_sentBy hsender.no_blank hmiddle

theorem getChannel_kickHead (hsender : IsSender sender) (hc : IsChannelName c) :
    getChannel (kickHead sender c nick ++ [' ']) = some (c.takeWhile (· ≠ ':')) := by
  have h := getChannel_event "KICK ".toList (nick ++ [' ']) hsender hc (by decide)
  simpa only [kickHead, sentBy, List.append_assoc, List.cons_append] using h

theorem getChannel_topicHead (hsender : IsSender sender) (hc : IsChannelName c) :
    getChannel (topicHead sender c ++ [' ']) = some (c.takeWhile (· ≠ ':')) := by
  have h := getChannel_event "TOPIC ".toList [] hsender hc (by decide)
  simpa only [topicHead, sentBy, List.append_assoc, List.cons_append] using h

/-! ## What the bot does -/

/-- The text leaves the channel of the event alone: it names that channel or none, and where
it names none the channel has no colon in its name. -/
def KeepsChannel (c text : CStr) : Prop :=
  match textChannel text with
  | some named => named = c
  | none => ':' ∉ c

instance (c text : CStr) : Decidable (KeepsChannel c text) := by
  unfold KeepsChannel
  split <;> infer_instance

/-- The worker takes the channel of the event for the one of the line exactly when the text
leaves it alone. -/
theorem accessChannel_event (text : CStr) (h : IsHead head) (hc : IsChannelName c)
    (hchannel : getChannel (head ++ [' ']) = some (c.takeWhile (· ≠ ':'))) :
    (getAccessChannel (lineOf head text)).1 = some c ↔ KeepsChannel c text := by
  obtain ⟨text', haccess⟩ := getAccessChannel_lineOf h hchannel text
  rw [haccess, KeepsChannel]
  cases textChannel text with
  | some named =>
    dsimp only
    constructor
    · intro heq
      split at heq
      · exact Option.some.inj heq
      · cases heq
    · rintro rfl
      rw [if_pos hc.check]
  | none =>
    dsimp only
    rw [Option.some.injEq, List.takeWhile_eq_self_iff]
    constructor
    · intro hall hmem
      exact of_decide_eq_true (hall ':' hmem) rfl
    · intro hno a ha
      exact decide_eq_true fun e : a = ':' => hno (e ▸ ha)

variable {G : Type} [DbLib G] {env : Env} {w : World G} {pMsg : MsgItem}

/-- A bot that is kicked joins the channel of the line. -/
theorem run_hRejoinAfterKick (hsender : IsSender sender) (hc : IsChannelName c)
    (hnick : IsKicked nick) (hbot : strcaseeq nick w.pBotname)
    (hraw : pMsg.pRawLine = lineOf (kickHead sender c nick) text)
    (hchannel : pMsg.pAccessChannel = some c) :
    ∃ w', (hRejoinAfterKick pMsg).run (performQuiet env) w = some ((), w') ∧
      w'.sent = w.sent ++ ["JOIN ".toList ++ c ++ "\r\n".toList] := by
  have hline : pMsg.pRawLine = (':' :: sender) ++ ' ' :: ("KICK".toList ++ ' ' :: (c ++ ' ' ::
      (nick ++ ' ' :: (':' :: text)))) := by
    rw [hraw]
    simp [lineOf, kickHead, sentBy]
  have hsender' : ' ' ∉ ':' :: sender := by simp [hsender.no_blank]
  simp only [hRejoinAfterKick, rmFirstPart, hline, hchannel]
  rw [getFirstPart_blank hsender' (by simp), getFirstPart_blank (by decide) (by simp),
    getFirstPart_blank hc.no_blank (by simp), getFirstPart_blank hnick.1 (List.cons_ne_nil _ _)]
  simp only [Prog.run_bind, run_botname, Option.bind_some, hbot, if_true, run_join, run_logger]
  exact ⟨_, rfl, rfl⟩

/-- The lines with which a bot sets a topic back that somebody else has changed. -/
def resetLines (w : World G) (pCallingNick : Option CStr) (c : CStr) : List CStr :=
  match pCallingNick, w.db.fetch .channel (key c) with
  | some pNick, some pChannelSet =>
    if strcaseeq pNick w.pBotname then []
    else ["TOPIC ".toList ++ c ++ " :".toList ++ (getTopic pChannelSet).getD [] ++ "\r\n".toList]
  | _, _ => []

/-- A bot that sees a new topic resets the channel of the line. -/
theorem run_hResetTopic (hchannel : pMsg.pAccessChannel = some c) :
    ∃ w', (hResetTopic pMsg).run (performQuiet env) w = some ((), w') ∧
      w'.sent = w.sent ++ resetLines w pMsg.pCallingNick c := by
  unfold hResetTopic resetLines
  cases pMsg.pCallingNick with
  | none => exact ⟨w, rfl, (List.append_nil _).symm⟩
  | some pNick =>
    simp only [Prog.run_bind, run_botname, Option.bind_some, hchannel]
    by_cases hbot : strcaseeq pNick w.pBotname
    · refine ⟨w, by simp only [hbot, Bool.not_true, Bool.false_eq_true, if_false]; rfl, ?_⟩
      cases w.db.fetch .channel (key c) with
      | none => exact (List.append_nil _).symm
      | some pChannelSet =>
        dsimp only
        rw [if_pos hbot, List.append_nil]
    · simp only [hbot, Bool.not_false, if_true, Prog.run_bind, run_getDb, Databases.getDb_some,
        Option.bind_some]
      cases w.db.fetch .channel (key c) with
      | none => exact ⟨w, rfl, (List.append_nil _).symm⟩
      | some pChannelSet =>
        simp only [Prog.run_bind, run_topic, run_logger, Option.bind_some]
        exact ⟨_, rfl, by rw [if_neg hbot]; rfl⟩

/-- Who has changed a topic is read in front of the channel. -/
theorem getNickname_topicHead (text : CStr) :
    getNickname (lineOf (topicHead sender c) text) = getNickname (topicHead sender c) := by
  have htoken (rest : CStr) : strtokBuf ' ' (sender ++ " TOPIC ".toList ++ rest) =
      strtokBuf ' ' (sender ++ " TOPI".toList ++ ['C']) := by
    rw [← strtokBuf_append_delim (t := rest) (by decide)]
    simp
  have hmask : getNetmask (lineOf (topicHead sender c) text) = getNetmask (topicHead sender c) := by
    have hline : lineOf (topicHead sender c) text =
        ':' :: (sender ++ " TOPIC ".toList ++ (c ++ ' ' :: ':' :: text)) := by
      simp [lineOf, topicHead, sentBy]
    have hhead : topicHead sender c = ':' :: (sender ++ " TOPIC ".toList ++ c) := by
      simp [topicHead, sentBy]
    rw [hline, hhead, getNetmask, getNetmask, htoken, htoken]
  rw [getNickname, getNickname, hmask]

/-- A KICK of the bot and a new topic concern the channel of the event, and no other one, exactly
when their text leaves it alone. -/
theorem event_text_keeps_channel (env : Env) (w : World G) (sender c nick text : CStr)
    (userLevel : UserLevel) (hsender : IsSender sender) (hc : IsChannelName c)
    (hnick : IsKicked nick) (hbot : strcaseeq nick w.pBotname) :
    (((getAccessChannel (lineOf (kickHead sender c nick) text)).1 = some c ∧
        ∃ w', (hRejoinAfterKick (fillItem (lineOf (kickHead sender c nick) text) userLevel
            false)).run (performQuiet env) w = some ((), w') ∧
          w'.sent = w.sent ++ ["JOIN ".toList ++ c ++ "\r\n".toList]) ↔ KeepsChannel c text) ∧
    (((getAccessChannel (lineOf (topicHead sender c) text)).1 = some c ∧
        ∃ w', (hResetTopic (fillItem (lineOf (topicHead sender c) text) userLevel false)).run
            (performQuiet env) w = some ((), w') ∧
          w'.sent = w.sent ++ resetLines w (getNickname (topicHead sender c)) c) ↔
      KeepsChannel c text) := by
  have hkick := isHead_kickHead hsender hc hnick
  have htopic := isHead_topicHead hsender hc
  have hkicked := accessChannel_event text hkick hc (getChannel_kickHead hsender hc)
  have hreset := accessChannel_event text htopic hc (getChannel_topicHead hsender hc)
  refine ⟨⟨fun h => hkicked.mp h.1, fun hkeeps => ?_⟩, ⟨fun h => hreset.mp h.1, fun hkeeps => ?_⟩⟩
  · obtain ⟨_, _, hraw, -⟩ :=
      fillItem_lineOf hkick (getChannel_kickHead hsender hc) text userLevel false
    have hchannel := hkicked.mpr hkeeps
    exact ⟨hchannel, run_hRejoinAfterKick hsender hc hnick hbot hraw hchannel⟩
  · obtain ⟨_, text', -, hnickname⟩ :=
      fillItem_lineOf htopic (getChannel_topicHead hsender hc) text userLevel false
    have hchannel := hreset.mpr hkeeps
    rw [← getNickname_topicHead text', ← hnickname]
    exact ⟨hchannel, run_hResetTopic hchannel⟩

/-- A KICK and a new topic with harmless texts. -/
theorem event_text_harmless :
    (getAccessChannel (lineOf (kickHead "alice!a@h" "#c" "ebotula") "be quiet")).1 =
      some "#c".toList ∧
    (getAccessChannel (lineOf (topicHead "alice!a@h" "#c") "be quiet")).1 = some "#c".toList := by
  obtain ⟨hkick, htopic⟩ := event_text_keeps_channel calmEnv freshBot "alice!a@h" "#c" "ebotula"
    "be quiet" .noneLevel ⟨by decide, by decide, by decide⟩ ⟨by decide, by decide⟩
    ⟨by decide, by decide⟩ (by decide +kernel)
  exact ⟨(hkick.mpr (by decide +kernel)).1, (htopic.mpr (by decide +kernel)).1⟩

/-- A bot that is kicked from one channel joins another one, which the text names. -/
theorem event_text_redirects : IsSender "alice!a@h" ∧ IsChannelName "#c" ∧ ∃ w',
    (hRejoinAfterKick (fillItem
        (lineOf (kickHead "alice!a@h" "#c" "ebotula") "!x #trap") .noneLevel false)).run
      (performQuiet calmEnv) freshBot = some ((), w') ∧
    w'.sent = ["JOIN #trap\r\n".toList] := by
  have computed : ((hRejoinAfterKick (fillItem
      (lineOf (kickHead "alice!a@h" "#c" "ebotula") "!x #trap") .noneLevel false)).run
      (performQuiet calmEnv) freshBot).map (fun r => r.2.sent) =
        some ["JOIN #trap\r\n".toList] := by
    decide +kernel
  obtain ⟨⟨⟨⟩, w'⟩, hrun, hsent⟩ := Option.map_eq_some_iff.mp computed
  exact ⟨⟨by decide, by decide, by decide⟩, ⟨by decide, by decide⟩, w', hrun, hsent⟩

end Ebotula
