import Ebotula.Laws.OneCommand

/-!
# The bot says one command at a time

Every routine of the bot honors the contract of `OneCommand`, one lemma for each: texts over the
alphabet go in, and only commands over the alphabet go out to the server. With these lemmas the
law about the tasks holds of every interleaving of the main thread, the workers, the timing
thread and the thread that joins the channels.
-/

set_option autoImplicit false

namespace Ebotula

open Library Alphabet

variable {A : Alphabet}

/-! ## Operations -/

section Operations

variable {db : DatabaseID} {key value pNick pMsgStr pChannel pMod pParameter : Option CStr}

theorem honors_getDb {Q : Option CStr → Prop} (hdb : db ≠ .user) (h : ∀ r, A.SpellsOpt r → Q r) :
    (getDb db key).Honors (quietContract A) Q := ⟨hdb, h⟩

theorem honors_listDb {Q : List CStr → Prop} (h : ∀ r, (∀ k ∈ r, A.Spells k) → Q r) :
    (listDb db).Honors (quietContract A) Q := ⟨trivial, h⟩

theorem honors_existDb {Q : Bool → Prop} (h : ∀ r, Q r) :
    (existDb db key).Honors (quietContract A) Q := ⟨trivial, fun r _ => h r⟩

theorem honors_checkDb {Q : Bool → Prop} (h : ∀ r, Q r) :
    (checkDb db key value).Honors (quietContract A) Q := ⟨trivial, fun r _ => h r⟩

theorem honors_logger {priority : LogLevel} {format : CStr} {args : List FmtArg} {Q : Unit → Prop}
    (h : Q ()) : (logger priority format args).Honors (quietContract A) Q := ⟨trivial, fun _ _ => h⟩

theorem honors_botname {Q : CStr → Prop} (h : ∀ r, A.Spells r → Q r) :
    botname.Honors (quietContract A) Q := ⟨trivial, h⟩

theorem honors_hostText {text : HostText} {Q : CStr → Prop} (h : ∀ r, A.Spells r → Q r) :
    (hostText text).Honors (quietContract A) Q := ⟨trivial, h⟩

theorem honors_unwritten {place : Unwritten} {Q : CStr → Prop} (h : ∀ r, A.Spells r → Q r) :
    (unwritten place).Honors (quietContract A) Q := ⟨trivial, h⟩

theorem honors_unwrittenPointer {Q : Option CStr → Prop} (h : ∀ r, Q r) :
    unwrittenPointer.Honors (quietContract A) Q := ⟨trivial, fun r _ => h r⟩

theorem honors_setBotname {name : CStr} {Q : Unit → Prop} (hname : A.Spells name) (h : Q ()) :
    (setBotname name).Honors (quietContract A) Q := ⟨hname, fun _ _ => h⟩

theorem honors_readStop {Q : Bool → Prop} (h : ∀ r, Q r) : readStop.Honors (quietContract A) Q :=
  ⟨trivial, fun r _ => h r⟩

theorem honors_setStop {Q : Unit → Prop} (h : Q ()) : setStop.Honors (quietContract A) Q :=
  ⟨trivial, fun _ _ => h⟩

theorem honors_setAgain {Q : Unit → Prop} (h : Q ()) : setAgain.Honors (quietContract A) Q :=
  ⟨trivial, fun _ _ => h⟩

theorem honors_callbackHead {Q : Option Addr → Prop} (h : ∀ r, Q r) :
    callbackHead.Honors (quietContract A) Q := ⟨trivial, fun r _ => h r⟩

theorem honors_callbackTail {Q : Option Addr → Prop} (h : ∀ r, Q r) :
    callbackTail.Honors (quietContract A) Q := ⟨trivial, fun r _ => h r⟩

theorem honors_insertNextCallback {element : Option Addr} {item : CallbackItem} {Q : Bool → Prop}
    (hitem : A.SpellsItem item) (h : ∀ r, Q r) :
    (insertNextCallbackDList element item).Honors (quietContract A) Q := ⟨hitem, fun r _ => h r⟩

theorem honors_removeCallback {element : Option Addr} {Q : Option CallbackItem → Prop}
    (h : ∀ r, (∀ item ∈ r, A.SpellsItem item) → Q r) :
    (removeCallbackDList element).Honors (quietContract A) Q := ⟨trivial, h⟩

theorem honors_searchNickname {element : Option Addr} {nickname : Option CStr}
    {Q : Option Addr → Prop} (h : ∀ r, Q r) :
    (searchNicknameFromCallbackDList element nickname).Honors (quietContract A) Q :=
  ⟨trivial, fun r _ => h r⟩

theorem honors_time {Q : Int → Prop} (h : ∀ r, Q r) : time.Honors (quietContract A) Q :=
  ⟨trivial, fun r _ => h r⟩

theorem honors_crash {α : Type} {Q : α → Prop} :
    (crash : Quiet α).Honors (quietContract A) Q := ⟨trivial, fun r => r.elim⟩

theorem honors_addDb {Q : Bool → Prop} (hkey : A.SpellsOpt key)
    (hvalue : db ≠ .user → A.SpellsOpt value) (h : ∀ r, Q r) :
    (addDb db key value).Honors (botContract A) Q := ⟨⟨hkey, hvalue⟩, fun r _ => h r⟩

theorem honors_replaceDb {Q : Bool → Prop} (hkey : A.SpellsOpt key)
    (hvalue : db ≠ .user → A.SpellsOpt value) (h : ∀ r, Q r) :
    (replaceDb db key value).Honors (botContract A) Q := ⟨⟨hkey, hvalue⟩, fun r _ => h r⟩

theorem honors_delDb {Q : Bool → Prop} (h : ∀ r, Q r) :
    (delDb db key).Honors (botContract A) Q := ⟨trivial, fun r _ => h r⟩

/-! ## Lines for the server -/

/-- The end of the line is no part of a conversion. -/
theorem vsprintf_ends {f line : CStr} {args : List FmtArg}
    (h : vsprintf (f ++ "\r\n".toList) args = some line) :
    ∃ text, vsprintf f args = some text ∧ line = text ++ "\r\n".toList := by
  fun_induction vsprintf f args generalizing line with
  | case1 args =>
    rw [List.nil_append, vsprintf_plain args (by decide)] at h
    cases h
    exact ⟨[], rfl, rfl⟩
  | case2 a f args ha ih =>
    rw [List.cons_append, vsprintf_cons ha] at h
    obtain ⟨t, ht, rfl⟩ := Option.map_eq_some_iff.mp h
    obtain ⟨text, htext, rfl⟩ := ih ht
    exact ⟨a :: text, by rw [htext, Option.map_some], rfl⟩
  | case3 a args ha =>
    obtain rfl := not_not.mp ha
    -- a conversion cannot begin with the end of the line
    cases args with
    | nil => simp [vsprintf] at h
    | cons arg args => cases arg <;> simp [vsprintf] at h
  | case4 a args ha f ih =>
    obtain rfl := not_not.mp ha
    simp only [List.cons_append, vsprintf, ne_eq, not_true_eq_false, if_false, if_true] at h
    obtain ⟨t, ht, rfl⟩ := Option.map_eq_some_iff.mp h
    obtain ⟨text, htext, rfl⟩ := ih ht
    exact ⟨'%' :: text, by rw [htext, Option.map_some], rfl⟩
  | case5 a ha f s args hk ih | case7 a ha f c args hk ih =>
    obtain rfl := not_not.mp ha
    simp only [List.cons_append, vsprintf, ne_eq, not_true_eq_false, if_false, if_true, hk] at h
    obtain ⟨t, ht, rfl⟩ := Option.map_eq_some_iff.mp h
    obtain ⟨text, htext, rfl⟩ := ih ht
    exact ⟨_, by rw [htext, Option.map_some], by simp only [List.append_assoc, List.cons_append]⟩
  | case9 a ha k f hk n args hd ih =>
    obtain rfl := not_not.mp ha
    simp only [List.cons_append, vsprintf, ne_eq, not_true_eq_false, if_false, hk, if_pos hd] at h
    obtain ⟨t, ht, rfl⟩ := Option.map_eq_some_iff.mp h
    obtain ⟨text, htext, rfl⟩ := ih ht
    exact ⟨_, by rw [htext, Option.map_some], by rw [List.append_assoc]⟩
  | case6 a ha k f hk s args hs | case8 a ha k f hk s args hs | case10 a ha k f hk s args hs =>
    obtain rfl := not_not.mp ha
    simp only [List.cons_append, vsprintf, ne_eq, not_true_eq_false, if_false, hk, if_neg hs,
      reduceCtorEq] at h
  | case11 a ha k f hk =>
    obtain rfl := not_not.mp ha
    simp only [List.cons_append, vsprintf, ne_eq, not_true_eq_false, if_false, hk,
      reduceCtorEq] at h

theorem vsprintf_plain_append {s f : CStr} {args : List FmtArg} (h : ∀ c ∈ s, c ≠ '%') :
    vsprintf (s ++ f) args = (vsprintf f args).map (s ++ ·) := by
  induction s with
  | nil => exact Option.map_id'.symm
  | cons c s ih =>
    obtain ⟨hc, hs⟩ := List.forall_mem_cons.mp h
    rw [List.cons_append, vsprintf_cons hc, ih hs, Option.map_map]
    rfl

/-- A format with the verb in front prints one command. -/
theorem oneCommand_vsprintf {verb f line : CStr} {args : List FmtArg} (hverb : verb ∈ verbs)
    (hf : A.Spells f) (hargs : ∀ arg ∈ args, A.Prints arg)
    (h : vsprintf (verb ++ ' ' :: f ++ "\r\n".toList) args = some line) : A.OneCommand line := by
  have hplain : ∀ c ∈ verb, c ≠ '%' := fun c hc => (verbs_plain verb hverb c hc).1
  obtain ⟨text, htext, rfl⟩ := vsprintf_ends h
  rw [vsprintf_plain_append hplain, vsprintf_cons (by decide), Option.map_map] at htext
  obtain ⟨printed, hprinted, rfl⟩ := Option.map_eq_some_iff.mp htext
  exact oneCommand_intro hverb (hf.vsprintf hargs hprinted)

theorem honors_sendCommand {format : CStr} {args : List (CStr × Option CStr)} {Q : Unit → Prop}
    (verb f : CStr) (hformat : format = verb ++ ' ' :: f ++ "\r\n".toList) (hverb : verb ∈ verbs)
    (hf : f.all isOwn = true) (hargs : ∀ arg ∈ args, A.SpellsOpt arg.2) (h : Q ()) :
    (sendCommand format args).Honors (quietContract A) Q := by
  unfold sendCommand
  split
  · exact honors_logger h
  · split
    · next line hline =>
      refine ⟨oneCommand_vsprintf hverb (spells_own hf) (fun arg harg => ?_) (hformat ▸ hline),
        fun _ _ => h⟩
      obtain ⟨a, ha, rfl⟩ := List.mem_map.mp harg
      exact hargs a ha
    · exact honors_crash

/-- A text that ends with the end of a line. -/
theorem honors_sendEnded {format pNick text target msg : CStr} {Q : Unit → Prop} (verb : CStr)
    (hformat : format = verb ++ " %s :%s\r\n".toList) (hverb : verb ∈ verbs)
    (hp : A.Spells pNick) (htext : A.Spells text) (h : Q ()) :
    (sendCommand format [(target, some pNick), (msg, some (text ++ "\r\n".toList))]).Honors
      (quietContract A) Q := by
  have hprinted : vsprintf format [.str pNick, .str (text ++ "\r\n".toList)] =
      some (verb ++ (' ' :: pNick ++ " :".toList ++ text) ++ "\r\n\r\n".toList) := by
    rw [hformat, vsprintf_plain_append fun c hc => (verbs_plain verb hverb c hc).1]
    simp [vsprintf]
  have hargs : A.Spells (' ' :: pNick ++ " :".toList ++ text) := by
    simp only [spells_append, spells_cons]
    exact ⟨⟨⟨has_own rfl, hp⟩, spells_text rfl⟩, htext⟩
  unfold sendCommand
  simp only [List.find?_cons, List.find?_nil, Option.isNone_some, List.map_cons, List.map_nil,
    hprinted]
  exact ⟨⟨_, ⟨verb, hverb, _, hargs, .inr rfl, rfl⟩, .inr rfl⟩, fun _ _ => h⟩

theorem honors_quit {Q : Unit → Prop} (h : Q ()) : quit.Honors (quietContract A) Q :=
  ⟨⟨"QUIT", ⟨"QUIT", by decide, [], spells_nil, .inl rfl, rfl⟩, .inl rfl⟩, fun _ _ => h⟩

end Operations

-- from here on a routine is taken apart by its lemmas only
attribute [local irreducible] Prog.Honors

section Commands

variable {pNick pMsgStr pChannel pMod pParameter : Option CStr} {Q : Unit → Prop}

theorem honors_privmsg (hp : A.SpellsOpt pNick) (hm : A.SpellsOpt pMsgStr) (h : Q ()) :
    (privmsg pNick pMsgStr).Honors (quietContract A) Q :=
  honors_sendCommand "PRIVMSG" "%s :%s" rfl (by decide) (by decide) (by simp [hp, hm]) h

theorem honors_notice (hp : A.SpellsOpt pNick) (hm : A.SpellsOpt pMsgStr) (h : Q ()) :
    (notice pNick pMsgStr).Honors (quietContract A) Q :=
  honors_sendCommand "NOTICE" "%s :%s" rfl (by decide) (by decide) (by simp [hp, hm]) h

theorem honors_join (hc : A.SpellsOpt pChannel) (h : Q ()) :
    (join pChannel).Honors (quietContract A) Q :=
  honors_sendCommand "JOIN" "%s" rfl (by decide) (by decide) (by simp [hc]) h

theorem honors_part (hc : A.SpellsOpt pChannel) (h : Q ()) :
    (part pChannel).Honors (quietContract A) Q :=
  honors_sendCommand "PART" "%s" rfl (by decide) (by decide) (by simp [hc]) h

theorem honors_ping (hp : A.SpellsOpt pNick) (h : Q ()) :
    (ping pNick).Honors (quietContract A) Q :=
  honors_sendCommand "PING" "%s" rfl (by decide) (by decide) (by simp [hp]) h

theorem honors_nick (hp : A.SpellsOpt pNick) (h : Q ()) :
    (nick pNick).Honors (quietContract A) Q :=
  honors_sendCommand "NICK" "%s" rfl (by decide) (by decide) (by simp [hp]) h

theorem honors_topic (hc : A.SpellsOpt pChannel) (hm : A.SpellsOpt pMsgStr) (h : Q ()) :
    (topic pChannel pMsgStr).Honors (quietContract A) Q :=
  honors_sendCommand "TOPIC" "%s :%s" rfl (by decide) (by decide) (by simp [hc, hm]) h

theorem honors_kick (hc : A.SpellsOpt pChannel) (hp : A.SpellsOpt pNick)
    (hm : A.SpellsOpt pMsgStr) (h : Q ()) :
    (kick pChannel pNick pMsgStr).Honors (quietContract A) Q :=
  honors_sendCommand "KICK" "%s %s :%s" rfl (by decide) (by decide) (by simp [hc, hp, hm]) h

theorem honors_ban (hc : A.SpellsOpt pChannel) (hm : A.SpellsOpt pMsgStr) (h : Q ()) :
    (ban pChannel pMsgStr).Honors (quietContract A) Q :=
  honors_sendCommand "MODE" "%s +b %s" rfl (by decide) (by decide) (by simp [hc, hm]) h

theorem honors_deban (hc : A.SpellsOpt pChannel) (hm : A.SpellsOpt pMsgStr) (h : Q ()) :
    (deban pChannel pMsgStr).Honors (quietContract A) Q :=
  honors_sendCommand "MODE" "%s -b %s" rfl (by decide) (by decide) (by simp [hc, hm]) h

theorem honors_whois (hp : A.SpellsOpt pNick) (h : Q ()) :
    (whois pNick).Honors (quietContract A) Q :=
  honors_sendCommand "WHOIS" "%s" rfl (by decide) (by decide) (by simp [hp]) h

theorem honors_mode (hc : A.SpellsOpt pChannel) (hm : A.SpellsOpt pMod)
    (hp : A.SpellsOpt pParameter) (h : Q ()) :
    (mode pChannel pMod pParameter).Honors (quietContract A) Q :=
  honors_sendCommand "MODE" "%s %s %s" rfl (by decide) (by decide)
    (by simp [hc, hm, hp.getD spells_nil]) h

theorem honors_invite (hc : A.SpellsOpt pChannel) (hp : A.SpellsOpt pNick) (h : Q ()) :
    (invite pChannel pNick).Honors (quietContract A) Q :=
  honors_sendCommand "INVITE" "%s %s" rfl (by decide) (by decide)
    (by simp [hp, hc.getD spells_nil]) h

/-- The answer to a PING that has a parameter. -/
theorem honors_pong {pPong : CStr} (hp : A.Spells pPong) (h : Q ()) :
    (pong (some pPong)).Honors (quietContract A) Q := by
  have hsent : (sendCommand "PONG %s\r\n" [("pong", some pPong)]).Honors (quietContract A) Q :=
    honors_sendCommand "PONG" "%s" rfl (by decide) (by decide) (by simp [hp]) h
  unfold pong
  exact hsent

theorem honors_action (hp : A.SpellsOpt pNick) (hm : A.SpellsOpt pMsgStr) (h : Q ()) :
    (action pNick pMsgStr).Honors (quietContract A) Q := by
  cases pNick with
  | none => exact honors_logger h
  | some target =>
    cases pMsgStr with
    | none => exact honors_logger h
    | some text =>
      refine honors_privmsg hp (spellsOpt_some.mpr ?_) h
      simp only [spells_append]
      exact ⟨⟨spells_own (by decide), spellsOpt_some.mp hm⟩, spells_own (by decide)⟩

/-- The text may end before the format does, at a NUL that was printed. -/
theorem honors_sendText {answerMode : AnswerMode} {format printed : CStr} {args : List FmtArg}
    (hp : A.SpellsOpt pNick) (hf : A.Spells format) (hargs : ∀ arg ∈ args, A.withNul.Prints arg)
    (hprinted : vsprintf format args = some printed) (h : Q ()) :
    (sendText answerMode pNick printed).Honors (quietContract A) Q := by
  have htext : A.Spells (cString printed) := spells_cString (hf.withNul.vsprintf hargs hprinted)
  cases answerMode with
  | noticeMode => exact honors_notice hp (spellsOpt_some.mpr htext) h
  | prvMsgMode => exact honors_privmsg hp (spellsOpt_some.mpr htext) h

theorem honors_sendMsg {answerMode : AnswerMode} {format : CStr} {args : List FmtArg}
    (hp : A.SpellsOpt pNick) (hf : A.Spells format) (hargs : ∀ arg ∈ args, A.withNul.Prints arg)
    (h : Q ()) : (sendMsg answerMode pNick format args).Honors (quietContract A) Q := by
  unfold sendMsg
  split
  · exact honors_crash
  · next pMsg hprinted =>
    split
    · exact honors_sendText hp hf hargs hprinted h
    · exact honors_crash

end Commands

/-! ## The item of a line -/

/-- What a handler is given is made of texts over the alphabet. -/
structure MsgItem.Within (A : Alphabet) (pMsg : MsgItem) : Prop where
  channel : A.SpellsOpt pMsg.pAccessChannel
  nick : A.SpellsOpt pMsg.pCallingNick
  netmask : A.SpellsOpt pMsg.pNetmask
  line : A.Spells pMsg.pRawLine

theorem fillItem_within {pMsgLine : CStr} (h : A.Spells pMsgLine) (userLevel : UserLevel)
    (bInteractiveMode : Bool) : (fillItem pMsgLine userLevel bInteractiveMode).Within A where
  channel := h.getAccessChannel.1
  nick := h.getAccessChannel.2.getNickname
  netmask := h.getNetmask
  line := h.getAccessChannel.2.getParameters.2

section Answers

variable {pMsg : MsgItem} {s t : CStr} {Q : Unit → Prop}

theorem MsgItem.Within.parameters (h : pMsg.Within A) : A.SpellsOpt pMsg.parameters :=
  h.line.getParameters.1

theorem MsgItem.Within.argument (h : pMsg.Within A) :
    A.SpellsOpt (getArgument pMsg.pRawLine).1 := h.line.getArgument.1

theorem honors_answer {format : CStr} {args : List FmtArg} (hmsg : pMsg.Within A)
    (hf : A.Spells format) (hargs : ∀ arg ∈ args, A.withNul.Prints arg) (h : Q ()) :
    (answer pMsg format args).Honors (quietContract A) Q := by
  unfold answer
  split
  · exact honors_crash
  · next text htext => exact honors_sendText hmsg.nick hf hargs htext h

/-- A line of a list. -/
theorem honors_sendListLine {line : CStr} (hmsg : pMsg.Within A) (hline : A.Spells line)
    (h : Q ()) : (sendListLine pMsg line).Honors (quietContract A) Q :=
  honors_sendMsg hmsg.nick hline (fun _ harg => absurd harg List.not_mem_nil) h

/-- An answer without arguments. -/
theorem honors_say {format : CStr} (hmsg : pMsg.Within A) (hf : A.Spells format) (h : Q ()) :
    (answer pMsg format []).Honors (quietContract A) Q :=
  honors_answer hmsg hf (fun _ harg => absurd harg List.not_mem_nil) h

/-- An answer that ends with the end of a line, unless a NUL stands before it. -/
theorem honors_answerEnded {f : CStr} (hmsg : pMsg.Within A) (hf : A.Spells f) (h : Q ()) :
    (answer pMsg (f ++ "\r\n".toList) []).Honors (quietContract A) Q := by
  unfold answer sendText
  split
  · exact honors_crash
  · next printed hprinted =>
    obtain ⟨text, htext, rfl⟩ := vsprintf_ends hprinted
    have hspells : A.Spells text := hf.vsprintf (fun _ harg => absurd harg List.not_mem_nil) htext
    have hend : "\r\n".toList.takeWhile (· ≠ '\x00') = "\r\n".toList := by decide
    rw [cString, List.takeWhile_append, hend]
    cases hn : pMsg.pCallingNick with
    | none => split <;> exact honors_logger h
    | some pNick =>
      have hnick := hmsg.nick.congr hn
      split
      · split
        · exact honors_sendEnded "NOTICE" rfl (by decide) (spellsOpt_some.mp hnick) hspells h
        · exact honors_notice hnick (spellsOpt_some.mpr hspells.cString) h
      · split
        · exact honors_sendEnded "PRIVMSG" rfl (by decide) (spellsOpt_some.mp hnick) hspells h
        · exact honors_privmsg hnick (spellsOpt_some.mpr hspells.cString) h

/-- An answer that stands in the source, with texts for its arguments. -/
theorem honors_tell {format : CStr} {args : List FmtArg} (hmsg : pMsg.Within A)
    (hf : format.all isOwn = true) (hargs : ∀ arg ∈ args, A.Prints arg) (h : Q ()) :
    (answer pMsg format args).Honors (quietContract A) Q :=
  honors_answer hmsg (spells_own hf) (fun arg harg => (hargs arg harg).withNul) h

theorem prints_str {s : Option CStr} (hs : A.SpellsOpt s) : ∀ arg ∈ [FmtArg.str s], A.Prints arg :=
  fun _ harg => List.mem_singleton.mp harg ▸ hs

theorem prints_two {s t : Option CStr} (hs : A.SpellsOpt s) (ht : A.SpellsOpt t) :
    ∀ arg ∈ [FmtArg.str s, .str t], A.Prints arg :=
  List.forall_mem_cons.mpr ⟨hs, prints_str ht⟩

theorem honors_answerNoChannel (hmsg : pMsg.Within A) (h : Q ()) :
    (answerNoChannel pMsg).Honors (quietContract A) Q := by
  unfold answerNoChannel
  exact honors_say hmsg (spells_own (by decide)) h

theorem honors_answerNoParameters (hmsg : pMsg.Within A) (h : Q ()) :
    (answerNoParameters pMsg).Honors (quietContract A) Q := by
  unfold answerNoParameters
  exact honors_say hmsg (spells_own (by decide)) h

end Answers

/-! ## Accounts -/

section Accounts

variable {pLogin : CStr} {pNetmask pChannel : Option CStr} {Q : Unit → Prop}

theorem honors_secondChar {pMod : CStr} {Q : Char → Prop} (h : ∀ c, Q c) :
    (secondChar pMod).Honors (quietContract A) Q := by
  cases pMod with
  | nil => exact .seq (honors_unwritten fun r _ => .ret (h _))
  | cons c rest => exact .ret (h _)

theorem honors_setFirstChar {pMod : CStr} {c : Char} {Q : CStr → Prop} (hmod : A.Spells pMod)
    (hc : A.Has c) (h : ∀ r, A.Spells r → Q r) :
    (setFirstChar pMod c).Honors (quietContract A) Q := by
  cases pMod with
  | nil => exact .seq (honors_unwritten fun r hr => .ret (h _ (spells_cons.mpr ⟨hc, hr⟩)))
  | cons a rest => exact .ret (h _ (spells_cons.mpr ⟨hc, (spells_cons.mp hmod).2⟩))

theorem honors_getUserLevel {Q : UserLevel → Prop} (h : ∀ level, Q level) :
    (getUserLevel pChannel pNetmask).Honors (quietContract A) Q := by
  unfold getUserLevel
  refine .seq (honors_getDb (by decide) fun login _ => ?_)
  cases login with
  | none => exact .ret (h _)
  | some pLogin =>
    cases pChannel with
    | none =>
      exact .seq (honors_getDb (by decide) fun right _ => by cases right <;> exact .ret (h _))
    | some pChannel =>
      refine .seq (honors_getDb (by decide) fun right _ => ?_)
      cases right with
      | none =>
        exact .seq (honors_getDb (by decide) fun right _ => by cases right <;> exact .ret (h _))
      | some pLevel =>
        dsimp only
        split_ifs <;> exact .ret (h _)

theorem honors_logOn (hmask : A.SpellsOpt pNetmask) (hlogin : A.Spells pLogin) (h : Q ()) :
    (logOn pNetmask pLogin).Honors (botContract A) Q := by
  have hlogin' : A.SpellsOpt (some pLogin) := spellsOpt_some.mpr hlogin
  have stamp : (stampLogin pLogin).Honors (botContract A) Q := by
    unfold stampLogin
    simp only [Prog.liftM_eq]
    refine .seq (.lift (honors_logger ?_))
    refine .seq (.lift (honors_time fun now => ?_))
    refine .seq (.lift (honors_existDb fun b => ?_))
    have htime : A.SpellsOpt (some (sprintLong now)) := spellsOpt_some.mpr (spells_sprintLong now)
    split
    · refine .seq (honors_replaceDb hlogin' (fun _ => htime) fun _ => ?_)
      exact .lift (honors_logger h)
    · refine .seq (honors_addDb hlogin' (fun _ => htime) fun _ => ?_)
      exact .lift (honors_logger h)
  refine .seq ?_
  unfold bindSession
  simp only [Prog.liftM_eq]
  refine .seq (.lift (honors_existDb fun b => ?_))
  split
  · refine .seq (.lift (honors_getDb (by decide) fun old _ => ?_))
    cases old with
    | none => exact .ret stamp
    | some pOldNetmask =>
      refine .seq (honors_delDb fun _ => ?_)
      refine .seq (honors_addDb hmask (fun _ => hlogin') fun _ => ?_)
      exact .seq (honors_replaceDb hlogin' (fun _ => hmask) fun _ => .ret stamp)
  · refine .seq (honors_addDb hmask (fun _ => hlogin') fun _ => ?_)
    exact .seq (honors_addDb hlogin' (fun _ => hmask) fun _ => .ret stamp)

theorem honors_logOut (h : Q ()) : (logOut pLogin).Honors (botContract A) Q := by
  unfold logOut
  simp only [Prog.liftM_eq]
  refine .seq (.lift (honors_getDb (by decide) fun netmask _ => ?_))
  cases netmask with
  | none => exact .ret h
  | some pNetmask =>
    refine .seq (honors_delDb fun _ => .seq (honors_delDb fun _ => ?_))
    exact .lift (honors_logger h)

theorem honors_rmAccessRights (h : Q ()) : (rmAccessRights pLogin).Honors (botContract A) Q := by
  unfold rmAccessRights
  simp only [Prog.liftM_eq]
  refine .seq (.lift (honors_logger (.seq (honors_delDb fun _ => ?_))))
  refine .seq (.lift (honors_listDb fun channels _ => ?_))
  exact Prog.honors_forEach (fun _ _ => .seq (honors_delDb fun _ => .ret trivial)) h

theorem honors_rmAccount (h : Q ()) : (rmAccount pLogin).Honors (botContract A) Q := by
  unfold rmAccount
  simp only [Prog.liftM_eq]
  refine .seq (.lift (honors_logger (.seq (honors_logOut (.seq (honors_rmAccessRights ?_))))))
  exact .seq (honors_delDb fun _ => .seq (honors_delDb fun _ => .ret h))

theorem honors_rmDeadLogins {lCheckTime : Int} (h : Q ()) :
    (rmDeadLogins lCheckTime).Honors (botContract A) Q := by
  have turn (pLogin : CStr) :
      (rmDeadLogin lCheckTime pLogin).Honors (botContract A) fun _ => True := by
    unfold rmDeadLogin
    simp only [Prog.liftM_eq]
    refine .seq (.lift (honors_getDb (by decide) fun time _ => ?_))
    cases time with
    | none => exact .ret trivial
    | some pTime =>
      refine .seq (.lift (honors_existDb fun b => ?_))
      split
      · split
        · exact .seq (honors_logOut (.lift (honors_logger trivial)))
        · exact .ret trivial
      · exact .ret trivial
  unfold rmDeadLogins
  simp only [Prog.liftM_eq]
  exact .seq (.lift (honors_listDb fun logins _ => Prog.honors_forEach (fun l _ => turn l) h))

theorem honors_rmDeadAccounts {lCheckTime : Int} (h : Q ()) :
    (rmDeadAccounts lCheckTime).Honors (botContract A) Q := by
  have turn (pLogin : CStr) :
      (rmDeadAccount lCheckTime pLogin).Honors (botContract A) fun _ => True := by
    unfold rmDeadAccount
    simp only [Prog.liftM_eq]
    refine .seq (.lift (honors_getDb (by decide) fun time _ => ?_))
    cases time with
    | none => exact .ret trivial
    | some pTime =>
      dsimp only
      split
      · exact .seq (honors_rmAccount (.lift (honors_logger trivial)))
      · exact .ret trivial
  unfold rmDeadAccounts
  simp only [Prog.liftM_eq]
  exact .seq (.lift (honors_listDb fun logins _ => Prog.honors_forEach (fun l _ => turn l) h))

theorem honors_checkUserLevel {pCmdLogin : CStr} {login : Option CStr} {Q : Bool → Prop}
    (h : ∀ b, Q b) : (checkUserLevel pCmdLogin login pChannel).Honors (quietContract A) Q := by
  unfold checkUserLevel
  lift_lets
  intro rest
  have hrest (pMod : Option CStr) : (rest pMod).Honors (quietContract A) Q := by
    cases pMod with
    | none => exact .ret (h _)
    | some pMod =>
      refine .seq (honors_secondChar fun c => ?_)
      split
      · exact .ret (h _)
      · refine .seq (honors_existDb fun b => ?_)
        split
        · exact .ret (h _)
        · refine .seq (honors_secondChar fun c => ?_)
          split <;> exact .ret (h _)
  cases login with
  | none => exact .seq (honors_unwrittenPointer fun pMod => hrest pMod)
  | some pLogin =>
    cases pChannel with
    | none => exact .seq honors_crash
    | some pChannel =>
      refine .seq (honors_getDb (by decide) fun right _ => ?_)
      cases right with
      | none => exact .seq (honors_getDb (by decide) fun pMod _ => hrest pMod)
      | some pMod => exact .seq (.ret (hrest (some pMod)))

end Accounts

end Ebotula
