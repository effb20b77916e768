import Ebotula.Laws.Speech

/-!
# The handlers of the commands say one command at a time

The contract of `OneCommand` for the handlers of `command.c`, in their order. What a handler is
given is made of texts over the alphabet, and what it answers with is written in the source, found
in its line, or kept in the databases.
-/

set_option autoImplicit false

namespace Ebotula

open Library Alphabet

attribute [local irreducible] Prog.Honors

variable {A : Alphabet} {pMsg : MsgItem} {s t : CStr}

/-! ## Help -/

/-- All that the help system says is written in the source. -/
theorem own_help (cmd : Cmd) : (pCmdString cmd).all isOwn = true ∧
    (getIrcHelp cmd).pShort.all isOwn = true ∧ (getIrcHelp cmd).pIrcSyntax.all isOwn = true ∧
    ∀ text ∈ (getIrcHelp cmd).pIrcHelp, text.all isOwn = true := by
  cases cmd <;>
  · dsimp only [getIrcHelp, pCmdString]
    refine ⟨own_text rfl, own_text rfl, own_text rfl, ?_⟩
    repeat' first
      | exact fun _ h => absurd h List.not_mem_nil
      | refine List.forall_mem_cons.mpr ⟨own_text rfl, ?_⟩

theorem honors_helpLine (hmsg : pMsg.Within A) (i : Cmd) :
    (helpLine pMsg i).Honors (quietContract A) fun _ => True := by
  have hfill (n : Nat) : A.Spells (List.replicate n ' ') := fun c hc =>
    (List.eq_of_mem_replicate hc) ▸ has_own (by decide)
  unfold helpLine
  split
  · exact .ret trivial
  · split
    · exact .ret trivial
    · refine honors_say hmsg ?_ trivial
      simp only [spells_append]
      exact ⟨⟨spells_own (own_help i).1, hfill _⟩, spells_own (own_help i).2.1⟩

theorem honors_help (hmsg : pMsg.Within A) :
    (help pMsg).Honors (quietContract A) fun _ => True := by
  have texts (i : Cmd) {Q : Unit → Prop} (h : Q ()) :
      (Prog.forEach (fun text => answer pMsg text []) (getIrcHelp i).pIrcHelp).Honors
        (quietContract A) Q :=
    Prog.honors_forEach (fun text htext =>
      honors_say hmsg (spells_own ((own_help i).2.2.2 text htext)) trivial) h
  unfold help
  have hpar := hmsg.parameters
  cases hp : pMsg.parameters with
  | none =>
    refine .seq (honors_logger (.seq (texts .cmdNone (.seq ?_))))
    refine Prog.honors_forEach (fun i _ => honors_helpLine hmsg i) ?_
    exact honors_say hmsg (spells_text rfl) trivial
  | some pParameter =>
    dsimp only
    have hword : A.Spells (strtokBuf ' ' pParameter) := (hpar pParameter hp).strtokBuf
    generalize hkey : (if strAt (strtokBuf ' ' pParameter) 0 ≠ '!' then
      '!' :: strtokBuf ' ' pParameter else strtokBuf ' ' pParameter) = pKey
    have hspell : A.Spells pKey := by
      rw [← hkey]
      split
      · exact spells_cons.mpr ⟨has_own (by decide), hword⟩
      · exact hword
    refine .seq (honors_logger (.seq (honors_logger ?_)))
    split
    · next i _ =>
      refine .seq (honors_logger (.seq (honors_say hmsg ?_ (.seq (texts i (.seq ?_))))))
      · simp only [spells_append]
        exact ⟨⟨spells_text rfl, hspell⟩, spells_own rfl⟩
      · refine honors_say hmsg (spells_own (own_help i).2.2.1) ?_
        exact honors_say hmsg (spells_text rfl) trivial
    · exact honors_tell hmsg (own_text rfl) (prints_str (spellsOpt_some.mpr hspell)) trivial

/-! ## Accounts -/

theorem honors_helloMaster (hmsg : pMsg.Within A) :
    (helloMaster pMsg).Honors (botContract A) fun _ => True := by
  have hvalue : A.SpellsOpt (some ['m']) := spellsOpt_some.mpr (spells_own rfl)
  unfold helloMaster
  simp only [Prog.liftM_eq]
  refine .seq (.lift (honors_existDb fun b => ?_))
  split
  · refine .seq (honors_addDb hmsg.nick (fun _ => hvalue) fun r => ?_)
    split <;> exact .lift (honors_tell hmsg (own_text rfl) (prints_str hmsg.nick) trivial)
  · refine .seq (honors_replaceDb hmsg.nick (fun _ => hvalue) fun r => ?_)
    split <;> exact .lift (honors_tell hmsg (own_text rfl) (prints_str hmsg.nick) trivial)

theorem honors_hello (hmsg : pMsg.Within A) :
    (hello pMsg).Honors (botContract A) fun _ => True := by
  unfold hello
  simp only [Prog.liftM_eq]
  refine .seq (.lift (honors_logger ?_))
  split
  · exact .lift (honors_say hmsg (spells_text rfl) trivial)
  · refine .seq (.lift (honors_listDb fun pList _ => ?_))
    refine .seq (honors_addDb hmsg.nick (fun h => absurd rfl h) fun r => ?_)
    have rest : (if pList.isEmpty = true then helloMaster pMsg else pure ()).Honors
        (botContract A) fun _ => True := by
      split
      · exact honors_helloMaster hmsg
      · exact .ret trivial
    split
    · refine .seq (honors_logOn hmsg.netmask (hmsg.nick.getD spells_nil) ?_)
      refine .seq (.lift (honors_say hmsg (spells_text rfl) ?_))
      refine .seq (.lift (honors_tell hmsg (own_text rfl) (prints_str hmsg.nick) ?_))
      exact .seq (.lift (honors_say hmsg (spells_text rfl) rest))
    · exact .seq (.lift (honors_tell hmsg (own_text rfl) (prints_str hmsg.nick) rest))

theorem honors_password (hmsg : pMsg.Within A) :
    (password pMsg).Honors (botContract A) fun _ => True := by
  unfold password
  simp only [Prog.liftM_eq]
  refine .seq (.lift (honors_getDb (by decide) fun login hlogin => ?_))
  cases login with
  | none => exact .ret trivial
  | some pLogin =>
    refine .seq (.lift (honors_logger ?_))
    split
    · refine .optional (.lift (honors_say hmsg (spells_text rfl) trivial)) ?_
      refine .seq (honors_replaceDb hlogin (fun h => absurd rfl h) fun r => ?_)
      exact .lift (honors_say hmsg (spells_text rfl) trivial)
    · exact .ret trivial

theorem honors_logoff (hmsg : pMsg.Within A) :
    (logoff pMsg).Honors (botContract A) fun _ => True := by
  have turn {pLogin pChannel : CStr} (hchannel : A.Spells pChannel) :
      (logoffChannel pMsg pLogin pChannel).Honors (quietContract A) fun _ => True := by
    have hchannel := spellsOpt_some.mpr hchannel
    unfold logoffChannel
    refine .seq (honors_getDb (by decide) fun right hright => ?_)
    cases right with
    | none =>
      dsimp only
      split
      · exact honors_mode hchannel (spellsOpt_some.mpr (spells_text rfl)) hmsg.nick trivial
      · exact .ret trivial
    | some pMode =>
      refine .seq (honors_setFirstChar (spellsOpt_some.mp hright) (has_own rfl) fun r hr => ?_)
      exact honors_mode hchannel (spellsOpt_some.mpr hr) hmsg.nick trivial
  unfold logoff
  simp only [Prog.liftM_eq]
  refine .seq (.lift (honors_getDb (by decide) fun login _ => ?_))
  cases login with
  | none => exact .ret trivial
  | some pLogin =>
    refine .seq (honors_logOut ?_)
    split
    · unfold logoffChannels
      refine .lift (.seq (honors_listDb fun channels hchannels => .seq ?_))
      refine Prog.honors_forEach (fun c hc => turn (hchannels c hc)) ?_
      exact honors_say hmsg (spells_text rfl) trivial
    · exact .ret trivial

theorem honors_identChannels (hmsg : pMsg.Within A) (pLogin : CStr) :
    (identChannels pMsg pLogin).Honors (quietContract A) fun _ => True := by
  have turn {isMaster : Bool} {pChannel : CStr} (hchannel : A.Spells pChannel) :
      (identChannel pMsg isMaster pLogin pChannel).Honors (quietContract A) fun _ => True := by
    have hchannel := spellsOpt_some.mpr hchannel
    unfold identChannel
    split
    · exact honors_mode hchannel (spellsOpt_some.mpr (spells_text rfl)) hmsg.nick trivial
    · refine .seq (honors_getDb (by decide) fun right hright => ?_)
      cases right with
      | none => exact .ret trivial
      | some pMod => exact honors_mode hchannel hright hmsg.nick trivial
  unfold identChannels
  refine .seq (honors_existDb fun isMaster => .seq (honors_listDb fun channels hchannels => ?_))
  refine .seq (honors_logger (Prog.honors_forEach (fun c hc => turn (hchannels c hc)) trivial))

theorem honors_ident (hmsg : pMsg.Within A) :
    (ident pMsg).Honors (botContract A) fun _ => True := by
  unfold ident
  simp only [Prog.liftM_eq]
  refine .seq (.lift (honors_logger (.seq (.lift (honors_existDb fun b => ?_)))))
  split
  · exact .lift (honors_say hmsg (spells_text rfl) trivial)
  · have hpar := hmsg.parameters
    cases hp : pMsg.parameters with
    | none => exact .lift (honors_answerNoParameters hmsg trivial)
    | some pParameter =>
      have hlogin : A.Spells (strtokBuf ' ' pParameter) := (hpar pParameter hp).strtokBuf
      refine .optional (.lift (honors_say hmsg (spells_text rfl) trivial)) ?_
      refine .seq (.lift (honors_logger (.seq (.lift (honors_checkDb fun known => ?_)))))
      split
      · refine .seq (.lift (honors_logger (.seq (honors_logOn hmsg.netmask hlogin ?_))))
        refine .seq (.lift (honors_say hmsg (spells_text rfl) ?_))
        exact .lift (honors_identChannels hmsg _)
      · exact .lift (honors_say hmsg (spells_text rfl) trivial)

/-! ## Channels -/

theorem honors_addChannel (hmsg : pMsg.Within A) :
    (addChannel pMsg).Honors (botContract A) fun _ => True := by
  unfold addChannel
  simp only [Prog.liftM_eq]
  cases hc : pMsg.pAccessChannel with
  | none => exact .lift (honors_answerNoChannel hmsg trivial)
  | some pAccessChannel =>
    have hchan := hmsg.channel.congr hc
    have hprints := prints_str hchan
    dsimp only
    split
    · exact .lift (honors_answerNoChannel hmsg trivial)
    · refine .seq (.lift (honors_existDb fun b => ?_))
      split
      · exact .lift (honors_tell hmsg (own_text rfl) hprints trivial)
      · refine .seq (.lift (honors_logger ?_))
        refine .seq (honors_addDb hchan (fun _ => spellsOpt_some.mpr (spells_text rfl)) fun r => ?_)
        refine .seq (.lift (honors_tell hmsg (own_text rfl) hprints ?_))
        refine .seq (.lift (honors_join hchan ?_))
        exact .lift (honors_tell hmsg (own_text rfl) hprints trivial)

theorem honors_rmChannel (hmsg : pMsg.Within A) :
    (rmChannel pMsg).Honors (botContract A) fun _ => True := by
  unfold rmChannel
  simp only [Prog.liftM_eq]
  cases hc : pMsg.pAccessChannel with
  | none => exact .lift (honors_answerNoChannel hmsg trivial)
  | some pAccessChannel =>
    have hchan := hmsg.channel.congr hc
    have hprints := prints_str hchan
    refine .seq (.lift (honors_logger (.seq (honors_delDb fun r => ?_))))
    split <;> refine .seq (.lift (honors_tell hmsg (own_text rfl) hprints ?_))
    all_goals
      refine .seq (.lift (honors_part hchan ?_))
      exact .lift (honors_tell hmsg (own_text rfl) hprints trivial)

theorem honors_joinChannel (hmsg : pMsg.Within A) :
    (joinChannel pMsg).Honors (quietContract A) fun _ => True := by
  unfold joinChannel
  cases hc : pMsg.pAccessChannel with
  | none => exact honors_answerNoChannel hmsg trivial
  | some pAccessChannel =>
    have hchan := hmsg.channel.congr hc
    dsimp only
    split
    · exact honors_answerNoChannel hmsg trivial
    · refine .seq (honors_logger (.seq (honors_join hchan ?_)))
      exact honors_tell hmsg (own_text rfl) (prints_str hchan) trivial

theorem honors_partChannel (hmsg : pMsg.Within A) :
    (partChannel pMsg).Honors (quietContract A) fun _ => True := by
  unfold partChannel
  cases hc : pMsg.pAccessChannel with
  | none => exact honors_answerNoChannel hmsg trivial
  | some pAccessChannel =>
    have hchan := hmsg.channel.congr hc
    refine .seq (honors_logger (.seq (honors_part hchan ?_)))
    exact honors_tell hmsg (own_text rfl) (prints_str hchan) trivial

/-! ## The bot itself -/

theorem honors_stopParser {Q : Unit → Prop} (h : Q ()) :
    stopParser.Honors (quietContract A) Q := by
  unfold stopParser
  refine .seq (honors_readStop fun b => .optional (honors_quit trivial) ?_)
  exact .seq (honors_setStop (honors_logger h))

theorem honors_die (hmsg : pMsg.Within A) :
    (die pMsg).Honors (quietContract A) fun _ => True := by
  unfold die
  exact .seq (honors_say hmsg (spells_text rfl) (honors_stopParser trivial))

theorem honors_restart (hmsg : pMsg.Within A) :
    (restart pMsg).Honors (quietContract A) fun _ => True := by
  unfold restart
  exact .seq (honors_say hmsg (spells_text rfl)
    (.seq (honors_setAgain (honors_stopParser trivial))))

theorem honors_setNick (hmsg : pMsg.Within A) :
    (setNick pMsg).Honors (quietContract A) fun _ => True := by
  unfold setNick
  cases hp : pMsg.parameters with
  | none => exact honors_answerNoParameters hmsg trivial
  | some pParameter =>
    have hpar := hmsg.parameters.congr hp
    dsimp only
    split
    · exact honors_tell hmsg (own_text rfl) (prints_str hpar) trivial
    · refine .seq (honors_nick hpar ?_)
      refine .seq (honors_tell hmsg (own_text rfl) (prints_str hpar) ?_)
      exact honors_setBotname (spellsOpt_some.mp hpar) trivial

/-! ## The channel records -/

theorem honors_chanlist (hmsg : pMsg.Within A) :
    (chanlist pMsg).Honors (quietContract A) fun _ => True := by
  have turn {pChannel : CStr} (hchannel : A.Spells pChannel) :
      (chanlistChannel pMsg pChannel).Honors (quietContract A) fun _ => True := by
    unfold chanlistChannel
    refine .seq (honors_getDb (by decide) fun set hset => ?_)
    cases set with
    | none => exact .ret trivial
    | some pChannelSet =>
      dsimp only
      split
      · exact honors_crash
      · next sChannelData hdata =>
        have hspells := (spellsOpt_some.mp hset).strToChannelData hdata
        refine .seq (honors_logger ?_)
        refine .seq (honors_tell hmsg (own_text rfl) (prints_two (spellsOpt_some.mpr hchannel)
          (spellsOpt_some.mpr hspells.modes.channelModeToStr)) ?_)
        have told {format : CStr} (hf : format.all isOwn = true) {s : CStr}
            (hs : A.SpellsOpt (some s)) :
            (answer pMsg format [.str s]).Honors (quietContract A) fun _ => True :=
          honors_tell hmsg hf (prints_str hs) trivial
        cases ht : sChannelData.pTopic with
        | none =>
          cases hg : sChannelData.pGreeting with
          | none => exact .ret trivial
          | some pGreeting => exact told (own_text rfl) (hspells.greeting.congr hg)
        | some pTopic =>
          refine .seq ((told (own_text rfl) (hspells.topic.congr ht)).mono fun _ _ => ?_)
          cases hg : sChannelData.pGreeting with
          | none => exact .ret trivial
          | some pGreeting => exact told (own_text rfl) (hspells.greeting.congr hg)
  unfold chanlist
  refine .seq (honors_logger (.seq (honors_say hmsg (spells_text rfl) ?_)))
  refine .seq (honors_listDb fun channels hchannels => .seq ?_)
  refine Prog.honors_forEach (fun c hc => turn (hchannels c hc)) ?_
  exact honors_say hmsg (spells_text rfl) trivial

/-- The answer itself ends with the end of a line, so its line ends twice. -/
theorem honors_version (hmsg : pMsg.Within A) :
    (version pMsg).Honors (quietContract A) fun _ => True := by
  unfold version
  refine .seq (honors_hostText fun date hdate => .seq (honors_hostText fun time htime => ?_))
  refine honors_answerEnded hmsg (Spells.take _ ?_) trivial
  simp only [spells_append]
  exact ⟨⟨⟨⟨⟨spells_text rfl, spells_text rfl⟩, spells_text rfl⟩, spells_text rfl⟩,
    ⟨hdate, spells_text rfl⟩, htime⟩, spells_own rfl⟩

theorem honors_setGreeting (hmsg : pMsg.Within A) :
    (setGreeting pMsg).Honors (botContract A) fun _ => True := by
  unfold setGreeting
  simp only [Prog.liftM_eq]
  cases hc : pMsg.pAccessChannel with
  | none => exact .lift (honors_answerNoChannel hmsg trivial)
  | some pAccessChannel =>
    have hchan := hmsg.channel.congr hc
    have hprints := prints_str hchan
    refine .seq (.lift (honors_logger (.seq (.lift (honors_getDb (by decide) fun set hset => ?_)))))
    cases set with
    | none => exact .lift (honors_tell hmsg (own_text rfl) hprints trivial)
    | some pChannelSet =>
      dsimp only
      split
      · exact .lift honors_crash
      · next sChannelData hdata =>
        have hspells := (spellsOpt_some.mp hset).strToChannelData hdata
        have hnew : A.SpellsData { sChannelData with pGreeting := pMsg.parameters } :=
          { hspells with greeting := hmsg.parameters }
        refine .seq (honors_replaceDb hchan
          (fun _ => spellsOpt_some.mpr hnew.channelDataToStr) fun r => ?_)
        split <;> exact .lift (honors_tell hmsg (own_text rfl) hprints trivial)

theorem honors_setTopic (hmsg : pMsg.Within A) :
    (setTopic pMsg).Honors (botContract A) fun _ => True := by
  unfold setTopic
  simp only [Prog.liftM_eq]
  cases hc : pMsg.pAccessChannel with
  | none => exact .lift (honors_answerNoChannel hmsg trivial)
  | some pAccessChannel =>
    have hchan := hmsg.channel.congr hc
    have hprints := prints_str hchan
    refine .seq (.lift (honors_getDb (by decide) fun set hset => ?_))
    cases set with
    | none => exact .lift (honors_say hmsg (spells_text rfl) trivial)
    | some pChannelSet =>
      refine .seq (.lift (honors_logger ?_))
      split
      · exact .lift honors_crash
      · next sChannelData hdata =>
        have hspells := (spellsOpt_some.mp hset).strToChannelData hdata
        have hnew : A.SpellsData { sChannelData with pTopic := pMsg.parameters } :=
          { hspells with topic := hmsg.parameters }
        refine .seq (honors_replaceDb hchan
          (fun _ => spellsOpt_some.mpr hnew.channelDataToStr) fun r => ?_)
        refine .seq (.lift (honors_topic hchan
          (spellsOpt_some.mpr (hmsg.parameters.getD spells_nil)) ?_))
        split <;> exact .lift (honors_tell hmsg (own_text rfl) hprints trivial)

theorem honors_greeting (hmsg : pMsg.Within A) :
    (greeting pMsg).Honors (quietContract A) fun _ => True := by
  unfold greeting
  cases hn : pMsg.pCallingNick with
  | none => exact .ret trivial
  | some pCallingNick =>
    cases hc : pMsg.pAccessChannel with
    | none => exact .ret trivial
    | some pAccessChannel =>
      refine .seq (honors_botname fun name _ => ?_)
      split
      · refine .seq (honors_logger (.seq (honors_getDb (by decide) fun set hset => ?_)))
        cases set with
        | none => exact .ret trivial
        | some pChannelSet =>
          dsimp only
          split
          · next greeting hgreeting =>
            refine honors_sendMsg (hmsg.nick.congr hn)
              (spellsOpt_some.mp ((spellsOpt_some.mp hset).getGreeting.congr hgreeting))
              (fun _ harg => absurd harg List.not_mem_nil) trivial
          · exact .ret trivial
      · exact .ret trivial

/-! ## Speaking -/

theorem honors_saying (hmsg : pMsg.Within A) :
    (say pMsg).Honors (quietContract A) fun _ => True := by
  unfold say
  cases hc : pMsg.pAccessChannel with
  | none => exact honors_answerNoChannel hmsg trivial
  | some pAccessChannel =>
    cases hp : pMsg.parameters with
    | none => exact honors_answerNoParameters hmsg trivial
    | some pParameter =>
      exact honors_privmsg (hmsg.channel.congr hc) (hmsg.parameters.congr hp) trivial

theorem honors_allsay (hmsg : pMsg.Within A) :
    (allsay pMsg).Honors (quietContract A) fun _ => True := by
  unfold allsay
  cases hp : pMsg.parameters with
  | none => exact honors_answerNoParameters hmsg trivial
  | some pMsgStr =>
    refine .seq (honors_listDb fun channels hchannels => ?_)
    exact Prog.honors_forEach (fun c hc => honors_privmsg
      (spellsOpt_some.mpr (hchannels c hc)) (hmsg.parameters.congr hp) trivial) trivial

/-! ## Bans and kicks -/

theorem honors_registerCallback {item : CallbackItem} {Q : Unit → Prop} (hitem : A.SpellsItem item)
    (h : Q ()) : (registerCallback item).Honors (quietContract A) Q := by
  unfold registerCallback
  refine .seq (honors_callbackTail fun tail => .seq (honors_insertNextCallback hitem fun r => ?_))
  exact honors_whois (spellsOpt_some.mpr hitem.1) h

theorem honors_banuser (hmsg : pMsg.Within A) :
    (banuser pMsg).Honors (quietContract A) fun _ => True := by
  unfold banuser
  cases hc : pMsg.pAccessChannel with
  | none => exact honors_answerNoChannel hmsg trivial
  | some pAccessChannel =>
    cases hp : pMsg.parameters with
    | none => exact honors_answerNoParameters hmsg trivial
    | some pParameter =>
      have hparts := (hmsg.parameters.congr hp).getFirstPart spellsOpt_none
      dsimp only
      split
      · exact honors_answerNoParameters hmsg trivial
      · next pToBanNick hnick =>
        refine .seq (honors_botname fun name _ => ?_)
        split
        · exact honors_say hmsg (spells_text rfl) trivial
        · refine .seq (honors_getDb (by decide) fun login hlogin => ?_)
          cases login with
          | none => exact honors_crash
          | some pLogin =>
            refine honors_registerCallback
              ⟨spellsOpt_some.mp (hparts.1.congr hnick), ?_⟩ trivial
            simp only [spells_append, spells_cons]
            exact ⟨spellsOpt_some.mp hlogin, has_own rfl, spellsOpt_some.mp (hmsg.channel.congr hc)⟩

theorem honors_debanuser (hmsg : pMsg.Within A) :
    (debanuser pMsg).Honors (quietContract A) fun _ => True := by
  unfold debanuser
  cases hc : pMsg.pAccessChannel with
  | none => exact honors_answerNoChannel hmsg trivial
  | some pAccessChannel =>
    cases hp : pMsg.parameters with
    | none => exact honors_answerNoParameters hmsg trivial
    | some pParameter =>
      have hparts := (hmsg.parameters.congr hp).getFirstPart spellsOpt_none
      dsimp only
      split
      · exact .ret trivial
      · next pBanmask hmask =>
        have hchan := hmsg.channel.congr hc
        have hmask := hparts.1.congr hmask
        refine .seq (honors_deban hchan hmask ?_)
        exact honors_tell hmsg (own_text rfl) (prints_two hmask hchan) trivial

theorem honors_kickuser (hmsg : pMsg.Within A) :
    (kickuser pMsg).Honors (quietContract A) fun _ => True := by
  unfold kickuser
  cases hc : pMsg.pAccessChannel with
  | none => exact honors_answerNoChannel hmsg trivial
  | some pAccessChannel =>
    cases hp : pMsg.parameters with
    | none => exact honors_answerNoParameters hmsg trivial
    | some pParameter =>
      have hparts := (hmsg.parameters.congr hp).getFirstPart spellsOpt_none
      dsimp only
      split
      · exact .ret trivial
      · next pKicknick pReason hsplit =>
        rw [hsplit] at hparts
        have hreason := hparts.2.getD (t := "You are kicked from the bot.") (spells_text rfl)
        refine .seq (honors_botname fun name _ => ?_)
        split
        · exact honors_say hmsg (spells_text rfl) trivial
        · refine .seq (honors_getDb (by decide) fun login hlogin => ?_)
          cases login with
          | none => exact honors_say hmsg (spells_text rfl) trivial
          | some pLogin =>
            refine honors_registerCallback ⟨spellsOpt_some.mp hparts.1, ?_⟩ trivial
            simp only [spells_append, spells_cons]
            exact ⟨⟨spellsOpt_some.mp hlogin, has_own rfl,
              spellsOpt_some.mp (hmsg.channel.congr hc)⟩, has_own rfl, hreason⟩

/-! ## Modes -/

theorem honors_accountmodeShow {pAccessChannel pLogin mod : CStr} {oldmod : Option CStr}
    {Q : Unit → Prop} (hchan : A.Spells pAccessChannel) (hmod : A.Spells mod) (h : Q ()) :
    (accountmodeShow pAccessChannel pLogin oldmod mod).Honors (quietContract A) Q := by
  have hchan := spellsOpt_some.mpr hchan
  unfold accountmodeShow
  refine .seq (honors_getDb (by decide) fun netmask hnetmask => ?_)
  cases netmask with
  | none => exact .ret h
  | some pNetmask =>
    refine .seq (honors_logger ?_)
    cases hn : getNickname pNetmask with
    | none => exact .ret h
    | some usernick =>
      have hnick := (spellsOpt_some.mp hnetmask).getNickname.congr hn
      have shown {m : CStr} (hm : m.all isOwn = true) {Q : Unit → Prop} (h : Q ()) :
          (mode pAccessChannel (some m) usernick).Honors (quietContract A) Q :=
        honors_mode hchan (spellsOpt_some.mpr (spells_own hm)) hnick h
      have granted : (if strAt mod 1 = 'v' then mode pAccessChannel (some "+v") usernick
          else mode pAccessChannel (some "+o") usernick : Quiet Unit).Honors
            (quietContract A) Q := by
        split <;> exact shown (own_text rfl) h
      dsimp only
      split
      · exact honors_mode hchan (spellsOpt_some.mpr hmod) hnick h
      · cases oldmod with
        | none => exact granted
        | some oldmod =>
          dsimp only
          split
          · exact .seq (shown (own_text rfl) granted)
          · split
            · exact .seq (shown (own_text rfl) granted)
            · exact granted

theorem honors_accountmodeApply {pAccessChannel pLogin : CStr} {oldmod : Option CStr}
    {mod0 mod1 : Char} {Q : Unit → Prop} (hchan : A.Spells pAccessChannel)
    (hlogin : A.Spells pLogin) (h0 : A.withNul.Has mod0) (h1 : A.withNul.Has mod1) (h : Q ()) :
    (accountmodeApply pAccessChannel pLogin oldmod mod0 mod1).Honors (botContract A) Q := by
  have hmod : A.Spells (cString [mod0, mod1]) :=
    spells_cString (spells_cons.mpr ⟨h0, spells_cons.mpr ⟨h1, spells_nil⟩⟩)
  have cleaned {Q : Unit → Prop} (h : Q ()) :
      (accountmodeClean pLogin oldmod mod1).Honors (botContract A) Q := by
    have deleted (oldMaster : Bool) : (if mod1 ≠ 'm' then
          if oldMaster then do
            let _ ← delDb .access (some pLogin)
            pure ()
          else pure ()
        else if (oldmod.isSome && !oldMaster) = true then rmAccessRights pLogin
        else pure () : Bot Unit).Honors (botContract A) Q := by
      split
      · split
        · exact .seq (honors_delDb fun _ => .ret h)
        · exact .ret h
      · split
        · exact honors_rmAccessRights h
        · exact .ret h
    unfold accountmodeClean
    simp only [Prog.liftM_eq]
    unfold accountmodeIsMaster
    cases oldmod with
    | none => exact .seq (.lift (.ret (deleted false)))
    | some oldmod => exact .seq (.lift (.seq (honors_secondChar fun c => .ret (deleted _))))
  have written {pKey : CStr} (hkey : A.Spells pKey) {Q : Unit → Prop} (h : Q ()) :
      (accountmodeWrite pKey (cString [mod0, mod1])).Honors (botContract A) Q := by
    have hkey := spellsOpt_some.mpr hkey
    have hvalue := spellsOpt_some.mpr hmod
    unfold accountmodeWrite
    simp only [Prog.liftM_eq]
    split
    · refine .seq (.lift (honors_logger (.seq (honors_addDb hkey (fun _ => hvalue) fun r => ?_))))
      split
      · exact .seq (honors_replaceDb hkey (fun _ => hvalue) fun _ => .ret h)
      · exact .ret h
    · exact .seq (.lift (honors_logger (.seq (honors_delDb fun _ => .ret h))))
  unfold accountmodeApply
  simp only [Prog.liftM_eq]
  refine .seq (.lift (honors_logger (.seq (cleaned (.seq (written ?_ ?_))))))
  · split
    · exact hlogin
    · exact spells_append.mpr ⟨hlogin, hchan⟩
  · exact .lift (honors_accountmodeShow hchan hmod h)

theorem honors_accountmodeSwitch {pAccessChannel pLogin pPos : CStr} {oldmod : Option CStr}
    (hmsg : pMsg.Within A) (hchan : A.Spells pAccessChannel) (hlogin : A.Spells pLogin)
    (hpos : A.Spells pPos) :
    (accountmodeSwitch pMsg pAccessChannel pLogin oldmod pPos).Honors (botContract A)
      fun _ => True := by
  have change {mod1 : Char} (h1 : A.withNul.Has mod1) :
      (accountmodeApply pAccessChannel pLogin oldmod (strAt pPos 0) mod1 >>= fun _ =>
        (answer pMsg "The user mode of the account %s is changed." [.str pLogin]).lift :
          Bot Unit).Honors (botContract A) fun _ => True := by
    refine .seq (honors_accountmodeApply hchan hlogin (has_strAt hpos 0) h1 ?_)
    exact .lift (honors_tell hmsg (own_text rfl) (prints_str (spellsOpt_some.mpr hlogin)) trivial)
  unfold accountmodeSwitch
  simp only [Prog.liftM_eq]
  split
  · exact .ret trivial
  · split
    · exact change (.inl (has_own rfl))
    · exact change (.inl (has_own rfl))
    · split
      · refine .seq (.lift (honors_say hmsg (spells_text rfl) ?_))
        exact .seq (.lift (honors_unwritten fun r hr => change (has_strAt hr 0)))
      · exact change (.inl (has_own rfl))
    · refine .lift (honors_answer hmsg (spells_text rfl) (fun arg harg => ?_) trivial)
      exact List.mem_singleton.mp harg ▸ has_strAt hpos 1

theorem honors_accountmode (hmsg : pMsg.Within A) :
    (accountmode pMsg).Honors (botContract A) fun _ => True := by
  unfold accountmode
  simp only [Prog.liftM_eq]
  cases hc : pMsg.pAccessChannel with
  | none => exact .lift (honors_answerNoChannel hmsg trivial)
  | some pAccessChannel =>
    have hchan := spellsOpt_some.mp (hmsg.channel.congr hc)
    refine .seq (.lift (honors_getDb (by decide) fun login _ => ?_))
    cases login with
    | none => exact .ret trivial
    | some accesslogin =>
      refine .seq (.lift (honors_existDb fun b => ?_))
      split
      · exact .lift (honors_say hmsg (spells_text rfl) trivial)
      · cases hp : pMsg.parameters with
        | none => exact .lift (honors_answerNoParameters hmsg trivial)
        | some pParameter =>
          refine .seq (.lift (honors_logger ?_))
          split
          · exact .lift (honors_answerNoParameters hmsg trivial)
          · next pLogin pPos hcut =>
            obtain ⟨hlogin, hpos⟩ := (spellsOpt_some.mp (hmsg.parameters.congr hp)).cutFirst hcut
            have target (oldmod : Option CStr) :
                (accountmodeSwitch pMsg pAccessChannel pLogin oldmod pPos).Honors (botContract A)
                  fun _ => True := honors_accountmodeSwitch hmsg hchan hlogin hpos
            refine .seq (.lift (honors_existDb fun known => ?_))
            split
            · exact .lift (honors_tell hmsg (own_text rfl)
                (prints_str (spellsOpt_some.mpr hlogin)) trivial)
            · split
              · exact .lift (honors_say hmsg (spells_text rfl) trivial)
              · unfold accountmodeTarget
                simp only [Prog.liftM_eq]
                refine .seq (.lift (honors_getDb (by decide) fun old _ => ?_))
                cases old with
                | some oldmod => exact .seq (.lift (honors_logger (target (some oldmod))))
                | none =>
                  refine .seq (.lift (honors_getDb (by decide) fun oldmod _ => ?_))
                  split
                  · exact .lift (honors_say hmsg (spells_text rfl) trivial)
                  · exact .seq (.lift (honors_logger (target oldmod)))

theorem honors_chanmode (hmsg : pMsg.Within A) :
    (chanmode pMsg).Honors (botContract A) fun _ => True := by
  unfold chanmode
  simp only [Prog.liftM_eq]
  cases hc : pMsg.pAccessChannel with
  | none => exact .lift (honors_answerNoChannel hmsg trivial)
  | some pAccessChannel =>
    have hchan := hmsg.channel.congr hc
    cases hp : pMsg.parameters with
    | none => exact .lift (honors_answerNoParameters hmsg trivial)
    | some pParameters =>
      refine .seq (.lift (honors_getDb (by decide) fun set hset => ?_))
      cases set with
      | none => exact .lift (honors_tell hmsg (own_text rfl) (prints_str hchan) trivial)
      | some pChannelSet =>
        dsimp only
        split
        · next sChannelData sNewMode hdata hnew =>
          have hdata := (spellsOpt_some.mp hset).strToChannelData hdata
          have hnew := (spellsOpt_some.mp (hmsg.parameters.congr hp)).strToChannelMode hnew
          have hmerged : A.SpellsData
              { sChannelData with sModes := mergeModes sChannelData.sModes sNewMode } :=
            { hdata with modes := hdata.modes.mergeModes hnew }
          refine .seq (.lift (honors_logger (.seq (.lift (honors_logger ?_)))))
          refine .seq (honors_replaceDb hchan
            (fun _ => spellsOpt_some.mpr hmerged.channelDataToStr) fun r => ?_)
          refine .seq (.lift (honors_logger ?_))
          exact .lift (honors_mode hchan (spellsOpt_some.mpr hnew.channelModeToStr)
            spellsOpt_none trivial)
        · exact .lift honors_crash

/-! ## The list of accounts -/

theorem honors_rmaccount (hmsg : pMsg.Within A) :
    (rmaccount pMsg).Honors (botContract A) fun _ => True := by
  have modes {pLogin : CStr} {Q : Unit → Prop} (h : Q ()) :
      (rmaccountModes pLogin).Honors (quietContract A) Q := by
    unfold rmaccountModes
    refine .seq (honors_getDb (by decide) fun netmask hnetmask => ?_)
    cases netmask with
    | none => exact .ret h
    | some pNetmask =>
      dsimp only
      split
      · exact .ret h
      · next rmnick hn =>
        have hnick := (spellsOpt_some.mp hnetmask).getNickname.congr hn
        refine .seq (honors_listDb fun channels hchannels => ?_)
        refine Prog.honors_forEach (fun c hc => ?_) h
        have hchan := spellsOpt_some.mpr (hchannels c hc)
        refine .seq (honors_mode hchan (spellsOpt_some.mpr (spells_text rfl)) hnick ?_)
        exact honors_mode hchan (spellsOpt_some.mpr (spells_text rfl)) hnick trivial
  unfold rmaccount
  simp only [Prog.liftM_eq]
  cases hp : pMsg.parameters with
  | none => exact .lift (honors_answerNoParameters hmsg trivial)
  | some pParameter =>
    have hlogin := (spellsOpt_some.mp (hmsg.parameters.congr hp)).strtokBuf (d := ' ')
    refine .seq (.lift (honors_existDb fun b => ?_))
    split
    · refine .seq (honors_rmAccount (.seq (.lift (modes ?_))))
      refine .seq (.lift (honors_say hmsg (spells_text rfl) ?_))
      exact .lift (honors_logger trivial)
    · exact .lift (honors_tell hmsg (own_text rfl) (prints_str (spellsOpt_some.mpr hlogin)) trivial)

theorem spells_accountListFill {pLogin : CStr} (h : A.Spells pLogin) :
    A.Spells (accountListFill pLogin) := by
  refine spells_append.mpr ⟨h, fun c hc => ?_⟩
  exact List.eq_of_mem_replicate hc ▸ has_own rfl

/-- A line of the list is its own format. -/
theorem honors_accountLine {pLogin right status : CStr} {Q : Unit → Prop} (hmsg : pMsg.Within A)
    (hlogin : A.Spells pLogin) (hright : A.Spells right) (hstatus : A.Spells status) (h : Q ()) :
    (sendListLine pMsg (accountListFill pLogin ++ right ++ "   Status: ".toList ++ status)).Honors
      (quietContract A) Q := by
  refine honors_sendListLine hmsg ?_ h
  simp only [spells_append]
  exact ⟨⟨⟨spells_accountListFill hlogin, hright⟩, spells_text rfl⟩, hstatus⟩

theorem honors_accountListUser {pLogin pChannel : CStr} (hmsg : pMsg.Within A)
    (hlogin : A.Spells pLogin) (hchan : A.Spells pChannel) :
    (accountListUser pMsg pLogin pChannel).Honors (quietContract A) fun _ => True := by
  unfold accountListUser
  lift_lets
  intro rest
  have hrest (right : Option CStr) (hright : A.SpellsOpt right) :
      (rest right).Honors (quietContract A) fun _ => True := by
    refine .seq (honors_existDb fun b => ?_)
    cases right with
    | none => exact .ret trivial
    | some right =>
      refine honors_accountLine hmsg hlogin (spellsOpt_some.mp hright) ?_ trivial
      split <;> exact spells_text rfl
  have named {text : CStr} (htext : text.all isOwn = true) :
      A.SpellsOpt (some (text ++ pChannel)) :=
    spellsOpt_some.mpr (spells_append.mpr ⟨spells_own htext, hchan⟩)
  refine .seq (honors_getDb (by decide) fun right _ => ?_)
  cases right with
  | none => exact .seq (.ret (hrest none spellsOpt_none))
  | some pMod =>
    refine .seq (honors_secondChar fun c => ?_)
    split
    · exact .seq (.ret (hrest _ (named (own_text rfl))))
    · split
      · exact .seq (.ret (hrest _ (named (own_text rfl))))
      · exact .seq (.ret (hrest none spellsOpt_none))

theorem honors_accountListMaster {pLogin : CStr} {channels : List CStr} (hmsg : pMsg.Within A)
    (hlogin : A.Spells pLogin) (hchannels : ∀ c ∈ channels, A.Spells c) :
    (accountListMaster pMsg channels pLogin).Honors (quietContract A) fun _ => True := by
  unfold accountListMaster
  refine .seq (honors_existDb fun b => ?_)
  split
  · refine .seq (honors_existDb fun on => honors_sendListLine hmsg ?_ trivial)
    simp only [spells_append]
    refine ⟨⟨spells_accountListFill hlogin, spells_text rfl⟩, ?_⟩
    split <;> exact spells_text rfl
  · refine .optional (honors_logger trivial) (Prog.honors_forEach (fun c hc => ?_) trivial)
    exact honors_accountListUser hmsg hlogin (hchannels c (List.mem_reverse.mp hc))

theorem honors_accountListOwner {pLogin pAccessChannel : CStr} (hmsg : pMsg.Within A)
    (hlogin : A.Spells pLogin) :
    (accountListOwner pMsg pAccessChannel pLogin).Honors (quietContract A) fun _ => True := by
  unfold accountListOwner
  refine .seq (honors_getDb (by decide) fun right _ => ?_)
  cases right with
  | none => exact .ret trivial
  | some pMod =>
    refine .seq (honors_secondChar fun c => .seq (honors_existDb fun on => ?_))
    have line {right : CStr} (hright : right.all isOwn = true) :
        (sendListLine pMsg (accountListFill pLogin ++ right ++ "   Status: ".toList ++
          if on then "ON ".toList else "OFF".toList)).Honors
            (quietContract A) fun _ => True := by
      refine honors_accountLine hmsg hlogin (spells_own hright) ?_ trivial
      split <;> exact spells_text rfl
    dsimp only
    split
    · exact line (own_text rfl)
    · split
      · exact line (own_text rfl)
      · exact .ret trivial

theorem honors_accountlist (hmsg : pMsg.Within A) :
    (accountlist pMsg).Honors (quietContract A) fun _ => True := by
  unfold accountlist
  refine .seq (honors_listDb fun logins hlogins => ?_)
  split
  · refine .seq (honors_say hmsg (spells_text rfl) (.seq (honors_logger ?_)))
    refine .seq (honors_listDb fun channels hchannels => .seq ?_)
    refine Prog.honors_forEach
      (fun l hl => honors_accountListMaster hmsg (hlogins l hl) hchannels) ?_
    exact honors_say hmsg (spells_text rfl) trivial
  · refine .seq (honors_logger ?_)
    cases hc : pMsg.pAccessChannel with
    | none => exact honors_answerNoChannel hmsg trivial
    | some pAccessChannel =>
      refine .seq (honors_say hmsg (spells_text rfl) (.seq ?_))
      refine Prog.honors_forEach (fun l hl => honors_accountListOwner hmsg (hlogins l hl)) ?_
      exact honors_say hmsg (spells_text rfl) trivial

theorem honors_inviteuser (hmsg : pMsg.Within A) :
    (inviteuser pMsg).Honors (quietContract A) fun _ => True := by
  unfold inviteuser
  cases ha : (getArgument pMsg.pRawLine).1 with
  | none => exact honors_answerNoParameters hmsg trivial
  | some pParameter =>
    have hrest := (hmsg.argument.congr ha).rmFirstPart spellsOpt_none
    dsimp only
    split
    · exact honors_crash
    · next pInviteNick hinvite =>
      have hnick : A.SpellsOpt (some pInviteNick) := by
        rcases Option.or_eq_some_iff.mp hinvite with h | ⟨-, h⟩
        · exact (hrest.getFirstPart spellsOpt_none).1.congr h
        · exact hmsg.nick.congr h
      refine .seq (honors_botname fun name _ => ?_)
      split
      · exact honors_say hmsg (spells_text rfl) trivial
      · cases hc : pMsg.pAccessChannel with
        | none => exact honors_tell hmsg (own_text rfl) (prints_str hnick) trivial
        | some pAccessChannel =>
          have hchan := hmsg.channel.congr hc
          refine .seq (honors_invite hchan hnick ?_)
          exact honors_tell hmsg (own_text rfl) (prints_two hnick hchan) trivial

end Ebotula
