import Ebotula.Laws.Replies

/-!
# The handlers of the events say one command at a time

The contract of `OneCommand` for the callbacks and the event handlers, for the CTCP answers, and
for what leads to a handler: the classification of a line, the body of a worker's loop, and the
turn of the timing thread.
-/

set_option autoImplicit false

namespace Ebotula

open Library Alphabet

attribute [local irreducible] Prog.Honors

variable {A : Alphabet} {pMsg : MsgItem}

/-! ## Callbacks -/

section Callbacks

variable {pNetmask data : CStr}

theorem honors_setModeSign {pOldMode : Option CStr} {c : Char} {Q : CStr → Prop}
    (hold : A.SpellsOpt pOldMode) (hc : A.Has c) (h : ∀ r, A.Spells r → Q r) :
    (setModeSign pOldMode c).Honors (quietContract A) Q := by
  unfold setModeSign
  split
  · exact .ret (h _ (spells_cons.mpr ⟨hc, (spells_cons.mp (spellsOpt_some.mp hold)).2⟩))
  · exact honors_crash

theorem honors_modeResetCb (hmask : A.Spells pNetmask) (hdata : A.Spells data) :
    (modeResetCb pNetmask data).Honors (quietContract A) fun _ => True := by
  have hparts := (spellsOpt_some.mpr hdata).getFirstPart (A := A) spellsOpt_none
  unfold modeResetCb
  refine .seq (honors_logger ?_)
  generalize getFirstPart (some data) none = parts at hparts
  obtain ⟨first, pOldMode⟩ := parts
  obtain ⟨hfirst, hold⟩ := hparts
  have hchan := spellsOpt_some.mpr (hfirst.getD spells_nil)
  dsimp only
  cases hn : getNickname pNetmask with
  | none => exact .ret trivial
  | some pNick =>
    have hnick := hmask.getNickname.congr hn
    -- every branch ends with the old mode, one way or the other
    have reset {c : Char} (hc : A.Has c) : (setModeSign pOldMode c >>= fun m =>
        mode (some (first.getD [])) (some m) (some pNick)).Honors (quietContract A)
          fun _ => True :=
      .seq (honors_setModeSign hold hc fun r hr =>
        honors_mode hchan (spellsOpt_some.mpr hr) hnick trivial)
    refine .seq (honors_getDb (by decide) fun login _ => ?_)
    cases login with
    | some pLogin =>
      refine .seq (honors_logger (.seq (honors_getDb (by decide) fun right _ => ?_)))
      cases right with
      | some pMod =>
        refine .seq (honors_secondChar fun c => .seq (honors_secondChar fun d => ?_))
        split
        · split
          · exact reset (has_own rfl)
          · exact .ret trivial
        · exact reset (has_own rfl)
      | none =>
        refine .seq (honors_getDb (by decide) fun master _ => ?_)
        split
        · refine .seq (honors_logger ?_)
          cases pOldMode with
          | none => exact honors_crash
          | some oldMode =>
            dsimp only
            split
            · refine reset ?_
              split <;> exact has_own rfl
            · exact .ret trivial
        · exact .ret trivial
    | none =>
      cases pOldMode with
      | none => exact honors_crash
      | some oldMode =>
        refine .seq (honors_botname fun name _ => ?_)
        split
        · exact .seq (honors_logger (reset (has_own rfl)))
        · exact .ret trivial

/-- The nickname of the caller of a callback, by his session. -/
theorem spells_pCmdNick {netmask : Option CStr} {pCmdNick : CStr} (hnetmask : A.SpellsOpt netmask)
    (h : netmask.bind getNickname = some pCmdNick) : A.SpellsOpt (some pCmdNick) :=
  (hnetmask.bind fun _ ht => ht.getNickname).congr h

theorem honors_setBanCb (hmask : A.Spells pNetmask) (hdata : A.Spells data) :
    (setBanCb pNetmask data).Honors (quietContract A) fun _ => True := by
  have hparts := (spellsOpt_some.mpr hdata).getFirstPart (A := A) spellsOpt_none
  unfold setBanCb
  refine .seq (honors_logger ?_)
  have hchan := (hparts.2.getFirstPart spellsOpt_none).1
  dsimp only
  split
  · exact honors_crash
  · next pBanmask hban =>
    refine .seq (honors_getDb (by decide) fun login _ => ?_)
    refine .seq (honors_getDb (by decide) fun netmask hnetmask => ?_)
    split
    · exact .ret trivial
    · next pCmdNick hcmd =>
      have hnick := spells_pCmdNick hnetmask hcmd
      refine .seq (honors_checkUserLevel fun b => ?_)
      split
      · refine .seq (honors_ban hchan (hmask.getBanmask hban) ?_)
        exact honors_notice hnick (spellsOpt_some.mpr (spells_text rfl)) trivial
      · exact honors_notice hnick (spellsOpt_some.mpr (spells_text rfl)) trivial

theorem honors_kickCb (hmask : A.Spells pNetmask) (hdata : A.Spells data) :
    (kickCb pNetmask data).Honors (quietContract A) fun _ => True := by
  have hparts := (spellsOpt_some.mpr hdata).getFirstPart (A := A) spellsOpt_none
  unfold kickCb
  refine .seq (honors_logger ?_)
  have hrest := hparts.2.getFirstPart hparts.2
  refine .seq (honors_getDb (by decide) fun login _ => ?_)
  refine .seq (honors_getDb (by decide) fun netmask hnetmask => ?_)
  split
  · exact .ret trivial
  · next pCmdNick hcmd =>
    have hnick := spells_pCmdNick hnetmask hcmd
    refine .seq (honors_checkUserLevel fun b => ?_)
    split
    · split
      · exact .ret trivial
      · next pNick hn =>
        refine .seq (honors_kick hrest.1 (hmask.getNickname.congr hn) hrest.2 ?_)
        exact honors_notice hnick (spellsOpt_some.mpr (spells_text rfl)) trivial
    · exact honors_notice hnick (spellsOpt_some.mpr (spells_text rfl)) trivial

theorem honors_call (callbackFkt : CallbackFkt) (hmask : A.Spells pNetmask)
    (hdata : A.Spells data) :
    (callbackFkt.call pNetmask data).Honors (quietContract A) fun _ => True := by
  cases callbackFkt with
  | modeResetCb => exact honors_modeResetCb hmask hdata
  | setBanCb => exact honors_setBanCb hmask hdata
  | kickCb => exact honors_kickCb hmask hdata

end Callbacks

/-! ## Events -/

theorem honors_hNickChange (hmsg : pMsg.Within A) :
    (hNickChange pMsg).Honors (botContract A) fun _ => True := by
  unfold hNickChange
  simp only [Prog.liftM_eq]
  cases hm : pMsg.pNetmask with
  | none => exact .ret trivial
  | some pNetmask =>
    have hmask := spellsOpt_some.mp (hmsg.netmask.congr hm)
    refine .seq (.lift (honors_getDb (by decide) fun login hlogin => ?_))
    cases login with
    | none => exact .ret trivial
    | some pLogin =>
      dsimp only
      split
      · exact .lift honors_crash
      · next word hword =>
        have hword := (hmsg.line.cutLast hword).2
        split
        · split
          · exact .lift honors_crash
          · next userHost huser =>
            have huser := (hmask.cutFirst huser).2
            have hnew : A.SpellsOpt (some (word.tail ++ strtokBuf ' ' ('!' :: userHost))) := by
              refine spellsOpt_some.mpr (spells_append.mpr ⟨hword.tail, ?_⟩)
              exact (spells_cons.mpr ⟨has_own rfl, huser⟩ : A.Spells ('!' :: userHost)).strtokBuf
            refine .seq (honors_logOut (.seq (honors_logOn hnew (spellsOpt_some.mp hlogin) ?_)))
            exact .lift (honors_logger trivial)
        · exact .ret trivial

theorem honors_channelInit {pChannel : Option CStr} {Q : Unit → Prop} (hchan : A.SpellsOpt pChannel)
    (h : Q ()) : (channelInit pChannel).Honors (quietContract A) Q := by
  unfold channelInit
  refine .seq (honors_getDb (by decide) fun set hset => ?_)
  cases set with
  | none => exact .ret h
  | some pChannelSet =>
    dsimp only
    split
    · exact honors_crash
    · next sChannelData hdata =>
      have hspells := (spellsOpt_some.mp hset).strToChannelData hdata
      have hmodes := spellsOpt_some.mpr hspells.modes.channelModeToStr
      have said : (action pChannel (some "has initialized this channel.") >>= fun _ =>
          logger .info "Initialize the channel %s" [.str pChannel]).Honors (quietContract A) Q :=
        .seq (honors_action hchan (spellsOpt_some.mpr (spells_text rfl)) (honors_logger h))
      have moded := Prog.Honors.optional (C := quietContract A)
        (c := (!(channelModeToStr sChannelData.sModes).isEmpty) = true)
        (honors_mode hchan hmodes spellsOpt_none trivial) said
      cases ht : sChannelData.pTopic with
      | none => exact moded
      | some pTopic => exact .seq (honors_topic hchan (hspells.topic.congr ht) moded)

theorem honors_hBotNeedOp (hmsg : pMsg.Within A) :
    (hBotNeedOp pMsg).Honors (quietContract A) fun _ => True := by
  unfold hBotNeedOp
  cases hc : pMsg.pAccessChannel with
  | none => exact .ret trivial
  | some pChannel =>
    have hchan := hmsg.channel.congr hc
    dsimp only
    split
    · exact honors_crash
    · refine .seq (honors_botname fun name _ => ?_)
      split
      · exact honors_action hchan (spellsOpt_some.mpr (spells_text rfl)) trivial
      · exact honors_channelInit hchan trivial

theorem honors_hUserJoin (hmsg : pMsg.Within A) :
    (hUserJoin pMsg).Honors (quietContract A) fun _ => True := by
  have greeted : (hSendGreeting pMsg).Honors (quietContract A) fun _ => True := .ret trivial
  unfold hUserJoin
  refine .seq ?_
  unfold hSetModUser
  cases hn : pMsg.pCallingNick with
  | none => exact .ret greeted
  | some pNick =>
    have hnick := hmsg.nick.congr hn
    refine .seq (honors_botname fun name _ => ?_)
    split
    · refine .seq (honors_getDb (by decide) fun login _ => ?_)
      cases login with
      | none => exact .ret greeted
      | some pLogin =>
        refine .seq (honors_logger ?_)
        cases hc : pMsg.pAccessChannel with
        | none => exact .ret greeted
        | some pChannel =>
          have hchan := hmsg.channel.congr hc
          refine .seq (honors_getDb (by decide) fun right hright => ?_)
          cases right with
          | some pMod => exact honors_mode hchan hright hnick greeted
          | none =>
            refine .seq (honors_existDb fun b => ?_)
            split
            · exact honors_mode hchan (spellsOpt_some.mpr (spells_text rfl)) hnick greeted
            · exact .ret greeted
    · exact .ret greeted

theorem honors_hResetModesLoop {pChannel pRest : Option CStr} {pMode : CStr} {bTryToSet : Bool}
    {cModeChr : Char} (hchan : A.SpellsOpt pChannel) (hmode : A.Spells pMode)
    (hsign : A.withNul.Has cModeChr) (hrest : A.SpellsOpt pRest) :
    (hResetModesLoop pMsg pChannel pMode bTryToSet cModeChr pRest).Honors (quietContract A)
      fun _ => True := by
  induction pMode generalizing bTryToSet cModeChr pRest with
  | nil => exact .ret trivial
  | cons c pMode ih =>
    obtain ⟨hc, hmode⟩ := spells_cons.mp hmode
    unfold hResetModesLoop
    split
    · exact ih hmode (.inl (has_own rfl)) hrest
    · split
      · exact ih hmode (.inl (has_own rfl)) hrest
      · have hnext {rest : Option CStr} (hrest : A.SpellsOpt rest) :
            (hResetModesLoop pMsg pChannel pMode bTryToSet cModeChr rest).Honors
              (quietContract A) fun _ => True := ih hmode hsign hrest
        split
        · have hparts := hrest.getFirstPart hrest
          split
          · exact honors_logger trivial
          · next pNick rest hsplit =>
            rw [hsplit] at hparts
            refine .seq (honors_botname fun name _ => ?_)
            dsimp only
            split
            · refine .seq (honors_logger ?_)
              split
              · exact .seq (honors_channelInit hchan (hnext hparts.2))
              · exact .seq (honors_action hchan (spellsOpt_some.mpr (spells_text rfl))
                  (hnext hparts.2))
            · refine .seq (honors_logger ?_)
              cases pChannel with
              | none => exact .seq honors_crash
              | some pChannel =>
                refine .seq (honors_registerCallback ⟨spellsOpt_some.mp hparts.1, ?_⟩
                  (hnext hparts.2))
                refine spells_cString (Spells.take _ (spells_append.mpr ⟨?_, ?_⟩))
                · exact (spellsOpt_some.mp hchan).withNul
                · simp only [spells_cons, spells_nil, and_true]
                  exact ⟨.inl (has_own rfl), hsign, .inl hc⟩
        · dsimp only
          split
          · exact .seq (honors_logger (hnext hrest))
          · split
            · exact hnext hrest
            · exact .seq (honors_logger (hnext hrest))

theorem honors_hResetModes (hmsg : pMsg.Within A) :
    (hResetModes pMsg).Honors (quietContract A) fun _ => True := by
  have hnetmask := (spellsOpt_some.mpr hmsg.line).getFirstPart (A := A) spellsOpt_none
  have hrest := hnetmask.2.rmFirstPart hnetmask.2
  have hchan := hrest.getFirstPart hrest
  have hmode := hchan.2.getFirstPart hchan.2
  unfold hResetModes
  dsimp only
  split
  · exact .ret trivial
  · refine .seq (honors_botname fun name _ => ?_)
    split
    · split
      · exact honors_logger trivial
      · next pMode hm =>
        refine .seq (honors_unwritten fun r _ => .seq (honors_unwritten fun sign hsign => ?_))
        exact honors_hResetModesLoop hchan.1 (spellsOpt_some.mp (hmode.1.congr hm))
          (has_strAt hsign 0) hmode.2
    · exact .ret trivial

theorem honors_hResetTopic (hmsg : pMsg.Within A) :
    (hResetTopic pMsg).Honors (quietContract A) fun _ => True := by
  unfold hResetTopic
  cases pMsg.pCallingNick with
  | none => exact .ret trivial
  | some pCallingNick =>
    refine .seq (honors_botname fun name _ => ?_)
    split
    · cases hc : pMsg.pAccessChannel with
      | none => exact .ret trivial
      | some pAccessChannel =>
        refine .seq (honors_getDb (by decide) fun set hset => ?_)
        cases set with
        | none => exact .ret trivial
        | some pChannelSet =>
          have htopic := (spellsOpt_some.mp hset).getTopic.getD spells_nil
          refine .seq (honors_topic (hmsg.channel.congr hc) (spellsOpt_some.mpr htopic) ?_)
          exact honors_logger trivial
    · exact .ret trivial

theorem honors_hRejoinAfterKick (hmsg : pMsg.Within A) :
    (hRejoinAfterKick pMsg).Honors (quietContract A) fun _ => True := by
  unfold hRejoinAfterKick
  dsimp only
  split
  · exact .ret trivial
  · refine .seq (honors_botname fun name _ => ?_)
    split
    · exact .seq (honors_join hmsg.channel (honors_logger trivial))
    · exact .ret trivial

theorem honors_hCallback (hmsg : pMsg.Within A) :
    (hCallback pMsg).Honors (quietContract A) fun _ => True := by
  have hrest₁ := (spellsOpt_some.mpr hmsg.line).rmFirstPart (A := A) spellsOpt_none
  have hrest₂ := hrest₁.rmFirstPart hrest₁
  have hrest₃ := hrest₂.rmFirstPart hrest₂
  have hnick := hrest₃.getFirstPart hrest₃
  have hlogin := hnick.2.getFirstPart hnick.2
  have hdomain := hlogin.2.getFirstPart spellsOpt_none
  unfold hCallback
  refine .seq (honors_callbackHead fun head => .seq (honors_searchNickname fun found => ?_))
  cases found with
  | none => exact .ret trivial
  | some element =>
    refine .seq (honors_removeCallback fun item hitem => ?_)
    cases item with
    | none => exact .ret trivial
    | some item =>
      dsimp only
      split
      · next pNick pLogin pDomain hn hl hd =>
        refine honors_call item.callbackFkt ?_ (hitem item rfl).2
        simp only [spells_append, spells_cons]
        exact ⟨⟨spellsOpt_some.mp (hnick.1.congr hn), has_own rfl,
          spellsOpt_some.mp (hlogin.1.congr hl)⟩, has_own rfl,
          spellsOpt_some.mp (hdomain.1.congr hd)⟩
      · exact honors_crash

theorem honors_hWhoisFailed :
    (hWhoisFailed pMsg).Honors (quietContract A) fun _ => True := by
  unfold hWhoisFailed
  refine .seq (honors_logger (.seq (honors_callbackHead fun head => ?_)))
  refine .seq (honors_searchNickname fun found => ?_)
  cases found with
  | none => exact .ret trivial
  | some element =>
    refine .seq (honors_removeCallback fun item _ => ?_)
    cases item with
    | none => exact .ret trivial
    | some item => exact honors_logger trivial

/-! ## CTCP -/

theorem honors_ctcpping (hmsg : pMsg.Within A) :
    (ctcpping pMsg).Honors (quietContract A) fun _ => True := by
  unfold ctcpping
  split
  · exact .ret trivial
  · next before pPing hcut =>
    refine honors_notice hmsg.nick (spellsOpt_some.mpr (Spells.take _ ?_)) trivial
    exact spells_cons.mpr ⟨has_own rfl, (hmsg.line.cutString hcut).2⟩

theorem honors_ctcpversion (hmsg : pMsg.Within A) :
    (ctcpversion pMsg).Honors (quietContract A) fun _ => True := by
  unfold ctcpversion
  refine .seq (honors_hostText fun sysname hsys => .seq (honors_hostText fun release hrel => ?_))
  refine .seq (honors_hostText fun machine hmachine => ?_)
  refine honors_notice hmsg.nick (spellsOpt_some.mpr (Spells.take _ ?_)) trivial
  simp only [spells_append, spells_cons]
  exact ⟨⟨⟨⟨⟨⟨spells_text rfl, spells_text rfl⟩, spells_text rfl⟩, spells_text rfl⟩,
    has_own rfl, hsys, has_own rfl, hrel⟩, has_own rfl, hmachine⟩, has_own rfl, spells_nil⟩

theorem honors_ctcptime (hmsg : pMsg.Within A) :
    (ctcptime pMsg).Honors (quietContract A) fun _ => True := by
  unfold ctcptime
  refine .seq (honors_hostText fun localtime htime => ?_)
  refine honors_notice hmsg.nick (spellsOpt_some.mpr ?_) trivial
  simp only [spells_append]
  exact ⟨⟨spells_text rfl, htime⟩, spells_own rfl⟩

/-! ## From a line to its handler -/

theorem honors_commandHandler (hmsg : pMsg.Within A) {id : Cmd} (hping : id ≠ .onPing) :
    (commandHandler id pMsg).Honors (botContract A) fun _ => True := by
  cases id with
  | cmdNone => exact .lift honors_crash
  | onPing => exact absurd rfl hping
  | onQuit | logoff => exact honors_logoff hmsg
  | onNickChg => exact honors_hNickChange hmsg
  | onMode => exact .lift (honors_hResetModes hmsg)
  | onKick => exact .lift (honors_hRejoinAfterKick hmsg)
  | onJoin => exact .lift (honors_hUserJoin hmsg)
  | onNames => exact .lift (honors_hBotNeedOp hmsg)
  | onTopic => exact .lift (honors_hResetTopic hmsg)
  | onWhois => exact .lift (honors_hCallback hmsg)
  | onNoNick => exact .lift honors_hWhoisFailed
  | ctcpPing => exact .lift (honors_ctcpping hmsg)
  | ctcpVersion => exact .lift (honors_ctcpversion hmsg)
  | ctcpTime => exact .lift (honors_ctcptime hmsg)
  | viewGreat => exact .lift (honors_greeting hmsg)
  | help => exact .lift (honors_help hmsg)
  | version => exact .lift (honors_version hmsg)
  | hello => exact honors_hello hmsg
  | ident => exact honors_ident hmsg
  | pass => exact honors_password hmsg
  | invite => exact .lift (honors_inviteuser hmsg)
  | chanMode => exact honors_chanmode hmsg
  | accountList => exact .lift (honors_accountlist hmsg)
  | accountMode => exact honors_accountmode hmsg
  | say => exact .lift (honors_saying hmsg)
  | kick => exact .lift (honors_kickuser hmsg)
  | setTopic => exact honors_setTopic hmsg
  | setGreating => exact honors_setGreeting hmsg
  | ban => exact .lift (honors_banuser hmsg)
  | deban => exact .lift (honors_debanuser hmsg)
  | restart => exact .lift (honors_restart hmsg)
  | allSay => exact .lift (honors_allsay hmsg)
  | rmUser => exact honors_rmaccount hmsg
  | nick => exact .lift (honors_setNick hmsg)
  | die => exact .lift (honors_die hmsg)
  | channels => exact .lift (honors_chanlist hmsg)
  | rmChannel => exact honors_rmChannel hmsg
  | addChannel => exact honors_addChannel hmsg
  | join => exact .lift (honors_joinChannel hmsg)
  | part => exact .lift (honors_partChannel hmsg)

theorem honors_executeCommand {pMsg : MsgBuf} (hline : A.Spells pMsg.pMsgLine)
    (hping : pMsg.identify ≠ .onPing) :
    (executeCommand pMsg).Honors (botContract A) fun _ => True := by
  unfold executeCommand
  simp only [Prog.liftM_eq]
  refine .seq (.lift (honors_getUserLevel fun level => .seq (.lift (honors_logger ?_))))
  have hmsg := fillItem_within hline level (bIsCommand pMsg.identify)
  split
  · split
    · exact honors_commandHandler hmsg hping
    · exact .lift (honors_logger trivial)
  · exact .lift (honors_notice hmsg.nick (spellsOpt_some.mpr (spells_text rfl)) trivial)

/-- The part of a line that is compared with the names of the messages. -/
def comparedPart (pLine : CStr) : Option CStr :=
  match getCommand pLine with
  | some pPreamble => (cutFirst ' ' pPreamble).map Prod.snd
  | none => some pLine

/-- A PING with no blank behind it. The line of its answer is cut where the buffer ends, and the
buffer is as long as what stood in an array that nothing was written to. -/
def BarePing (pLine : CStr) : Prop :=
  ∃ pPos ∈ comparedPart pLine, startsWith .onPing pPos = true ∧ ' ' ∉ pPos

/-- A line without a prefix that has a blank is no such PING. -/
theorem not_barePing {pLine : CStr} (hcommand : getCommand pLine = none) (hblank : ' ' ∈ pLine) :
    ¬ BarePing pLine := by
  rintro ⟨pPos, hpos, -, hno⟩
  simp only [comparedPart, hcommand, Option.mem_some_iff] at hpos
  exact hno (hpos ▸ hblank)

theorem honors_preParser {pLine : CStr} (hline : A.Spells pLine) (hping : ¬ BarePing pLine)
    {Q : MsgBuf → Prop} (h : ∀ m, Q m) :
    (preParser pLine).Honors (quietContract A) Q := by
  have identified {pPos : CStr} (hcompared : pPos ∈ comparedPart pLine) (hpos : A.Spells pPos)
      {Q : Cmd → Prop} (h : ∀ c, Q c) :
      (identifyLine pLine pPos).Honors (quietContract A) Q := by
    unfold identifyLine
    split
    · next hstarts =>
      have hblank : ' ' ∈ pPos := by
        by_contra hno
        exact hping ⟨pPos, hcompared, hstarts, hno⟩
      cases hcut : cutFirst ' ' pPos with
      | none => exact absurd hblank (cutFirst_eq_none_iff.mp hcut)
      | some split => exact .seq (honors_pong (hpos.cutFirst hcut).2 (.ret (h _)))
    · split
      · exact .ret (h _)
      · split
        · unfold identifyMessage
          split
          · split
            · exact .seq (honors_logger (.ret (h _)))
            · exact .ret (h _)
          · split
            · refine .seq (honors_logger ?_)
              split
              · exact .seq (honors_logger (.ret (h _)))
              · exact .ret (h _)
            · exact .ret (h _)
        · exact .ret (h _)
  have finished (c : Cmd) : (preParser.finish pLine c).Honors (quietContract A) Q := .ret (h _)
  have hcommand := hline.getCommand
  unfold preParser
  cases hc : getCommand pLine with
  | none =>
    have hcompared : pLine ∈ comparedPart pLine := by rw [comparedPart, hc]; rfl
    exact .seq (identified hcompared hline finished)
  | some pPreamble =>
    dsimp only
    split
    · exact .ret (h _)
    · next pPos hcut =>
      have hcompared : pPos ∈ comparedPart pLine := by
        simp only [comparedPart, hc, hcut, Option.map_some, Option.mem_some_iff]
      exact .seq (identified hcompared ((hcommand pPreamble hc).cutFirst hcut).2 finished)

theorem honors_receiveLine {pCurrLine : CStr} (hline : A.Spells pCurrLine)
    (hping : ¬ BarePing pCurrLine) :
    (receiveLine pCurrLine).Honors (quietContract A) fun _ => True := by
  unfold receiveLine
  split <;> exact .seq (honors_logger (honors_preParser hline hping fun _ => trivial))

end Ebotula
