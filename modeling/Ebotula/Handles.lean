import Ebotula.Command

/-!
# Callbacks and events

The routines of `callback.c`, which run when the server has answered a WHOIS, the
event handlers of `handles.c`, and the three CTCP commands of `ctcp.c`.
-/

set_option autoImplicit false

namespace Ebotula

open Library

/-! ## Callbacks -/

/-- `pOldMode[0]=c`. -/
def setModeSign (pOldMode : Option CStr) (c : Char) : Quiet CStr :=
  match pOldMode with
  | some (_ :: rest) => return c :: rest
  | _ => crash

/-- `ModeResetCb`. -/
def modeResetCb (pNetmask data : CStr) : Quiet Unit := do
  logger .debug "Callback routine for the reset of the modes" []
  let (first, pOldMode) := getFirstPart data none
  let pChannel := first.getD []
  match getNickname pNetmask with
  | none => return
  | some pNick =>
    match ← getDb .nickToUser (some pNetmask) with
    | some pLogin =>
      logger .debug "Reset the account modes for the identified account %s" [.str pLogin]
      match ← getDb .access (some (pLogin ++ pChannel)) with
      | some pMod =>
        if (← secondChar pMod) = (← secondChar pChannel) then
          if strAt pChannel 0 = '-' then mode pChannel (← setModeSign pOldMode '+') pNick
        else mode pChannel (← setModeSign pOldMode '-') pNick
      | none =>
        if (← getDb .access (some pLogin)).isSome then
          logger .debug "Reset the account modes of the master %s" [.str pLogin]
          match pOldMode with
          -- `strcmp(NULL,"+o")`
          | none => crash
          | some oldMode =>
            if oldMode ≠ "+o".toList then
              let sign := if strAt oldMode 0 = '-' then '+' else '-'
              mode pChannel (← setModeSign pOldMode sign) pNick
    | none =>
      match pOldMode with
      | none => crash
      | some oldMode =>
        if strAt oldMode 0 = '+' ∧ !strcaseeq pNick (← botname) then
          logger .debug "Reset the account mode for user %s" [.str pNick]
          mode pChannel (← setModeSign pOldMode '-') pNick

/-- `SetBanCb`. -/
def setBanCb (pNetmask data : CStr) : Quiet Unit := do
  logger .debug "Callback routine for user banning" []
  let (pLogin, pRest) := getFirstPart data none
  let pChannel := (getFirstPart pRest none).1
  match getBanmask pNetmask with
  | none => crash
  | some pBanmask =>
    let pDestLogin ← getDb .nickToUser (some pNetmask)
    match (← getDb .userToNick pLogin).bind getNickname with
    | none => return
    | some pCmdNick =>
      if ← checkUserLevel pCmdNick pDestLogin pChannel then
        ban pChannel pBanmask
        notice pCmdNick (some "The user is banned by the bot.")
      else notice pCmdNick (some "Couldn't ban this user")

/-- `KickCb`. -/
def kickCb (pNetmask data : CStr) : Quiet Unit := do
  logger .debug "Callback routine for user kicking" []
  let (pCmdLogin, rest) := getFirstPart data none
  let (pChannel, pReason) := getFirstPart rest rest
  let pLogin ← getDb .nickToUser (some pNetmask)
  match (← getDb .userToNick pCmdLogin).bind getNickname with
  | none => return
  | some pCmdNick =>
    if ← checkUserLevel pCmdNick pLogin pChannel then
      match getNickname pNetmask with
      | none => return
      | some pNick =>
        kick pChannel pNick pReason
        notice pCmdNick (some "The user is kicked by the bot")
    else notice pCmdNick (some "Couldn't kick this user")

/-- The routine a `CallbackFkt` names. -/
def CallbackFkt.call : CallbackFkt → CStr → CStr → Quiet Unit
  | modeResetCb => Ebotula.modeResetCb
  | setBanCb => Ebotula.setBanCb
  | kickCb => Ebotula.kickCb

/-! ## Events -/

/-- PING; the parser answers it itself. -/
def hPong (_ : MsgItem) : Quiet Unit := pong none

/-- NICK: the session goes over to the new netmask. -/
def hNickChange (pMsg : MsgItem) : Bot Unit := do
  match pMsg.pNetmask with
  | none => return
  | some pNetmask =>
    match ← getDb .nickToUser (some pNetmask) with
    | none => return
    | some pLogin =>
      match cutLast ' ' pMsg.pRawLine with
      -- `strlen(NULL)`
      | none => crash
      | some (_, word) =>
        if word.length + 1 > 2 then
          -- the character before the new nick is taken for a colon
          let pNewNick := word.tail
          match cutFirst '!' pNetmask with
          | none => crash
          | some (_, userHost) =>
            let pNewNetmask := pNewNick ++ strtokBuf ' ' ('!' :: userHost)
            logOut pLogin
            logOn pNewNetmask pLogin
            logger .debug "Change the netmask \"%s\" to \"%s\"" [.str pNetmask, .str pNewNetmask]

/-- `channelInit`. -/
def channelInit (pChannel : Option CStr) : Quiet Unit := do
  match ← getDb .channel pChannel with
  | none => return
  | some pChannelSet =>
    match strToChannelData pChannelSet with
    | none => crash
    | some sChannelData =>
      if let some pTopic := sChannelData.pTopic then topic pChannel pTopic
      let pMode := channelModeToStr sChannelData.sModes
      if !pMode.isEmpty then mode pChannel pMode none
      action pChannel (some "has initialized this channel.")
      logger .info "Initialize the channel %s" [.str pChannel]

/-- 353: the list of nicks after a join. -/
def hBotNeedOp (pMsg : MsgItem) : Quiet Unit := do
  match pMsg.pAccessChannel with
  | none => return
  | some pChannel =>
    match cutFirst ':' pMsg.pRawLine.tail with
    -- `strlen(NULL)`
    | none => crash
    | some (_, names) =>
      if (cutString ('@' :: (← botname)) (':' :: names)).isNone then
        action pChannel (some "needs operator access rights.")
      else channelInit pChannel

/-- `hSetModUser`. -/
def hSetModUser (pMsg : MsgItem) : Quiet Unit := do
  match pMsg.pCallingNick with
  | none => return
  | some pNick =>
    if !strcaseeq pNick (← botname) then
      match ← getDb .nickToUser pMsg.pNetmask with
      | none => return
      | some pLogin =>
        logger .debug "Set the account modes for the account %s with nickname %s"
          [.str pLogin, .str pNick]
        match pMsg.pAccessChannel with
        | none => return
        | some pChannel =>
          match ← getDb .access (some (pLogin ++ pChannel)) with
          | some pMod => mode pChannel pMod pNick
          | none =>
            if ← existDb .access (some pLogin) then mode pChannel (some "+o") pNick

/-- `hSendGreeting`. -/
def hSendGreeting (_ : MsgItem) : Quiet Unit := pure ()

/-- JOIN. -/
def hUserJoin (pMsg : MsgItem) : Quiet Unit := do
  hSetModUser pMsg
  hSendGreeting pMsg

/-- The loop of `hResetModes` over the mode letters. -/
def hResetModesLoop (pMsg : MsgItem) (pChannel : Option CStr) :
    (pMode : CStr) → (bTryToSet : Bool) → (cModeChr : Char) → (pRest : Option CStr) →
    Quiet Unit
  | [], _, _, _ => pure ()
  | c :: pMode, bTryToSet, cModeChr, pRest => do
    if c = '+' then hResetModesLoop pMsg pChannel pMode true '+' pRest
    else if c = '-' then hResetModesLoop pMsg pChannel pMode false '-' pRest
    else if c = 'o' ∨ c = 'v' then
      match getFirstPart pRest pRest with
      | (none, _) => logger .crit "Invalid server message \"%s\"" [.str pMsg.pRawLine]
      | (some pNick, pRest) =>
        if strcaseeq pNick (← botname) then
          logger .info "Bot get a new account mode" []
          if bTryToSet ∧ c = 'o' then channelInit pChannel
          else action pChannel (some "needs operator access rights.")
        else
          logger .debug "Added callback routine for the reset of the account modes" []
          match pChannel with
          -- `strlen(NULL)`
          | none => crash
          | some pChannel =>
            -- `snprintf` keeps `nDataLen - 1` characters
            let nDataLen := pChannel.length + 3
            let pData := (pChannel ++ [' ', cModeChr, c]).take (nDataLen - 1)
            registerCallback ⟨pNick, .modeResetCb, cString pData⟩
        hResetModesLoop pMsg pChannel pMode bTryToSet cModeChr pRest
    else
      if c = 'b' then logger .info "Ban reset not implemented jet" []
      else if c = 't' ∨ c = 'n' then pure ()
      else logger .debug "Ignore mode switch \"%c%c\"" [.chr cModeChr, .chr c]
      hResetModesLoop pMsg pChannel pMode bTryToSet cModeChr pRest

/-- MODE: what others change is put back. -/
def hResetModes (pMsg : MsgItem) : Quiet Unit := do
  let (pNetmask, pRest) := getFirstPart pMsg.pRawLine none
  let pRest := rmFirstPart pRest pRest
  let (pChannel, pRest) := getFirstPart pRest pRest
  let (pMode, pRest) := getFirstPart pRest pRest
  match pNetmask.bind getNickname with
  | none => return
  | some pAccessNick =>
    if !strcaseeq pAccessNick (← botname) then
      match pMode with
      | none => logger .crit "No mode entries found in \"%s\"" [.str pMsg.pRawLine]
      | some pMode =>
        -- neither variable is written before the first sign
        let bTryToSet := strAt (← unwritten .tryToSet) 0 ≠ '\x00'
        let cModeChr := strAt (← unwritten .modeChr) 0
        hResetModesLoop pMsg pChannel pMode bTryToSet cModeChr pRest

/-- TOPIC: the topic is set back. -/
def hResetTopic (pMsg : MsgItem) : Quiet Unit := do
  match pMsg.pCallingNick with
  | none => return
  | some pCallingNick =>
    if !strcaseeq pCallingNick (← botname) then
      match pMsg.pAccessChannel with
      | none => return
      | some pAccessChannel =>
        match ← getDb .channel (some pAccessChannel) with
        | none => return
        | some pChannelSet =>
          topic pAccessChannel (some ((getTopic pChannelSet).getD []))
          logger .debug "Reset the topic in the channel %s" [.str pAccessChannel]

/-- KICK: the bot joins again. -/
def hRejoinAfterKick (pMsg : MsgItem) : Quiet Unit := do
  let pRest := rmFirstPart pMsg.pRawLine none
  let pRest := rmFirstPart pRest pRest
  let pRest := rmFirstPart pRest pRest
  match (getFirstPart pRest pRest).1 with
  | none => return
  | some pNick =>
    if strcaseeq pNick (← botname) then
      join pMsg.pAccessChannel
      logger .debug "Rejoin the channel %s" [.str pMsg.pAccessChannel]

/-- 311: the answer to a WHOIS calls the callback that waits for it. -/
def hCallback (pMsg : MsgItem) : Quiet Unit := do
  let pRest := rmFirstPart pMsg.pRawLine none
  let pRest := rmFirstPart pRest pRest
  let pRest := rmFirstPart pRest pRest
  let (pNick, pRest) := getFirstPart pRest pRest
  let (pLogin, pRest) := getFirstPart pRest pRest
  let pDomain := (getFirstPart pRest none).1
  match ← searchNicknameFromCallbackDList (← callbackHead) pNick with
  | none => return
  | some element =>
    match ← removeCallbackDList (some element) with
    | none => return
    | some item =>
      match pNick, pLogin, pDomain with
      | some pNick, some pLogin, some pDomain =>
        item.callbackFkt.call (pNick ++ '!' :: pLogin ++ '@' :: pDomain) item.data
      -- `strlen(NULL)`
      | _, _, _ => crash

/-- 401: the nick of a WHOIS is not there, so its callback is dropped. -/
def hWhoisFailed (pMsg : MsgItem) : Quiet Unit := do
  let pRest := rmFirstPart pMsg.pRawLine none
  let pRest := rmFirstPart pRest pRest
  let pRest := rmFirstPart pRest pRest
  let pNick := (getFirstPart pRest none).1
  logger .debug "Look for a callback zombie routine of the user %s" [.str pNick]
  match ← searchNicknameFromCallbackDList (← callbackHead) pNick with
  | none => return
  | some element =>
    match ← removeCallbackDList (some element) with
    | none => return
    | some _ => logger .debug "The callback zombie routine of the user %s is removed" [.str pNick]

/-! ## CTCP -/

/-- `\001PING <ID>\001` -/
def ctcpping (pMsg : MsgItem) : Quiet Unit :=
  match cutString " :\x01".toList pMsg.pRawLine with
  | none => pure ()
  | some (_, pPing) => notice pMsg.pCallingNick (('\x01' :: pPing).take 63)

/-- `\001VERSION\001` -/
def ctcpversion (pMsg : MsgItem) : Quiet Unit := do
  let system := (← hostText .sysname) ++ ' ' :: (← hostText .release)
  let pMsgStr :=
    "\x01VERSION ".toList ++ package ++ ":v".toList ++ packageVersion ++ ':' :: system ++
      ' ' :: (← hostText .machine) ++ ['\x01']
  notice pMsg.pCallingNick (pMsgStr.take 255)

/-- `\001TIME\001` -/
def ctcptime (pMsg : MsgItem) : Quiet Unit := do
  let pMsgStr := "\x01TIME ".toList ++ (← hostText .localtime) ++ ['\x01']
  notice pMsg.pCallingNick pMsgStr

end Ebotula
