import Ebotula.Account
import Ebotula.Extract
import Ebotula.IrcHelp
import Ebotula.Library.Block

/-!
# The bot's commands

The handlers of `command.c`, in its order. A handler is given the item of its line
and talks to the world through operations; what it returns early on, the branches
here end on. Answers to the caller go through `answer`; where the text itself is the format, as in
a greeting and in the lines of an account list, they go through `sendMsg` with its buffer.

A handler that calls an extractor which writes into the line does so once and reads
the line no more, so only the text found matters.
-/

set_option autoImplicit false

namespace Ebotula

open Library

/-- `sendMsg(pMsg->AnswerMode,pMsg->pCallingNick,…)` with a format of the source, whose text is
taken to have room in the buffer of `sendMsg`. -/
def answer (pMsg : MsgItem) (pMsgStr : CStr) (arg : List FmtArg) : Quiet Unit :=
  match vsprintf pMsgStr arg with
  | none => crash
  | some text => sendText pMsg.answerMode pMsg.pCallingNick text

/-- Where the text has room, the answer is what `sendMsg` does. -/
theorem answer_eq_sendMsg {pMsg : MsgItem} {pMsgStr text : CStr} {arg : List FmtArg}
    (htext : vsprintf pMsgStr arg = some text) (hroom : text.length < 2 ^ 10) :
    answer pMsg pMsgStr arg = sendMsg pMsg.answerMode pMsg.pCallingNick pMsgStr arg := by
  rw [answer, sendMsg, htext]
  dsimp only
  rw [if_pos hroom]

/-- The answer of the many handlers that cannot do without a channel. -/
def answerNoChannel (pMsg : MsgItem) : Quiet Unit :=
  answer pMsg "This command requires a channel name." []

def answerNoParameters (pMsg : MsgItem) : Quiet Unit :=
  answer pMsg "Couldn't found regulare parameters." []

/-- `getParameters(pMsg->pRawLine)`. -/
def MsgItem.parameters (pMsg : MsgItem) : Option CStr := (getParameters pMsg.pRawLine).1

/-- `HELP_TAB`. -/
def helpTab : Nat := 12

/-- The turn of the loop of `help` for one command: its name, filled up with blanks,
and its short text, if the caller may use it. -/
def helpLine (pMsg : MsgItem) (i : Cmd) : Quiet Unit :=
  if pMsg.userLevel < .loggedLevel ∧ Cmd.logged ≤ i then pure ()
  else if pMsg.userLevel < .masterLevel ∧ Cmd.master ≤ i then pure ()
  else
    let fill := List.replicate (helpTab - (pCmdString i).length) ' '
    answer pMsg (pCmdString i ++ fill ++ (getIrcHelp i).pShort) []

/-- `!help <command>` -/
def help (pMsg : MsgItem) : Quiet Unit := do
  match pMsg.parameters with
  | none =>
    logger .debug "Commands list" []
    Prog.forEach (fun text => answer pMsg text []) (getIrcHelp .cmdNone).pIrcHelp
    Prog.forEach (helpLine pMsg) Cmd.commands
    answer pMsg "Help end" []
  | some pParameter =>
    logger .debug "Spezial help text for a command" []
    let pParameter := strtokBuf ' ' pParameter
    let pParameter := if strAt pParameter 0 ≠ '!' then '!' :: pParameter else pParameter
    logger .debug "Looking for the information about \"%s\"" [.str pParameter]
    match Cmd.commands.find? fun i => pCmdString i = pParameter.tail with
    | some i =>
      logger .debug "Command found %d" [.int i.ctorIdx]
      answer pMsg ("Help for ".toList ++ pParameter ++ [':']) []
      Prog.forEach (fun text => answer pMsg text []) (getIrcHelp i).pIrcHelp
      answer pMsg (getIrcHelp i).pIrcSyntax []
      answer pMsg "Help end" []
    | none => answer pMsg "No help found for the command %s." [.str pParameter]

/-- The end of `hello`: the account becomes the botmaster. -/
def helloMaster (pMsg : MsgItem) : Bot Unit := do
  let bResult ←
    if !(← existDb .access pMsg.pCallingNick) then
      addDb .access pMsg.pCallingNick (some ['m'])
    else replaceDb .access pMsg.pCallingNick (some ['m'])
  if bResult then answer pMsg "The account %s is now the botmaster." [.str pMsg.pCallingNick]
  else
    answer pMsg "The initialization of the account %s as the botmaster failed."
      [.str pMsg.pCallingNick]

/-- `!hello` -/
def hello (pMsg : MsgItem) : Bot Unit := do
  logger .debug "Try to create an new account for %s" [.str pMsg.pCallingNick]
  if pMsg.userLevel > .loggedLevel then answer pMsg "You're already identified." []
  else
    -- the user list before a new one is added
    let pList ← listDb .user
    if ← addDb .user pMsg.pCallingNick (some []) then
      -- a key that could be added is not NULL
      logOn pMsg.pNetmask (pMsg.pCallingNick.getD [])
      answer pMsg "Nice to meet you." []
      answer pMsg "Your account is %s." [.str pMsg.pCallingNick]
      answer pMsg "You're now identified." []
    else answer pMsg "The account %s is already exists." [.str pMsg.pCallingNick]
    if pList.isEmpty then helloMaster pMsg

/-- `!pass <password>` -/
def password (pMsg : MsgItem) : Bot Unit := do
  match ← getDb .nickToUser pMsg.pNetmask with
  | none => return
  | some pLogin =>
    logger .debug "Check the  password for the account %s" [.str pLogin]
    if !pLogin.isEmpty then
      let pPasswd := pMsg.parameters
      if pPasswd.isNone then answer pMsg "You've set a empty password." []
      let _ ← replaceDb .user (some pLogin) (some (pPasswd.getD []))
      answer pMsg "Password is changed." []

/-- One turn of the loop of `logoff`: the channel mode of the login is taken back. -/
def logoffChannel (pMsg : MsgItem) (pLogin pChannel : CStr) : Quiet Unit := do
  match ← getDb .access (some (pLogin ++ pChannel)) with
  | some pMode => mode pChannel (← setFirstChar pMode '-') pMsg.pCallingNick
  | none =>
    if pMsg.userLevel = .masterLevel then mode pChannel (some "-o") pMsg.pCallingNick

/-- The part of `logoff` that is left out on QUIT. -/
def logoffChannels (pMsg : MsgItem) (pLogin : CStr) : Quiet Unit := do
  Prog.forEach (logoffChannel pMsg pLogin) (← listDb .channel)
  answer pMsg "You're now logged off." []

/-- `!logoff`, and the event QUIT. -/
def logoff (pMsg : MsgItem) : Bot Unit := do
  match ← getDb .nickToUser pMsg.pNetmask with
  | none => return
  | some pLogin =>
    logOut pLogin
    if pMsg.bInteractiveMode then logoffChannels pMsg pLogin

/-- One turn of the loop of `ident`: the channel mode of the login is set. -/
def identChannel (pMsg : MsgItem) (isMaster : Bool) (pLogin pChannel : CStr) : Quiet Unit := do
  if isMaster then mode pChannel (some "+o") pMsg.pCallingNick
  else
    match ← getDb .access (some (pLogin ++ pChannel)) with
    | some pMod => mode pChannel pMod pMsg.pCallingNick
    | none => return

/-- The end of `ident`: the modes of the account in all channels. -/
def identChannels (pMsg : MsgItem) (pLogin : CStr) : Quiet Unit := do
  let isMaster ← existDb .access (some pLogin)
  let pChannelQueue ← listDb .channel
  logger .debug "Reconstruct the access rights for the channels" []
  Prog.forEach (identChannel pMsg isMaster pLogin) pChannelQueue

/-- `!ident login <password>` -/
def ident (pMsg : MsgItem) : Bot Unit := do
  logger .debug "try to identify %s" [.str pMsg.pCallingNick]
  if ← existDb .nickToUser pMsg.pNetmask then answer pMsg "You're already identified." []
  else
    match pMsg.parameters with
    | none => answerNoParameters pMsg
    | some pParameter =>
      let pPasswd := (cutFirst ' ' pParameter).map Prod.snd
      if pPasswd.isNone then answer pMsg "You've set a empty password." []
      let pLogin := strtokBuf ' ' pParameter
      logger .debug "Look for the account %s" [.str pLogin]
      if ← checkDb .user (some pLogin) (some (pPasswd.getD [])) then
        logger .debug "User %s found" [.str pLogin]
        logOn pMsg.pNetmask pLogin
        answer pMsg "You're now identified." []
        identChannels pMsg pLogin
      else answer pMsg "Invalid password" []

/-- `!addchannel #channel` -/
def addChannel (pMsg : MsgItem) : Bot Unit := do
  match pMsg.pAccessChannel with
  | none => answerNoChannel pMsg
  | some pAccessChannel =>
    if getChannel pMsg.pRawLine = some pAccessChannel then answerNoChannel pMsg
    else if ← existDb .channel (some pAccessChannel) then
      answer pMsg "The channel %s is already on the channel list." [.str pAccessChannel]
    else
      logger .debug "Join and add the channel %s" [.str pAccessChannel]
      let _ ← addDb .channel (some pAccessChannel) (some "\t\t")
      answer pMsg "The channel %s is added to the channel list" [.str pAccessChannel]
      join pAccessChannel
      answer pMsg "The bot is joined the channel %s." [.str pAccessChannel]

/-- `!rmchannel <#channel>` -/
def rmChannel (pMsg : MsgItem) : Bot Unit := do
  match pMsg.pAccessChannel with
  | none => answerNoChannel pMsg
  | some pAccessChannel =>
    logger .debug "Part and  try to remove the channel %s" [.str pAccessChannel]
    if !(← delDb .channel (some pAccessChannel)) then
      answer pMsg "The channel %s isn't in the channel list." [.str pAccessChannel]
    else answer pMsg "The channel %s is removed from the channel list." [.str pAccessChannel]
    -- access rights for the channel stay as they are
    part pAccessChannel
    answer pMsg "The bot has left the channel %s." [.str pAccessChannel]

/-- `!join #channel` -/
def joinChannel (pMsg : MsgItem) : Quiet Unit := do
  match pMsg.pAccessChannel with
  | none => answerNoChannel pMsg
  | some pAccessChannel =>
    if getChannel pMsg.pRawLine = some pAccessChannel then answerNoChannel pMsg
    else
      logger .debug "Join the channel %s" [.str pAccessChannel]
      join pAccessChannel
      answer pMsg "The bot is joined the channel %s." [.str pAccessChannel]

/-- `!part <#channel>` -/
def partChannel (pMsg : MsgItem) : Quiet Unit := do
  match pMsg.pAccessChannel with
  | none => answerNoChannel pMsg
  | some pAccessChannel =>
    logger .debug "Part the channel %s" [.str pAccessChannel]
    part pAccessChannel
    answer pMsg "The bot has left the channel %s." [.str pAccessChannel]

/-- `stopParser`. -/
def stopParser : Quiet Unit := do
  if !(← readStop) then quit
  setStop
  logger .notice "Stop IRCBot" []

/-- `!die` -/
def die (pMsg : MsgItem) : Quiet Unit := do
  answer pMsg "The bot is going down." []
  stopParser

/-- `!restart` -/
def restart (pMsg : MsgItem) : Quiet Unit := do
  answer pMsg "The bot is going to restart." []
  setAgain
  stopParser

/-- `!nick nickname` -/
def setNick (pMsg : MsgItem) : Quiet Unit := do
  match pMsg.parameters with
  | none => answerNoParameters pMsg
  | some pParameter =>
    if !nickStringCheck pParameter then
      answer pMsg "The Nickname %s is invalid." [.str pParameter]
    else
      nick pParameter
      answer pMsg "The bot tries to change the nickname to %s." [.str pParameter]
      setBotname pParameter

/-- One turn of the loop of `chanlist`. -/
def chanlistChannel (pMsg : MsgItem) (pChannel : CStr) : Quiet Unit := do
  match ← getDb .channel (some pChannel) with
  | none => return
  | some pChannelSet =>
    match strToChannelData pChannelSet with
    | none => crash
    | some sChannelData =>
      logger .debug "...for channel %s" [.str pChannel]
      answer pMsg "%s %s" [.str pChannel, .str (channelModeToStr sChannelData.sModes)]
      if let some pTopic := sChannelData.pTopic then answer pMsg "Topic: %s" [.str pTopic]
      if let some pGreeting := sChannelData.pGreeting then
        answer pMsg "Greeting: %s" [.str pGreeting]

/-- `!chanlist` -/
def chanlist (pMsg : MsgItem) : Quiet Unit := do
  logger .debug "Build channel list." []
  answer pMsg "Channel list:" []
  Prog.forEach (chanlistChannel pMsg) (← listDb .channel)
  answer pMsg "End of the channel list." []

/-- `PACKAGE` and `PACKAGE_VERSION`. -/
def package : CStr := "ebotula"
def packageVersion : CStr := "0.1.20"

/-- `!version` -/
def version (pMsg : MsgItem) : Quiet Unit := do
  let built := (← hostText .buildDate) ++ " - ".toList ++ (← hostText .buildTime)
  let pMsgStr := package ++ " v".toList ++ packageVersion ++ " Built [".toList ++ built ++ [']']
  answer pMsg (pMsgStr.take 255 ++ "\r\n".toList) []

/-- `!greeting <#channel> <text>` -/
def setGreeting (pMsg : MsgItem) : Bot Unit := do
  match pMsg.pAccessChannel with
  | none => answerNoChannel pMsg
  | some pAccessChannel =>
    logger .debug "Greeting seting for %s" [.str pAccessChannel]
    match ← getDb .channel (some pAccessChannel) with
    | none => answer pMsg "The channel %s isn't in the channel list." [.str pAccessChannel]
    | some pChannelSet =>
      match strToChannelData pChannelSet with
      | none => crash
      | some sChannelData =>
        let sChannelData := { sChannelData with pGreeting := pMsg.parameters }
        let _ ← replaceDb .channel (some pAccessChannel) (some (channelDataToStr sChannelData))
        if sChannelData.pGreeting.isNone then
          answer pMsg "The greeting of the channel %s is removed" [.str pAccessChannel]
        else answer pMsg "The new greeting of the channel %s is set" [.str pAccessChannel]

/-- `!topic <#channel> <topic>` -/
def setTopic (pMsg : MsgItem) : Bot Unit := do
  match pMsg.pAccessChannel with
  | none => answerNoChannel pMsg
  | some pAccessChannel =>
    match ← getDb .channel (some pAccessChannel) with
    | none => answer pMsg "This channel isn't in the channel list." []
    | some pChannelSet =>
      logger .debug "Topic seting for %s" [.str pAccessChannel]
      match strToChannelData pChannelSet with
      | none => crash
      | some sChannelData =>
        let sChannelData := { sChannelData with pTopic := pMsg.parameters }
        let _ ← replaceDb .channel (some pAccessChannel) (some (channelDataToStr sChannelData))
        topic pAccessChannel (some (sChannelData.pTopic.getD []))
        if sChannelData.pTopic.isNone then
          answer pMsg "The topic of the channel %s is removed" [.str pAccessChannel]
        else answer pMsg "The new topic of the channel %s is set" [.str pAccessChannel]

/-- `!viewgreet <#channel>` -/
def greeting (pMsg : MsgItem) : Quiet Unit := do
  match pMsg.pCallingNick, pMsg.pAccessChannel with
  | some pCallingNick, some pAccessChannel =>
    if !strcaseeq pCallingNick (← botname) then
      logger .debug "Greeting for %s" [.str pAccessChannel]
      match ← getDb .channel (some pAccessChannel) with
      | none => return
      | some pChannelSet =>
        -- the greeting itself is the format
        if let some greeting := getGreeting pChannelSet then
          sendMsg .noticeMode pCallingNick greeting []
  | _, _ => return

/-- `!say <#channel> text` -/
def say (pMsg : MsgItem) : Quiet Unit :=
  match pMsg.pAccessChannel with
  | none => answerNoChannel pMsg
  | some pAccessChannel =>
    match pMsg.parameters with
    | none => answerNoParameters pMsg
    | some pParameter => privmsg pAccessChannel pParameter

/-- `!allsay text` -/
def allsay (pMsg : MsgItem) : Quiet Unit := do
  match pMsg.parameters with
  | none => answerNoParameters pMsg
  | some pMsgStr =>
    Prog.forEach (fun pChannel => privmsg (some pChannel) pMsgStr) (← listDb .channel)

/-- Registering a callback for the answer to a WHOIS, and asking for it. -/
def registerCallback (item : CallbackItem) : Quiet Unit := do
  let _ ← insertNextCallbackDList (← callbackTail) item
  whois item.nickname

/-- `!ban <#channel> nick` -/
def banuser (pMsg : MsgItem) : Quiet Unit := do
  match pMsg.pAccessChannel with
  | none => answerNoChannel pMsg
  | some pAccessChannel =>
    match pMsg.parameters with
    | none => answerNoParameters pMsg
    | some pParameter =>
      match (getFirstPart pParameter none).1 with
      | none => answerNoParameters pMsg
      | some pToBanNick =>
        if strcaseeq pToBanNick (← botname) then answer pMsg "Can't ban myself" []
        else
          match ← getDb .nickToUser pMsg.pNetmask with
          -- `strlen(NULL)`
          | none => crash
          | some pLogin =>
            registerCallback ⟨pToBanNick, .setBanCb, pLogin ++ ' ' :: pAccessChannel⟩

/-- `!deban <#channel> banmask` -/
def debanuser (pMsg : MsgItem) : Quiet Unit := do
  match pMsg.pAccessChannel with
  | none => answerNoChannel pMsg
  | some pAccessChannel =>
    match pMsg.parameters with
    | none => answerNoParameters pMsg
    | some pParameter =>
      match (getFirstPart pParameter none).1 with
      | none => return
      | some pBanmask =>
        deban pAccessChannel pBanmask
        answer pMsg "The ban %s is removed by the bot from the channel %s"
          [.str pBanmask, .str pAccessChannel]

/-- `!kick <#channel> nick reason` -/
def kickuser (pMsg : MsgItem) : Quiet Unit := do
  match pMsg.pAccessChannel with
  | none => answerNoChannel pMsg
  | some pAccessChannel =>
    match pMsg.parameters with
    | none => answerNoParameters pMsg
    | some pParameter =>
      match getFirstPart pParameter none with
      | (none, _) => return
      | (some pKicknick, pReason) =>
        if strcaseeq pKicknick (← botname) then answer pMsg "Can't kick myself" []
        else
          let pReason := pReason.getD "You are kicked from the bot."
          match ← getDb .nickToUser pMsg.pNetmask with
          | none => answer pMsg "Couldn't found you account." []
          | some pLogin =>
            registerCallback
              ⟨pKicknick, .kickCb, pLogin ++ ' ' :: pAccessChannel ++ ' ' :: pReason⟩

/-! ### `!accountmode [#channel] <login> <mod>` -/

/-- The end of `accountmode`: the new mode is set for the target where he is logged in. -/
def accountmodeShow (pAccessChannel pLogin : CStr) (oldmod : Option CStr) (mod : CStr) :
    Quiet Unit := do
  match ← getDb .userToNick (some pLogin) with
  | none => return
  | some pNetmask =>
    logger .debug "Modify the current account modes" []
    match getNickname pNetmask with
    | none => return
    | some usernick =>
      if strAt mod 0 = '-' then mode pAccessChannel mod usernick
      else
        if let some oldmod := oldmod then
          if 'v' ∈ oldmod then mode pAccessChannel (some "-v") usernick
          else if !oldmod.isEmpty then mode pAccessChannel (some "-o") usernick
        if strAt mod 1 = 'v' then mode pAccessChannel (some "+v") usernick
        else mode pAccessChannel (some "+o") usernick

/-- `oldmod && oldmod[1]=='m'`. -/
def accountmodeIsMaster (oldmod : Option CStr) : Quiet Bool := do
  match oldmod with
  | some oldmod => return (← secondChar oldmod) = 'm'
  | none => return false

/-- The rights that cannot stand beside the new mode are deleted. -/
def accountmodeClean (pLogin : CStr) (oldmod : Option CStr) (mod1 : Char) : Bot Unit := do
  let oldMaster ← accountmodeIsMaster oldmod
  if mod1 ≠ 'm' then
    if oldMaster then
      let _ ← delDb .access (some pLogin)
  else if oldmod.isSome && !oldMaster then rmAccessRights pLogin

/-- The new mode is written under its key, or what is there is deleted. -/
def accountmodeWrite (pKey mod : CStr) : Bot Unit := do
  if strAt mod 0 = '+' then
    logger .debug "Set new account modes" []
    if !(← addDb .access (some pKey) (some mod)) then
      let _ ← replaceDb .access (some pKey) (some mod)
  else
    logger .debug "Remove new account modes" []
    let _ ← delDb .access (some pKey)

/-- The rest of `accountmode`, from a mode of two characters on. -/
def accountmodeApply (pAccessChannel pLogin : CStr) (oldmod : Option CStr) (mod0 mod1 : Char) :
    Bot Unit := do
  let mod := cString [mod0, mod1]
  logger .debug "Found account modes %s" [.str mod]
  accountmodeClean pLogin oldmod mod1
  -- a master's record has the login alone as its key
  accountmodeWrite (if mod1 = 'm' then pLogin else pLogin ++ pAccessChannel) mod
  accountmodeShow pAccessChannel pLogin oldmod mod

/-- The switch of `accountmode` on the mode word. A caller who is not a master and
asks for `m` is refused, but the switch goes on with a second character that nobody
has written. -/
def accountmodeSwitch (pMsg : MsgItem) (pAccessChannel pLogin : CStr) (oldmod : Option CStr)
    (pPos : CStr) : Bot Unit := do
  let mod0 := strAt pPos 0
  let pChange (mod1 : Char) : Bot Unit := do
    accountmodeApply pAccessChannel pLogin oldmod mod0 mod1
    answer pMsg "The user mode of the account %s is changed." [.str pLogin]
  if mod0 ≠ '+' ∧ mod0 ≠ '-' then return
  else
    match strAt pPos 1 with
    | 'v' => pChange 'v'
    | 'o' => pChange 'o'
    | 'm' =>
      if pMsg.userLevel ≠ .masterLevel then
        answer pMsg "You're not a bot master." []
        pChange (strAt (← unwritten .accountmodeMod) 0)
      else pChange 'm'
    | c => answer pMsg "The mode %c is invalid." [.chr c]

/-- The part of `accountmode` that looks up what the target has now. -/
def accountmodeTarget (pMsg : MsgItem) (pAccessChannel pLogin pPos : CStr) : Bot Unit := do
  match ← getDb .access (some (pLogin ++ pAccessChannel)) with
  | some oldmod =>
    logger .debug "Modify account %s in the channel %s" [.str pLogin, .str pAccessChannel]
    accountmodeSwitch pMsg pAccessChannel pLogin (some oldmod) pPos
  | none =>
    let oldmod ← getDb .access (some pLogin)
    -- only a master can modify another master
    if 'm' ∈ oldmod.getD [] ∧ pMsg.userLevel ≠ .masterLevel then
      answer pMsg "You're not a bot master." []
    else
      logger .debug "Modify account %s in the channel %s" [.str pLogin, .str pAccessChannel]
      accountmodeSwitch pMsg pAccessChannel pLogin oldmod pPos

/-- `!accountmode [#channel] <login> <mod>` -/
def accountmode (pMsg : MsgItem) : Bot Unit := do
  match pMsg.pAccessChannel with
  | none => answerNoChannel pMsg
  | some pAccessChannel =>
    match ← getDb .nickToUser pMsg.pNetmask with
    | none => return
    | some accesslogin =>
      if !(← existDb .channel (some pAccessChannel)) then
        answer pMsg "This channel isn't in the channel list." []
      else
        match pMsg.parameters with
        | none => answerNoParameters pMsg
        | some pParameter =>
          logger .debug "Modify user mod" []
          match cutFirst ' ' pParameter with
          | none => answerNoParameters pMsg
          | some (pLogin, pPos) =>
            if !(← existDb .user (some pLogin)) then
              answer pMsg "Couldn't find the account %s." [.str pLogin]
            else if pLogin = accesslogin then answer pMsg "You can't modify yourself" []
            else accountmodeTarget pMsg pAccessChannel pLogin pPos

/-! ### `!chanmode [#channel] <mod>` -/

/-- `CHANNEL_MODES`. -/
def channelModes : CStr := "kltnmsprqi"

/-- One turn of the loop of `chanmode`: slot `i` of the request goes into the record. -/
def mergeMode (sNewMode sModes : ChannelMode) (i : Nat) : ChannelMode :=
  let c := strAt sNewMode.pModeStr i
  if strAt sNewMode.pModeStr ChanModeEnum.modType.ctorIdx = '+' then
    if c ≠ ' ' then
      let sModes := { sModes with pModeStr := sModes.pModeStr.set i c }
      if c = 'k' ∧ sNewMode.pKeyword.isSome then { sModes with pKeyword := sNewMode.pKeyword }
      else if c = 'l' ∧ sNewMode.pLimit.isSome then { sModes with pLimit := sNewMode.pLimit }
      else sModes
    else sModes
  else if strAt sNewMode.pModeStr ChanModeEnum.modType.ctorIdx = '-' then
    if c ≠ ' ' then
      let sModes :=
        if c = 'k' then { sModes with pKeyword := none }
        else if c = 'l' then { sModes with pLimit := none }
        else sModes
      { sModes with pModeStr := sModes.pModeStr.set i ' ' }
    else sModes
  else sModes

/-- The sign of a mode line: a plus when one of `CHANNEL_MODES` is set. -/
def signMode (sModes : ChannelMode) : ChannelMode :=
  sModes.setSlot .modType (if strpbrk sModes.pModeStr channelModes then '+' else ' ')

/-- The record `chanmode` writes: the request merged slot by slot, and the sign. -/
def mergeModes (sModes sNewMode : ChannelMode) : ChannelMode :=
  signMode ((List.range' 1 (maxModes - 1)).foldl (mergeMode sNewMode) sModes)

/-- `!chanmode [#channel] <mod>` -/
def chanmode (pMsg : MsgItem) : Bot Unit := do
  match pMsg.pAccessChannel with
  | none => answerNoChannel pMsg
  | some pAccessChannel =>
    match pMsg.parameters with
    | none => answerNoParameters pMsg
    | some pParameters =>
      match ← getDb .channel (some pAccessChannel) with
      | none => answer pMsg "The channel %s isn't in the channel list." [.str pAccessChannel]
      | some pChannelSet =>
        match strToChannelData pChannelSet, strToChannelMode pParameters with
        | some sChannelData, some sNewMode =>
          logger .debug "Found the new channel modes \"%s\" for the channel %s."
            [.str (channelModeToStr sNewMode), .str pAccessChannel]
          let sChannelData :=
            { sChannelData with sModes := mergeModes sChannelData.sModes sNewMode }
          logger .debug "Write the new channel modes \"%s\" for the channel %s."
            [.str (channelModeToStr sChannelData.sModes), .str pAccessChannel]
          let _ ← replaceDb .channel (some pAccessChannel) (some (channelDataToStr sChannelData))
          logger .debug "Set the new channel modes for the channel %s" [.str pAccessChannel]
          mode pAccessChannel (some (channelModeToStr sNewMode)) none
        | _, _ => crash

/-! ### `!rmaccount <login>` -/

/-- The end of `rmaccount`: the modes of the login are taken back in all channels. -/
def rmaccountModes (pLogin : CStr) : Quiet Unit := do
  match ← getDb .userToNick (some pLogin) with
  | none => return
  | some pNetmask =>
    match getNickname pNetmask with
    | none => return
    | some rmnick =>
      Prog.forEach (fun pChannel => do
        mode (some pChannel) (some "-o") rmnick
        mode (some pChannel) (some "-v") rmnick) (← listDb .channel)

/-- `!rmaccount <login>` -/
def rmaccount (pMsg : MsgItem) : Bot Unit := do
  match pMsg.parameters with
  | none => answerNoParameters pMsg
  | some pParameter =>
    let pLogin := strtokBuf ' ' pParameter
    if ← existDb .user (some pLogin) then
      rmAccount pLogin
      rmaccountModes pLogin
      answer pMsg "The account is removed" []
      logger .debug "Remove %s from the user list" [.str pLogin]
    else answer pMsg "Couldn't fount the account %s." [.str pLogin]

/-! ### `!accountlist [#channel]` -/

/-- `iLoginLen`, with the NUL. -/
def iLoginLen (pLogin : CStr) : Nat := toUnsigned (pLogin.length + 1)

/-- `iLoginTab`, with `ACCOUNT_LIST_TAB`. -/
def iLoginTab (pLogin : CStr) : Nat := if iLoginLen pLogin < 16 then 16 else iLoginLen pLogin

/-- A login filled up to its tab. -/
def accountListFill (pLogin : CStr) : CStr :=
  pLogin ++ List.replicate (iLoginTab pLogin - iLoginLen pLogin) ' '

/-- The line of a list is itself the format. -/
def sendListLine (pMsg : MsgItem) (pMsgStr : CStr) : Quiet Unit :=
  sendMsg pMsg.answerMode pMsg.pCallingNick pMsgStr []

/-- The lines of a login that is no master: one for each channel with a right in it. -/
def accountListUser (pMsg : MsgItem) (pLogin pChannel : CStr) : Quiet Unit := do
  let pMod ← getDb .access (some (pLogin ++ pChannel))
  let right ←
    match pMod with
    | none => pure none
    | some pMod => do
      let c ← secondChar pMod
      if c = 'o' then pure (some (" Owner of ".toList ++ pChannel))
      else if c = 'v' then pure (some (" Friend of ".toList ++ pChannel))
      else pure none
  let status : CStr := if ← existDb .userToNick (some pLogin) then "ON " else "OFF"
  match right with
  | none => return
  | some right =>
    sendListLine pMsg (accountListFill pLogin ++ right ++ "   Status: ".toList ++ status)

/-- One turn of the loop of `accountlist` for a master. -/
def accountListMaster (pMsg : MsgItem) (pChannelQueue : List CStr) (pLogin : CStr) :
    Quiet Unit := do
  if ← existDb .access (some pLogin) then
    let status : CStr := if ← existDb .userToNick (some pLogin) then " ON " else " OFF"
    sendListLine pMsg (accountListFill pLogin ++ " Master   Status:".toList ++ status)
  else
    if pChannelQueue.isEmpty then logger .debug "Queue is empty" []
    -- the iterator of the queue goes from the newest entry to the oldest
    Prog.forEach (accountListUser pMsg pLogin) pChannelQueue.reverse

/-- One turn of the loop of `accountlist` for one channel. -/
def accountListOwner (pMsg : MsgItem) (pAccessChannel pLogin : CStr) : Quiet Unit := do
  match ← getDb .access (some (pLogin ++ pAccessChannel)) with
  | none => return
  | some pMod =>
    let c ← secondChar pMod
    let status : CStr := if ← existDb .userToNick (some pLogin) then "ON " else "OFF"
    let line (right : CStr) := accountListFill pLogin ++ right ++ "   Status: ".toList ++ status
    if c = 'o' then sendListLine pMsg (line "Owner ")
    else if c = 'v' then sendListLine pMsg (line "Friend")

/-- `!accountlist [#channel]` -/
def accountlist (pMsg : MsgItem) : Quiet Unit := do
  let pArgv := (getArgument pMsg.pRawLine).1
  let pLoginQueue ← listDb .user
  if pMsg.userLevel = .masterLevel ∧ pArgv.isNone then
    answer pMsg "Account list:" []
    logger .debug "Create the accountlist for a master" []
    Prog.forEach (accountListMaster pMsg (← listDb .channel)) pLoginQueue
    answer pMsg "End of the account list." []
  else
    logger .debug "Create the accountlist for a owner" []
    match pMsg.pAccessChannel with
    | none => answerNoChannel pMsg
    | some pAccessChannel =>
      answer pMsg "Account list:" []
      Prog.forEach (accountListOwner pMsg pAccessChannel) pLoginQueue
      answer pMsg "End of the account list." []

/-- `!invite <#channel> [Nick]` -/
def inviteuser (pMsg : MsgItem) : Quiet Unit := do
  match (getArgument pMsg.pRawLine).1 with
  | none => answerNoParameters pMsg
  | some pParameter =>
    let pRest := rmFirstPart pParameter none
    match (getFirstPart pRest none).1.or pMsg.pCallingNick with
    -- `strlen(NULL)`
    | none => crash
    | some pInviteNick =>
      if strcaseeq pInviteNick (← botname) then answer pMsg "Can't invite myself." []
      else
        match pMsg.pAccessChannel with
        | some pAccessChannel =>
          invite pAccessChannel pInviteNick
          answer pMsg "The bot has invite the user %s to the channel %s."
            [.str pInviteNick, .str pAccessChannel]
        | none =>
          answer pMsg "The bot need a channel parameter for inviting of the user %s"
            [.str pInviteNick]

end Ebotula
