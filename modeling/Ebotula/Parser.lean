import Ebotula.Handles

/-!
# From a line to its handler

`cmdlist.c` and `parser.c`: the table of handlers, the classification of a received
line, and what a worker does with an entry of the command queue. The worker's loop
around it is modelled with the shutdown.
-/

set_option autoImplicit false

namespace Ebotula

open Library

/-- `CmdHandleField[id].CommandHandler`. -/
def commandHandler : Cmd → MsgItem → Bot Unit
  -- calling a NULL pointer
  | .cmdNone => fun _ => crash (α := Unit)
  | .onPing => fun pMsg => hPong pMsg
  | .onQuit => logoff
  | .onNickChg => hNickChange
  | .onMode => fun pMsg => hResetModes pMsg
  | .onKick => fun pMsg => hRejoinAfterKick pMsg
  | .onJoin => fun pMsg => hUserJoin pMsg
  | .onNames => fun pMsg => hBotNeedOp pMsg
  | .onTopic => fun pMsg => hResetTopic pMsg
  | .onWhois => fun pMsg => hCallback pMsg
  | .onNoNick => fun pMsg => hWhoisFailed pMsg
  | .ctcpPing => fun pMsg => ctcpping pMsg
  | .ctcpVersion => fun pMsg => ctcpversion pMsg
  | .ctcpTime => fun pMsg => ctcptime pMsg
  | .viewGreat => fun pMsg => greeting pMsg
  | .help => fun pMsg => help pMsg
  | .version => fun pMsg => version pMsg
  | .hello => hello
  | .ident => ident
  | .logoff => logoff
  | .pass => password
  | .invite => fun pMsg => inviteuser pMsg
  | .chanMode => chanmode
  | .accountList => fun pMsg => accountlist pMsg
  | .accountMode => accountmode
  | .say => fun pMsg => say pMsg
  | .kick => fun pMsg => kickuser pMsg
  | .setTopic => setTopic
  | .setGreating => setGreeting
  | .ban => fun pMsg => banuser pMsg
  | .deban => fun pMsg => debanuser pMsg
  | .restart => fun pMsg => restart pMsg
  | .allSay => fun pMsg => allsay pMsg
  | .rmUser => rmaccount
  | .nick => fun pMsg => setNick pMsg
  | .die => fun pMsg => die pMsg
  | .channels => fun pMsg => chanlist pMsg
  | .rmChannel => rmChannel
  | .addChannel => addChannel
  | .join => fun pMsg => joinChannel pMsg
  | .part => fun pMsg => partChannel pMsg

/-! ## Classification -/

/-- `!strncmp(pPos,CmdHandleField[id].pCmdString,strlen(…))`. -/
def startsWith (id : Cmd) (pPos : CStr) : Bool := (pCmdString id).isPrefixOf pPos

/-- The part of `preParser` for PRIVMSG and NOTICE: a bot command or a CTCP command. -/
def identifyMessage (pLine : CStr) : Quiet Cmd := do
  match cutString " :!".toList pLine with
  | some (_, pStr) =>
    match Cmd.commands.find? (startsWith · pStr) with
    | some i =>
      logger .debug "Found command %s" [.str (pCmdString i)]
      return i
    | none => return .cmdNone
  | none =>
    match cutString " :\x01".toList pLine with
    | some (_, rest) =>
      logger .debug "Receive: \"%s\"" [.str pLine]
      match [Cmd.ctcpPing, .ctcpVersion, .ctcpTime].find? (startsWith · ('\x01' :: rest)) with
      | some i =>
        logger .debug "Found ctcp command %s" [.str (pCmdString i)]
        return i
      | none => return .cmdNone
    | none => return .cmdNone

/-- The events, in the order in which `preParser` compares them. -/
def eventOrder : List Cmd :=
  [.onQuit, .onJoin, .onNickChg, .onMode, .onKick, .onTopic, .onNames, .onWhois, .onNoNick]

/-- The chain of comparisons of `preParser`. A PING is answered at once and is no
message for the queue. -/
def identifyLine (pLine pPos : CStr) : Quiet Cmd := do
  if startsWith .onPing pPos then
    pong ((cutFirst ' ' pPos).map Prod.snd)
    return .cmdNone
  else
    match eventOrder.find? (startsWith · pPos) with
    | some event => return event
    | none =>
      if "PRIVMSG".toList.isPrefixOf pPos || "NOTICE".toList.isPrefixOf pPos then
        identifyMessage pLine
      else return .cmdNone

/-- `preParser`. A line that is not identified leaves `pMsgLine` NULL. -/
def preParser (pLine : CStr) : Quiet MsgBuf := do
  match getCommand pLine with
  | some pPreamble =>
    match cutFirst ' ' pPreamble with
    | none => return ⟨.cmdNone, []⟩
    | some (_, pPos) => finish (← identifyLine pLine pPos)
  | none => finish (← identifyLine pLine pLine)
where
  finish (identify : Cmd) : Quiet MsgBuf :=
    return if identify = .cmdNone then ⟨.cmdNone, []⟩ else ⟨identify, pLine⟩

/-! ## Execution -/

/-- `AccessRight`, as its tests are nested and each overwrites the answer. -/
def accessRight (level : UserLevel) (cmdId : Cmd) : Bool :=
  if Cmd.event ≤ cmdId then
    let ret :=
      if (cmdId = .onNickChg ∨ cmdId = .onQuit) ∧ .loggedLevel ≤ level then true
      else if cmdId ≠ .onNickChg ∧ cmdId ≠ .onQuit then true
      else false
    if Cmd.others ≤ cmdId then
      if Cmd.logged ≤ cmdId then
        if .loggedLevel ≤ level then
          if Cmd.friend ≤ cmdId then
            if .friendLevel ≤ level then
              if Cmd.owner ≤ cmdId then
                if .ownerLevel ≤ level then
                  if Cmd.master ≤ cmdId then decide (level = .masterLevel)
                  else true
                else false
              else true
            else false
          else true
        else false
      else true
    else ret
  else false

/-- The item a worker fills from a line, once the level is known. `getAccessChannel`
and `getParameters` leave their marks in the line, in this order. -/
def fillItem (pMsgLine : CStr) (userLevel : UserLevel) (bInteractiveMode : Bool) : MsgItem :=
  let access := getAccessChannel pMsgLine
  let parameters := getParameters access.2
  { userLevel
    answerMode := getAnswerMode access.2
    pAccessChannel := access.1
    pCallingNick := getNickname access.2
    pNetmask := getNetmask pMsgLine
    pRawLine := parameters.2
    bInteractiveMode
    pParameter := parameters.1
    channel_head := fun _ h => getAccessChannel_head h
    nick_check := fun _ h => getNickname_check h }

/-- The body of the loop of `CommandExecutionThread`: one entry of the queue. -/
def executeCommand (pMsg : MsgBuf) : Bot Unit := do
  let userLevel ← getUserLevel (getAccessChannel pMsg.pMsgLine).1 (getNetmask pMsg.pMsgLine)
  let sMsgItem := fillItem pMsg.pMsgLine userLevel (bIsCommand pMsg.identify)
  let ret := accessRight userLevel pMsg.identify
  logger .debug "Access status for the userlevel %i and the command id %i is %i"
    [.int userLevel.ctorIdx, .int pMsg.identify.ctorIdx, .int ret.toNat]
  if ret then
    if pMsg.identify ≠ .cmdNone then commandHandler pMsg.identify sMsgItem
    else logger .crit "Unknown command id %d" [.int pMsg.identify.ctorIdx]
  else notice sMsgItem.pCallingNick (some "Access denied")

end Ebotula
