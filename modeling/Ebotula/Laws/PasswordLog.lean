import Ebotula.Laws.Extractors
import Ebotula.Laws.Logs

/-!
# Passwords and the log

Two lines that differ in a password alone should leave the same log. The receive loop sees to it
for lines with `ident` in them, so `!ident` is safe there, and `!pass` is not. Behind the receive
loop there are two more places: the level that `AccessRight` logs is that of the channel of the
line, which can be in the password; and both handlers tell the caller of an empty password.
`HidesPassword` puts the three together, and the logs are the same exactly then.
-/

set_option autoImplicit false

namespace Ebotula

open Library

variable {G : Type} [DbLib G] {env : Env} {count : SendCount} {w w' : World G}

/-! ## Two lines that differ in a password -/

/-- What a handler reads as the parameters of its line. -/
def handlerParameters (pLine : CStr) : Option CStr := (getParameters (getAccessChannel pLine).2).1

/-- The password in the parameters of `ident`. -/
def passwordIn (pParameter : CStr) : Option CStr := (cutFirst ' ' pParameter).map Prod.snd

/-- The login that the sender of a line is known by. -/
def callerLogin (dbs : Databases G) (pLine : CStr) : Option CStr :=
  dbs.getDb .nickToUser (getNetmask pLine)

/-- The level of the sender in the channel of the line. -/
def callerLevel (dbs : Databases G) (pLine : CStr) : UserLevel :=
  dbs.userLevel (getAccessChannel pLine).1 (getNetmask pLine)

/-- The commands that are given a password. -/
inductive PasswordCommand
  | pass
  | ident
  deriving DecidableEq, Repr

namespace PasswordCommand

def id : PasswordCommand → Cmd
  | pass => .pass
  | ident => .ident

/-- The password that the handler finds in a line, or none where it takes an empty one. -/
def password : PasswordCommand → CStr → Option CStr
  | pass, pLine => handlerParameters pLine
  | ident, pLine => (handlerParameters pLine).bind passwordIn

/-- The handler looks for a password when the sender is known by this login, or by none. -/
def Looks : PasswordCommand → Option CStr → Prop
  | pass, login => login ≠ none ∧ login ≠ some []
  | ident, login => login = none

instance (c : PasswordCommand) (login : Option CStr) : Decidable (c.Looks login) := by
  cases c
  · exact inferInstanceAs (Decidable (_ ∧ _))
  · exact inferInstanceAs (Decidable (_ = _))

end PasswordCommand

/-- The login in a line for `ident`. -/
def loginAsked (pLine : CStr) : Option CStr := (handlerParameters pLine).map (strtokBuf ' ')

/-- Whether the password in it is the one of the login. -/
def identAccepts (dbs : Databases G) (pLine : CStr) : Bool :=
  dbs.checkDb .user (loginAsked pLine) (some ((PasswordCommand.ident.password pLine).getD []))

/-- Two lines with one of the commands that are the same up to the argument of the command. For
`ident` the login is the same too, and so is what becomes of it. -/
structure PasswordApart (c : PasswordCommand) (dbs : Databases G) (pLine pLine' : CStr) :
    Prop where
  front : ∃ before word arg arg', splitArgument pLine = some (before, word, arg) ∧
    splitArgument pLine' = some (before, word, arg')
  command : identity pLine = c.id
  command' : identity pLine' = c.id
  login : c = .ident → loginAsked pLine = loginAsked pLine'
  outcome : c = .ident → callerLogin dbs pLine = none →
    identAccepts dbs pLine = identAccepts dbs pLine'

/-- Nothing that is logged tells the two lines apart: the receive loop shows neither of them, a
sender who is known has the same level for both, and the handler finds a password in both or in
none of them. -/
def HidesPassword (c : PasswordCommand) (dbs : Databases G) (pLine pLine' : CStr) : Prop :=
  (pLine = pLine' ∨ MentionsIdent pLine ∧ MentionsIdent pLine') ∧
    (callerLogin dbs pLine ≠ none → callerLevel dbs pLine = callerLevel dbs pLine') ∧
    (c.Looks (callerLogin dbs pLine) → (c.password pLine = none ↔ c.password pLine' = none))

instance (c : PasswordCommand) (dbs : Databases G) (pLine pLine' : CStr) :
    Decidable (HidesPassword c dbs pLine pLine') := inferInstanceAs (Decidable (_ ∧ _ ∧ _))

section Front

variable {c : PasswordCommand} {dbs : Databases G} {pLine pLine' : CStr}

/-- What is the same for both lines wherever the handler looks. -/
structure SameCaller (pMsg pMsg' : MsgItem) : Prop where
  netmask : pMsg.pNetmask = pMsg'.pNetmask
  nick : pMsg.pCallingNick = pMsg'.pCallingNick
  mode : pMsg.answerMode = pMsg'.answerMode

theorem PasswordApart.sameFront (h : PasswordApart c dbs pLine pLine') :
    SameFront pLine pLine' := by
  obtain ⟨before, word, arg, arg', hsplit, hsplit'⟩ := h.front
  exact sameFront_of_splitArgument hsplit hsplit'

theorem SameFront.sameCaller (h : SameFront pLine pLine') (userLevel userLevel' : UserLevel)
    (bInteractiveMode : Bool) : SameCaller (fillItem pLine userLevel bInteractiveMode)
      (fillItem pLine' userLevel' bInteractiveMode) := by
  have hleft : SameFront (getAccessChannel pLine).2 (getAccessChannel pLine').2 :=
    (sameFront_getAccessChannel pLine).trans (h.trans (sameFront_getAccessChannel pLine').symm)
  refine ⟨h.netmask, ?_, ?_⟩
  · show getNickname _ = getNickname _
    rw [getNickname, getNickname, hleft.netmask]
  · show getAnswerMode _ = getAnswerMode _
    rw [getAnswerMode, getAnswerMode, hleft.channel]

theorem parameters_fillItem {userLevel : UserLevel} {bInteractiveMode : Bool} :
    (fillItem pLine userLevel bInteractiveMode).parameters = handlerParameters pLine := by
  show (getParameters (getParameters (getAccessChannel pLine).2).2).1 = _
  rw [handlerParameters, getParameters_eq (getParameters _).2, getParameters_eq]
  dsimp only
  rw [getArgument_getArgument]

theorem callerLevel_none (h : callerLogin dbs pLine = none) :
    callerLevel dbs pLine = .noneLevel := by
  have hnone : dbs.getDb .nickToUser (getNetmask pLine) = none := h
  rw [callerLevel, Databases.userLevel, hnone]

/-- Who is known has a level of at least a login. -/
theorem callerLevel_logged (h : callerLogin dbs pLine ≠ none) :
    UserLevel.loggedLevel ≤ callerLevel dbs pLine := by
  obtain ⟨pLogin, hlogin⟩ := Option.ne_none_iff_exists'.mp h
  have hsome : dbs.getDb .nickToUser (getNetmask pLine) = some pLogin := hlogin
  rw [callerLevel, Databases.userLevel, hsome]
  dsimp only
  split
  · split
    · decide
    · split <;> decide
  · split <;> decide

end Front

/-! ## The log of a line with a password -/

/-- The item that the worker fills for a line. -/
def PasswordCommand.item (c : PasswordCommand) (dbs : Databases G) (pLine : CStr) : MsgItem :=
  fillItem pLine (callerLevel dbs pLine) (bIsCommand c.id)

/-- What is logged behind the message of `AccessRight`. -/
def handlerLog (env : Env) (count : SendCount) (c : PasswordCommand) (dbs : Databases G)
    (pLine : CStr) (w : World G) : List LogLine :=
  if accessRight (callerLevel dbs pLine) c.id then
    botLog env count (commandHandler c.id (c.item dbs pLine)) w
  else quietLog env count (notice (c.item dbs pLine).pCallingNick (some "Access denied")) w

/-- The world in which the handler begins. -/
def handlerWorld (c : PasswordCommand) (w : World G) (pLine : CStr) : World G :=
  ((w.logging (receiveLog pLine)).logging (foundLine c.id)).logging
    (accessLine (callerLevel w.db pLine) ⟨c.id, pLine⟩)

section Whole

variable {c : PasswordCommand} {pLine pLine' : CStr}

theorem PasswordCommand.id_mem (c : PasswordCommand) : c.id ∈ Cmd.commands := by
  cases c <;> decide

theorem PasswordCommand.id_ne (c : PasswordCommand) : c.id ≠ .cmdNone := by
  cases c <;> decide

theorem botLog_executeCommand : botLog env count (executeCommand ⟨c.id, pLine⟩) w =
    accessLine (callerLevel w.db pLine) ⟨c.id, pLine⟩ ::
      handlerLog env count c w.db pLine
        (w.logging (accessLine (callerLevel w.db pLine) ⟨c.id, pLine⟩)) := by
  simp only [executeCommand, Prog.liftM_eq]
  rw [botLog_getUserLevel, botLog_logger, if_pos c.id_ne]
  refine congrArg₂ List.cons rfl ?_
  by_cases h : accessRight (callerLevel w.db pLine) c.id = true
  · rw [handlerLog, if_pos h]
    exact congrArg (botLog env count · _) (if_pos h)
  · rw [handlerLog, if_neg h, ← botLog_lift]
    exact congrArg (botLog env count · _) (if_neg h)

/-- The messages for a line: of the receive loop, of the parser and of the worker, and what its
handler logs. -/
theorem lineLog_eq (h : identity pLine = c.id) : lineLog env count w pLine =
    (receiveLog pLine).message :: (foundLine c.id).message ::
      (accessLine (callerLevel w.db pLine) ⟨c.id, pLine⟩).message ::
        (handlerLog env count c w.db pLine (handlerWorld c w pLine)).map LogLine.message := by
  have hserve : botLog env count (serveLine pLine) w = receiveLog pLine :: foundLine c.id ::
      botLog env count (executeCommand ⟨c.id, pLine⟩)
        ((w.logging (receiveLog pLine)).logging (foundLine c.id)) := by
    have hreceive : receiveLine pLine =
        logger .debug "Receive: \"%s\"" [.str (receiveText pLine)] >>= fun _ =>
          logger .debug "Found command %s" [.str (pCmdString c.id)] >>= fun _ =>
            pure ⟨c.id, pLine⟩ := by
      rw [receiveLine_eq, preParser_command c.id_mem h]
    have hrun : (receiveLine pLine).run (performQuiet env) w =
        some (⟨c.id, pLine⟩, (w.logging (receiveLog pLine)).logging (foundLine c.id)) := by
      rw [hreceive]
      rfl
    have hlog : quietLog env count (receiveLine pLine) w =
        [receiveLog pLine, foundLine c.id] := by
      rw [hreceive]
      rfl
    simp only [serveLine, Prog.liftM_eq]
    rw [botLog_bind_of_run hrun, hlog, if_pos c.id_ne]
    rfl
  rw [lineLog, hserve, botLog_executeCommand]
  rfl

end Whole

/-! ### The handler of `!pass` -/

section Pass

attribute [local irreducible] Prog.Calls

variable {pMsg pMsg' : MsgItem}

theorem SameCaller.answer_eq (h : SameCaller pMsg pMsg') : answer pMsg = answer pMsg' := by
  funext pMsgStr arg
  rw [answer, answer, h.mode, h.nick]

/-- What `password` answers when it has changed the password. -/
def passwordAnswer (pMsg : MsgItem) : Quiet Unit := do
  if pMsg.parameters.isNone then answer pMsg "You've set a empty password." []
  answer pMsg "Password is changed." []

theorem talks_emptyPassword (pMsg : MsgItem) :
    Talks (answer pMsg "You've set a empty password." []) :=
  talks_answer [] (by decide +kernel) rfl

theorem emptyPassword_shown (env : Env) (count : SendCount) (w : World G) (pMsg : MsgItem) :
    ∃ line rest, quietLog env count (answer pMsg "You've set a empty password." []) w =
      line :: rest ∧ line.OfSending :=
  answer_shown [] (by decide +kernel) rfl

theorem talks_changed (pMsg : MsgItem) : Talks (answer pMsg "Password is changed." []) :=
  talks_answer [] (by decide +kernel) rfl

theorem botLog_password : botLog env count (password pMsg) w =
    match w.db.getDb .nickToUser pMsg.pNetmask with
    | none => []
    | some pLogin => ⟨.debug, "Check the  password for the account %s", [.str pLogin]⟩ ::
        if pLogin = [] then [] else quietLog env count (passwordAnswer pMsg)
          (w.logging ⟨.debug, "Check the  password for the account %s", [.str pLogin]⟩) := by
  simp only [password, Prog.liftM_eq]
  rw [botLog_getDb]
  cases w.db.getDb .nickToUser pMsg.pNetmask with
  | none => rfl
  | some pLogin =>
    dsimp only
    rw [botLog_logger]
    refine congrArg _ ?_
    cases pLogin with
    | nil => rfl
    | cons a pLogin =>
      have hsome : (!(a :: pLogin).isEmpty) = true := rfl
      rw [if_neg (List.cons_ne_nil _ _), if_pos hsome, passwordAnswer]
      generalize w.logging _ = w₁
      cases hparameters : pMsg.parameters with
      | some pPasswd =>
        have hno : ¬ (some pPasswd).isNone = true := Bool.false_ne_true
        rw [if_neg hno, if_neg hno, botLog_replaceDb_talk (talks_changed pMsg)]
      | none =>
        have hyes : (none : Option CStr).isNone = true := rfl
        obtain ⟨w₂, hrun, -⟩ := (talks_emptyPassword pMsg).runs env w₁
        rw [if_pos hyes, if_pos hyes, botLog_bind_of_run hrun,
          botLog_replaceDb_talk (talks_changed pMsg), quietLog_bind_of_run hrun]

/-- The number of messages tells whether the password was empty. -/
theorem length_passwordAnswer :
    (quietLog env count (passwordAnswer pMsg) w).length =
      (if pMsg.parameters = none then
        (quietLog env count (answer pMsg "You've set a empty password." []) w).length else 0) +
      (quietLog env count (answer pMsg "Password is changed." []) w).length := by
  rw [passwordAnswer]
  cases pMsg.parameters with
  | some pPasswd =>
    have hno : ¬ (some pPasswd).isNone = true := Bool.false_ne_true
    rw [if_neg hno, if_neg (Option.some_ne_none _), Nat.zero_add]
  | none =>
    have hyes : (none : Option CStr).isNone = true := rfl
    obtain ⟨w₁, hrun, -⟩ := (talks_emptyPassword pMsg).runs env w
    rw [if_pos hyes, if_pos rfl, quietLog_bind_of_run hrun, List.length_append,
      (talks_changed pMsg).length_log w₁ w]

theorem passwordAnswer_iff (h : SameCaller pMsg pMsg') :
    (quietLog env count (passwordAnswer pMsg) w).map LogLine.message =
      (quietLog env count (passwordAnswer pMsg') w).map LogLine.message ↔
    (pMsg.parameters = none ↔ pMsg'.parameters = none) := by
  constructor
  · intro hlog
    have hlength := congrArg List.length hlog
    rw [List.length_map, List.length_map, length_passwordAnswer, length_passwordAnswer,
      h.answer_eq] at hlength
    obtain ⟨line, rest, hshown, -⟩ := emptyPassword_shown env count w pMsg'
    rw [hshown] at hlength
    by_cases hnone : pMsg.parameters = none <;> by_cases hnone' : pMsg'.parameters = none
    · exact iff_of_true hnone hnone'
    · rw [if_pos hnone, if_neg hnone', List.length_cons] at hlength
      omega
    · rw [if_neg hnone, if_pos hnone', List.length_cons] at hlength
      omega
    · exact iff_of_false hnone hnone'
  · intro hiff
    have hisNone : pMsg.parameters.isNone = pMsg'.parameters.isNone := by
      rw [Bool.eq_iff_iff, Option.isNone_iff_eq_none, Option.isNone_iff_eq_none]
      exact hiff
    rw [passwordAnswer, passwordAnswer, hisNone, h.answer_eq]

end Pass

section PassLog

variable {pLine pLine' : CStr}

theorem accessRight_pass {level : UserLevel} :
    accessRight level .pass = true ↔ .loggedLevel ≤ level := by
  cases level <;> decide

theorem accessRight_ident (level : UserLevel) : accessRight level .ident = true := by
  cases level <;> decide

theorem SameFront.callerLogin_eq (h : SameFront pLine pLine') (dbs : Databases G) :
    callerLogin dbs pLine = callerLogin dbs pLine' := by
  rw [callerLogin, callerLogin, h.netmask]

/-- The handler of `!pass` logs the same for two lines unless it tells of an empty password. -/
theorem handlerLog_pass_iff (h : SameFront pLine pLine') (hdb : w'.db = w.db) :
    (handlerLog env count .pass w.db pLine w').map LogLine.message =
      (handlerLog env count .pass w.db pLine' w').map LogLine.message ↔
    (PasswordCommand.pass.Looks (callerLogin w.db pLine) →
      (handlerParameters pLine = none ↔ handlerParameters pLine' = none)) := by
  have hlogin' := h.callerLogin_eq w.db
  have hcaller : SameCaller (PasswordCommand.pass.item w.db pLine)
      (PasswordCommand.pass.item w.db pLine') := h.sameCaller _ _ _
  have hparameters (pLine : CStr) : (PasswordCommand.pass.item w.db pLine).parameters =
      handlerParameters pLine := parameters_fillItem
  cases hlogin : callerLogin w.db pLine with
  | none =>
    -- the command is denied, with the same words
    have denied {pLine : CStr} (hnone : callerLogin w.db pLine = none) :
        ¬ accessRight (callerLevel w.db pLine) PasswordCommand.pass.id = true := by
      rw [callerLevel_none hnone]
      decide
    rw [handlerLog, handlerLog, if_neg (denied hlogin), if_neg (denied (hlogin'.symm.trans hlogin)),
      hcaller.nick]
    refine iff_of_true rfl ?_
    rintro ⟨hne, -⟩
    exact absurd rfl hne
  | some pLogin =>
    have allowed {pLine : CStr} (hsome : callerLogin w.db pLine = some pLogin) :
        accessRight (callerLevel w.db pLine) PasswordCommand.pass.id = true :=
      accessRight_pass.mpr (callerLevel_logged (hsome ▸ Option.some_ne_none _))
    have haccount : w'.db.getDb .nickToUser (PasswordCommand.pass.item w.db pLine).pNetmask =
        some pLogin := by
      rw [hdb]
      exact hlogin
    rw [handlerLog, handlerLog, if_pos (allowed hlogin),
      if_pos (allowed (hlogin'.symm.trans hlogin))]
    show (botLog env count (password _) w').map _ = (botLog env count (password _) w').map _ ↔ _
    rw [botLog_password, botLog_password, ← hcaller.netmask, haccount]
    dsimp only
    rw [List.map_cons, List.map_cons, List.cons.injEq, eq_self, true_and]
    by_cases hempty : pLogin = []
    · rw [if_pos hempty, if_pos hempty]
      refine iff_of_true rfl ?_
      rintro ⟨-, hne⟩
      exact absurd (congrArg some hempty) hne
    · rw [if_neg hempty, if_neg hempty, passwordAnswer_iff hcaller, hparameters, hparameters]
      exact ⟨fun hiff _ => hiff, fun hiff =>
        hiff ⟨Option.some_ne_none _, fun he => hempty (Option.some.inj he)⟩⟩

end PassLog

/-! ### The handler of `!ident` -/

section Ident

attribute [local irreducible] Prog.Calls

variable {pMsg pMsg' : MsgItem} {pParameter pParameter' : CStr}

theorem SameCaller.identChannels_eq (h : SameCaller pMsg pMsg') :
    identChannels pMsg = identChannels pMsg' := by
  have hchannel : identChannel pMsg = identChannel pMsg' := by
    funext isMaster pLogin pChannel
    rw [identChannel, identChannel, h.nick]
  funext pLogin
  rw [identChannels, identChannels, hchannel]

/-- The end of `ident` for a sender who is not known yet. -/
def identLook (pMsg : MsgItem) (pParameter : CStr) : Bot Unit := do
  let pLogin := strtokBuf ' ' pParameter
  logger .debug "Look for the account %s" [.str pLogin]
  if ← checkDb .user (some pLogin) (some ((passwordIn pParameter).getD [])) then
    logger .debug "User %s found" [.str pLogin]
    logOn pMsg.pNetmask pLogin
    answer pMsg "You're now identified." []
    identChannels pMsg pLogin
  else answer pMsg "Invalid password" []

/-- All that `ident` does for such a sender when there are parameters. -/
def identParameter (pMsg : MsgItem) (pParameter : CStr) : Bot Unit := do
  if (passwordIn pParameter).isNone then answer pMsg "You've set a empty password." []
  identLook pMsg pParameter

/-- `ident` in its three cases. -/
theorem botLog_ident : botLog env count (ident pMsg) w =
    ⟨.debug, "try to identify %s", [.str pMsg.pCallingNick]⟩ ::
      if (w.db.getDb .nickToUser pMsg.pNetmask).isSome then
        quietLog env count (answer pMsg "You're already identified." [])
          (w.logging ⟨.debug, "try to identify %s", [.str pMsg.pCallingNick]⟩)
      else
        match pMsg.parameters with
        | none => quietLog env count (answerNoParameters pMsg)
            (w.logging ⟨.debug, "try to identify %s", [.str pMsg.pCallingNick]⟩)
        | some pParameter => botLog env count (identParameter pMsg pParameter)
            (w.logging ⟨.debug, "try to identify %s", [.str pMsg.pCallingNick]⟩) := by
  simp only [ident, Prog.liftM_eq]
  rw [botLog_logger, botLog_existDb, Databases.existDb_eq, World.logging_db]
  refine congrArg _ ?_
  split
  · exact botLog_lift _
  · cases pMsg.parameters with
    | none => exact botLog_lift _
    | some pParameter => rfl

/-- The message that names the login. -/
def lookLine (pParameter : CStr) : LogLine :=
  ⟨.debug, "Look for the account %s", [.str (strtokBuf ' ' pParameter)]⟩

/-- The first message behind the question is about the empty password, or the login. -/
theorem identParameter_shown (env : Env) (count : SendCount) (w : World G) (pMsg : MsgItem)
    (pParameter : CStr) : ∃ line rest,
    botLog env count (identParameter pMsg pParameter) w = line :: rest ∧
      ((passwordIn pParameter = none → line.OfSending) ∧
        (passwordIn pParameter ≠ none → line = lookLine pParameter)) := by
  simp only [identParameter, Prog.liftM_eq]
  cases hpassword : passwordIn pParameter with
  | none =>
    obtain ⟨w₁, hrun, -⟩ := (talks_emptyPassword pMsg).runs env w
    obtain ⟨line, rest, hshown, hsending⟩ := emptyPassword_shown env count w pMsg
    have hyes : (none : Option CStr).isNone = true := rfl
    rw [if_pos hyes, botLog_bind_of_run hrun, hshown]
    exact ⟨line, _, List.cons_append, fun _ => hsending, fun hne => absurd rfl hne⟩
  | some pPasswd =>
    have hno : ¬ (some pPasswd).isNone = true := Bool.false_ne_true
    simp only [identLook, Prog.liftM_eq]
    rw [if_neg hno, botLog_logger]
    exact ⟨_, _, rfl, nofun, fun _ => rfl⟩

theorem LogLine.OfSending.message_ne {line : LogLine} (h : line.OfSending) :
    line.message ≠ (lookLine pParameter).message := by
  intro he
  obtain ⟨hpriority, htext⟩ := Prod.mk.inj he
  rcases h with hne | ⟨text, hsend⟩
  · exact hne hpriority
  · have hformat : (lookLine pParameter).format = 'L' :: "ook for the account %s".toList := by
      show "Look for the account %s".toList = _
      decide +kernel
    rw [hsend, hformat, vsprintf_cons (by decide)] at htext
    obtain ⟨rest, -, hletter⟩ := Option.map_eq_some_iff.mp htext.symm
    exact absurd (List.cons.inj hletter).1 (by decide)

/-- With the same login, and an answer of the database that is the same, the log is the same. -/
theorem identLook_congr (h : SameCaller pMsg pMsg')
    (hlogin : strtokBuf ' ' pParameter = strtokBuf ' ' pParameter')
    (haccepts : w.db.checkDb .user (some (strtokBuf ' ' pParameter))
        (some ((passwordIn pParameter).getD [])) =
      w.db.checkDb .user (some (strtokBuf ' ' pParameter'))
        (some ((passwordIn pParameter').getD []))) :
    botLog env count (identLook pMsg pParameter) w =
      botLog env count (identLook pMsg' pParameter') w := by
  simp only [identLook, Prog.liftM_eq]
  rw [botLog_logger, botLog_logger, botLog_checkDb, botLog_checkDb, World.logging_db,
    World.logging_db, haccepts, hlogin, h.answer_eq, h.identChannels_eq, h.netmask]

theorem identParameter_congr (h : SameCaller pMsg pMsg')
    (hlogin : strtokBuf ' ' pParameter = strtokBuf ' ' pParameter')
    (hempty : passwordIn pParameter = none ↔ passwordIn pParameter' = none)
    (haccepts : w.db.checkDb .user (some (strtokBuf ' ' pParameter))
        (some ((passwordIn pParameter).getD [])) =
      w.db.checkDb .user (some (strtokBuf ' ' pParameter'))
        (some ((passwordIn pParameter').getD []))) :
    botLog env count (identParameter pMsg pParameter) w =
      botLog env count (identParameter pMsg' pParameter') w := by
  have hisNone : (passwordIn pParameter).isNone = (passwordIn pParameter').isNone := by
    rw [Bool.eq_iff_iff, Option.isNone_iff_eq_none, Option.isNone_iff_eq_none]
    exact hempty
  simp only [identParameter, Prog.liftM_eq]
  rw [hisNone, h.answer_eq]
  split
  · obtain ⟨w₁, hrun, hdb⟩ := (talks_emptyPassword pMsg').runs env w
    rw [botLog_bind_of_run hrun, botLog_bind_of_run hrun,
      identLook_congr h hlogin (by rw [hdb]; exact haccepts)]
  · exact identLook_congr h hlogin haccepts

/-- So the log tells whether there was a password, and nothing else about it. -/
theorem identParameter_iff (h : SameCaller pMsg pMsg')
    (hlogin : strtokBuf ' ' pParameter = strtokBuf ' ' pParameter')
    (haccepts : w.db.checkDb .user (some (strtokBuf ' ' pParameter))
        (some ((passwordIn pParameter).getD [])) =
      w.db.checkDb .user (some (strtokBuf ' ' pParameter'))
        (some ((passwordIn pParameter').getD []))) :
    (botLog env count (identParameter pMsg pParameter) w).map LogLine.message =
      (botLog env count (identParameter pMsg' pParameter') w).map LogLine.message ↔
    (passwordIn pParameter = none ↔ passwordIn pParameter' = none) := by
  constructor
  · intro hlog
    obtain ⟨line, rest, hshown, hempty, hlook⟩ :=
      identParameter_shown env count w pMsg pParameter
    obtain ⟨line', rest', hshown', hempty', hlook'⟩ :=
      identParameter_shown env count w pMsg' pParameter'
    rw [hshown, hshown', List.map_cons, List.map_cons] at hlog
    have hmessage := (List.cons.inj hlog).1
    by_cases hnone : passwordIn pParameter = none <;>
      by_cases hnone' : passwordIn pParameter' = none
    · exact iff_of_true hnone hnone'
    · rw [hlook' hnone'] at hmessage
      exact absurd hmessage (hempty hnone).message_ne
    · rw [hlook hnone] at hmessage
      exact absurd hmessage.symm (hempty' hnone').message_ne
    · exact iff_of_false hnone hnone'
  · intro hempty
    rw [identParameter_congr h hlogin hempty haccepts]

/-- What `identAccepts` asks for, with the parameters spelled out. -/
theorem identAccepts_eq {dbs : Databases G} {pLine : CStr}
    (h : handlerParameters pLine = some pParameter) : identAccepts dbs pLine =
      dbs.checkDb .user (some (strtokBuf ' ' pParameter))
        (some ((passwordIn pParameter).getD [])) := by
  rw [identAccepts, loginAsked, PasswordCommand.password, h]
  rfl

/-- The handler of `!ident` logs the same for two lines with one login and one outcome unless it
tells of an empty password. -/
theorem handlerLog_ident_iff {pLine pLine' : CStr} (h : SameFront pLine pLine')
    (hlogin : loginAsked pLine = loginAsked pLine')
    (houtcome : callerLogin w.db pLine = none →
      identAccepts w.db pLine = identAccepts w.db pLine') (hdb : w'.db = w.db) :
    (handlerLog env count .ident w.db pLine w').map LogLine.message =
      (handlerLog env count .ident w.db pLine' w').map LogLine.message ↔
    (PasswordCommand.ident.Looks (callerLogin w.db pLine) →
      (PasswordCommand.ident.password pLine = none ↔
        PasswordCommand.ident.password pLine' = none)) := by
  have hcaller : SameCaller (PasswordCommand.ident.item w.db pLine)
      (PasswordCommand.ident.item w.db pLine') := h.sameCaller _ _ _
  have hparameters (pLine : CStr) : (PasswordCommand.ident.item w.db pLine).parameters =
      handlerParameters pLine := parameters_fillItem
  have haccount : w'.db.getDb .nickToUser (PasswordCommand.ident.item w.db pLine).pNetmask =
      callerLogin w.db pLine := by
    rw [hdb]
    rfl
  have allowed (pLine : CStr) :
      accessRight (callerLevel w.db pLine) PasswordCommand.ident.id = true := accessRight_ident _
  rw [handlerLog, handlerLog, if_pos (allowed _), if_pos (allowed _)]
  show (botLog env count (ident _) w').map _ = (botLog env count (ident _) w').map _ ↔ _
  rw [botLog_ident, botLog_ident, ← hcaller.netmask, ← hcaller.nick, haccount, List.map_cons,
    List.map_cons, List.cons.injEq, eq_self, true_and, hparameters, hparameters, hcaller.answer_eq]
  cases hknown : callerLogin w.db pLine with
  | some pLogin =>
    have hyes : (some pLogin).isSome = true := rfl
    rw [if_pos hyes, if_pos hyes]
    exact iff_of_true rfl nofun
  | none =>
    have hno : ¬ (none : Option CStr).isSome = true := Bool.false_ne_true
    rw [if_neg hno, if_neg hno, PasswordCommand.password, PasswordCommand.password]
    unfold loginAsked at hlogin
    cases hp : handlerParameters pLine with
    | none =>
      rw [hp, Option.map_none] at hlogin
      rw [Option.map_eq_none_iff.mp hlogin.symm]
      refine iff_of_true ?_ fun _ => Iff.rfl
      rw [answerNoParameters, answerNoParameters, hcaller.answer_eq]
    | some p =>
      rw [hp, Option.map_some] at hlogin
      obtain ⟨p', hp', hlogin⟩ := Option.map_eq_some_iff.mp hlogin.symm
      have haccepts := houtcome hknown
      rw [identAccepts_eq hp, identAccepts_eq hp'] at haccepts
      rw [hp', Option.bind_some, Option.bind_some]
      refine (identParameter_iff hcaller hlogin.symm ?_).trans
        ⟨fun hiff _ => hiff, fun hiff => hiff rfl⟩
      rw [World.logging_db, hdb]
      exact haccepts

end Ident

/-! ## The lines that users send -/

section Messages

variable {head word login arg : CStr}

theorem splitArgument_commandLine (h : IsHead head) (hword : ' ' ∉ word) (arg : CStr) :
    splitArgument (commandLine head word arg) = some (head, word, arg) := by
  have hmark : cutString " :!".toList (commandLine head word arg) =
      some (head, word ++ ' ' :: arg) := cutMark_lineOf h _
  rw [splitArgument, hmark, Option.bind_some, cutFirst_append arg hword]
  rfl

/-- A message with a bot command is identified by the name of the command. -/
theorem identity_commandLine {sender target : CStr} {c : Cmd} (hc : c ∈ Cmd.commands)
    (hsender : ' ' ∉ sender ∧ ':' ∉ sender) (htarget : ':' ∉ target) (arg : CStr) :
    identity (commandLine (messageHead sender target) (pCmdString c) arg) = c := by
  have hprefix : pCmdString c <+: pCmdString c ++ ' ' :: arg := List.prefix_append ..
  rw [commandLine, identity_message _ hsender.1 hsender.2 htarget, List.cons_append,
    textCommand_bang (isHead_messageHead hsender.1 htarget), find_command_iff.mpr ⟨hc, hprefix⟩]
  rfl

/-- Two messages with `!pass`, for any two passwords. -/
theorem passwordApart_pass (dbs : Databases G) (sender target pPasswd pPasswd' : CStr)
    (hsender : ' ' ∉ sender ∧ ':' ∉ sender) (htarget : ':' ∉ target) :
    PasswordApart .pass dbs (commandLine (messageHead sender target) "pass" pPasswd)
      (commandLine (messageHead sender target) "pass" pPasswd') := by
  have hhead := isHead_messageHead hsender.1 htarget
  have hpass : Cmd.pass ∈ Cmd.commands := by decide
  exact ⟨⟨_, _, _, _, splitArgument_commandLine hhead (by decide) _,
    splitArgument_commandLine hhead (by decide) _⟩, identity_commandLine hpass hsender htarget _,
    identity_commandLine hpass hsender htarget _, nofun, nofun⟩

/-- The login of a message with `!ident` is its first word, whatever stands behind. -/
theorem loginAsked_message (h : IsHead head) (hword : ' ' ∉ word) (hlogin : IsWord login)
    (hhash : login.head? ≠ some '#') (pPasswd : CStr) :
    loginAsked (commandLine head word (login ++ ' ' :: pPasswd)) = some login := by
  obtain ⟨a, hargument, hfirst, hhead⟩ : ∃ a, trim (login ++ ' ' :: pPasswd) = a ∧
      a.takeWhile (· ≠ ' ') = login ∧ a.head? = login.head? := by
    have hblank : ' ' ∉ login := fun hmem => (hlogin.2 _ hmem).1 rfl
    rcases trim_word_blank hlogin pPasswd with ha | ⟨t, ha⟩
    · exact ⟨_, ha, takeWhile_ne_self hblank, rfl⟩
    · exact ⟨_, ha, takeWhile_ne_word hblank t, List.head?_append_of_ne_nil _ hlogin.1⟩
  have htrim : IsTrimmed a := hargument ▸ isTrimmed_trim _
  have hne : a ≠ [] := by
    rintro rfl
    exact hlogin.1 hfirst.symm
  have hsame : getArgument (commandLine head word (login ++ ' ' :: pPasswd)) =
      getArgument (commandLine head word a) := by
    rw [getArgument_trim h hword, hargument, if_neg hne, getArgument_commandLine h hword hne htrim]
  obtain ⟨hseen, hseenTrim, hseenHead⟩ := argumentSeen_spec head hne htrim
  have hseenHash : (argumentSeen head a).head? ≠ some '#' := by
    rw [hseenHead, hhead]
    exact hhash
  have hseenBlank : (argumentSeen head a).head? ≠ some ' ' := by
    rw [hseenHead, hhead]
    exact fun hblank => (hlogin.2 _ (List.mem_of_mem_head? hblank)).1 rfl
  have hseenFirst : (argumentSeen head a).takeWhile (· ≠ ' ') = login := by
    rw [argumentSeen]
    split
    · exact hfirst
    · rw [takeWhile_argumentLeft, hfirst]
  rw [loginAsked, handlerParameters, getAccessChannel_congr hsame,
    getAccessChannel_commandLine h hword hne htrim,
    getParameters_commandLine h hword hseen hseenTrim, parameterOf, if_neg hseenHash,
    Option.map_some, strtokBuf_eq_takeWhile hseenBlank, hseenFirst]

/-- Two messages with `!ident` and the same login, for any two passwords that are both right, or
both wrong. -/
theorem passwordApart_ident (dbs : Databases G) (sender target login pPasswd pPasswd' : CStr)
    (hsender : ' ' ∉ sender ∧ ':' ∉ sender) (htarget : ':' ∉ target) (hlogin : IsWord login)
    (hhash : login.head? ≠ some '#')
    (houtcome : identAccepts dbs
        (commandLine (messageHead sender target) "ident" (login ++ ' ' :: pPasswd)) =
      identAccepts dbs
        (commandLine (messageHead sender target) "ident" (login ++ ' ' :: pPasswd'))) :
    PasswordApart .ident dbs
      (commandLine (messageHead sender target) "ident" (login ++ ' ' :: pPasswd))
      (commandLine (messageHead sender target) "ident" (login ++ ' ' :: pPasswd')) := by
  have hhead := isHead_messageHead hsender.1 htarget
  have hident : Cmd.ident ∈ Cmd.commands := by decide
  have hword : ' ' ∉ "ident".toList := by decide
  refine ⟨⟨_, _, _, _, splitArgument_commandLine hhead hword _,
    splitArgument_commandLine hhead hword _⟩, identity_commandLine hident hsender htarget _,
    identity_commandLine hident hsender htarget _, fun _ => ?_, fun _ _ => houtcome⟩
  rw [loginAsked_message hhead hword hlogin hhash, loginAsked_message hhead hword hlogin hhash]

end Messages

/-! ### Both commands -/

section Both

variable {c : PasswordCommand} {pLine pLine' : CStr}

theorem handlerLog_iff (h : PasswordApart c w.db pLine pLine') (hdb : w'.db = w.db) :
    (handlerLog env count c w.db pLine w').map LogLine.message =
      (handlerLog env count c w.db pLine' w').map LogLine.message ↔
    (c.Looks (callerLogin w.db pLine) → (c.password pLine = none ↔ c.password pLine' = none)) := by
  cases c with
  | pass => exact handlerLog_pass_iff h.sameFront hdb
  | ident => exact handlerLog_ident_iff h.sameFront (h.login rfl) (h.outcome rfl) hdb

theorem receiveLog_message_iff : (receiveLog pLine).message = (receiveLog pLine').message ↔
    receiveText pLine = receiveText pLine' := by
  have hmessage (pLine : CStr) : (receiveLog pLine).message =
      (.debug, some ("Receive: \"".toList ++ receiveText pLine ++ ['"'])) := by
    simp [receiveLog, LogLine.message, vsprintf]
  rw [hmessage, hmessage]
  refine ⟨fun h => ?_, fun h => by rw [h]⟩
  have htext := Option.some.inj (Prod.mk.inj h).2
  exact List.append_cancel_left (List.append_cancel_right htext)

/-- A level is printed as one digit, and no two as the same. -/
theorem sprintLong_level (level : UserLevel) :
    ∃ d : Char, sprintLong (level.ctorIdx : ℕ) = [d] ∧
      ∀ level' : UserLevel, sprintLong (level'.ctorIdx : ℕ) = [d] → level = level' := by
  cases level <;> refine ⟨_, rfl, fun level' h => ?_⟩ <;> cases level' <;>
    first | rfl | exact absurd h (by decide)

/-- The level can be read off the message of `AccessRight`. -/
theorem accessLine_message_iff {level level' : UserLevel} :
    (accessLine level ⟨c.id, pLine⟩).message = (accessLine level' ⟨c.id, pLine'⟩).message ↔
      level = level' := by
  have hmessage (level : UserLevel) (pLine : CStr) : ∃ rest,
      (accessLine level ⟨c.id, pLine⟩).message =
        (.debug, some ("Access status for the userlevel ".toList ++
          (sprintLong (level.ctorIdx : ℕ) ++ rest))) := by
    refine ⟨" and the command id ".toList ++ sprintLong c.id.ctorIdx ++ " is ".toList ++
      sprintLong (accessRight level c.id).toNat, ?_⟩
    simp [accessLine, LogLine.message, vsprintf]
  obtain ⟨rest, hline⟩ := hmessage level pLine
  obtain ⟨rest', hline'⟩ := hmessage level' pLine'
  constructor
  · intro h
    rw [hline, hline'] at h
    have htext := List.append_cancel_left (Option.some.inj (Prod.mk.inj h).2)
    obtain ⟨d, hd, hinj⟩ := sprintLong_level level
    obtain ⟨d', hd', -⟩ := sprintLong_level level'
    rw [hd, hd'] at htext
    exact hinj level' (hd'.trans (congrArg (· :: []) (List.cons.inj htext).1.symm))
  · rintro rfl
    rfl

/-- When a password does not reach the log: two lines that differ in a password alone leave the
same messages, from the receive loop to the end of the handler, exactly if nothing of what is
logged tells them apart. -/
theorem log_hides_password_iff (env : Env) (count : SendCount) (w : World G) (c : PasswordCommand)
    (pLine pLine' : CStr) (h : PasswordApart c w.db pLine pLine') :
    lineLog env count w pLine = lineLog env count w pLine' ↔
      HidesPassword c w.db pLine pLine' := by
  rw [lineLog_eq h.command, lineLog_eq h.command', List.cons.injEq, List.cons.injEq,
    List.cons.injEq, eq_self, true_and, receiveLog_message_iff, accessLine_message_iff]
  unfold HidesPassword
  rw [← receiveText_eq_iff]
  refine and_congr_right fun hreceive => ?_
  have hknown := h.sameFront.callerLogin_eq w.db
  -- who is not known has no level
  have hlevel : callerLevel w.db pLine = callerLevel w.db pLine' ↔
      (callerLogin w.db pLine ≠ none → callerLevel w.db pLine = callerLevel w.db pLine') := by
    refine ⟨fun h _ => h, fun h => ?_⟩
    by_cases hnone : callerLogin w.db pLine = none
    · rw [callerLevel_none hnone, callerLevel_none (hknown.symm.trans hnone)]
    · exact h hnone
  rw [← hlevel]
  refine and_congr_right fun hsame => ?_
  have hworld : handlerWorld c w pLine' = handlerWorld c w pLine := by
    rw [handlerWorld, handlerWorld, receiveLog, receiveLog, hreceive, hsame]
    rfl
  rw [hworld]
  exact handlerLog_iff h rfl

/-- The passwords of two lines for `!ident` are hidden. -/
theorem hidden_in_ident :
    lineLog calmEnv ⟨fun _ => 0, 0⟩ freshBot
        (commandLine (messageHead "joe!u@h" "ebotula") "ident"
          ("joe".toList ++ ' ' :: "secret".toList)) =
      lineLog calmEnv ⟨fun _ => 0, 0⟩ freshBot
        (commandLine (messageHead "joe!u@h" "ebotula") "ident"
          ("joe".toList ++ ' ' :: "hidden".toList)) := by
  have hapart := passwordApart_ident freshBot.db "joe!u@h" "ebotula" "joe" "secret" "hidden"
    (by decide +kernel) (by decide +kernel) ⟨by decide, forall_of_all (by decide +kernel)⟩
    (by decide +kernel) (by decide +kernel)
  exact (log_hides_password_iff calmEnv ⟨fun _ => 0, 0⟩ freshBot .ident _ _ hapart).mpr
    (by decide +kernel)

/-- Those of two lines for `!pass` are not. -/
theorem shown_in_pass : ¬ ∀ (env : Env) (count : SendCount) (w : World Gdbm) (c : PasswordCommand)
    (pLine pLine' pPasswd pPasswd' : CStr), PasswordApart c w.db pLine pLine' →
      c.password pLine = some pPasswd → pPasswd ≠ [] →
        c.password pLine' = some pPasswd' → pPasswd' ≠ [] →
          lineLog env count w pLine = lineLog env count w pLine' := by
  intro hall
  have hapart := passwordApart_pass freshBot.db "joe!u@h" "ebotula" "secret" "hidden"
    (by decide +kernel) (by decide +kernel)
  have hlog := hall calmEnv ⟨fun _ => 0, 0⟩ freshBot .pass _ _ "secret" "hidden" hapart
    (by decide +kernel) (by decide) (by decide +kernel) (by decide)
  rw [lineLog_eq hapart.command, lineLog_eq hapart.command'] at hlog
  have hreceive := receiveLog_message_iff.mp (List.cons.inj hlog).1
  exact absurd hreceive (by decide +kernel)

end Both

end Ebotula
