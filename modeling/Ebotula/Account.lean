import Ebotula.Irc

/-!
# Accounts and sessions

The routines of `account.c`: who a netmask is logged in as and with which level, and
the three ways a session or an account ends. `mutexAccount` serializes the writes to
the session tables; in a sequential reading it does nothing.
-/

set_option autoImplicit false

namespace Ebotula

open Library

/-- `getUserLevel`. -/
def getUserLevel (pChannel pNetmask : Option CStr) : Quiet UserLevel := do
  match ← getDb .nickToUser pNetmask with
  | none => return .noneLevel
  | some pLogin =>
    match pChannel with
    | some pChannel =>
      match ← getDb .access (some (pLogin ++ pChannel)) with
      | some pLevel =>
        if 'o' ∈ pLevel then return .ownerLevel
        else if 'v' ∈ pLevel then return .friendLevel
        else return .loggedLevel
      | none =>
        match ← getDb .access (some pLogin) with
        | some _ => return .masterLevel
        | none => return .loggedLevel
    | none =>
      match ← getDb .access (some pLogin) with
      | some _ => return .masterLevel
      | none => return .loggedLevel

/-- The part of `log_on` that holds the mutex: binding the netmask to the login. -/
def bindSession (pNetmask : Option CStr) (pLogin : CStr) : Bot Unit := do
  if ← existDb .userToNick (some pLogin) then
    match ← getDb .userToNick (some pLogin) with
    | some pOldNetmask =>
      let _ ← delDb .nickToUser (some pOldNetmask)
      let _ ← addDb .nickToUser pNetmask (some pLogin)
      let _ ← replaceDb .userToNick (some pLogin) pNetmask
    | none => return
  else
    let _ ← addDb .nickToUser pNetmask (some pLogin)
    let _ ← addDb .userToNick (some pLogin) pNetmask

/-- The rest of `log_on`: the time of the last login. -/
def stampLogin (pLogin : CStr) : Bot Unit := do
  logger .info "Account %s logged in" [.str pLogin]
  let pTime := sprintLong (← time)
  if ← existDb .timelog (some pLogin) then
    let _ ← replaceDb .timelog (some pLogin) (some pTime)
    logger .debug "Update the timestamp %s for the account %s" [.str pTime, .str pLogin]
  else
    let _ ← addDb .timelog (some pLogin) (some pTime)
    logger .debug "Add the timepstamp %s for the account %s" [.str pTime, .str pLogin]

/-- `log_on`. -/
def logOn (pNetmask : Option CStr) (pLogin : CStr) : Bot Unit := do
  bindSession pNetmask pLogin
  stampLogin pLogin

/-- `__log_out`, and `log_out`, which calls it under the mutex. -/
def logOut (pLogin : CStr) : Bot Unit := do
  match ← getDb .userToNick (some pLogin) with
  | some pNetmask =>
    let _ ← delDb .nickToUser (some pNetmask)
    let _ ← delDb .userToNick (some pLogin)
    logger .info "Account %s logged off" [.str pLogin]
  | none => return

/-- `rmAccessRights`. -/
def rmAccessRights (pLogin : CStr) : Bot Unit := do
  logger .debug "Remove the access rights for the account %s" [.str pLogin]
  let _ ← delDb .access (some pLogin)
  let pChannelQueue ← listDb .channel
  Prog.forEach (fun pChannel => do
    let _ ← delDb .access (some (pLogin ++ pChannel))) pChannelQueue

/-- `rmAccount`. -/
def rmAccount (pLogin : CStr) : Bot Unit := do
  logger .info "Remove the account %s" [.str pLogin]
  logOut pLogin
  rmAccessRights pLogin
  let _ ← delDb .user (some pLogin)
  let _ ← delDb .timelog (some pLogin)

/-- One turn of the loop of `rmDeadLogins`. -/
def rmDeadLogin (lCheckTime : Int) (pLogin : CStr) : Bot Unit := do
  match ← getDb .timelog (some pLogin) with
  | some pTime =>
    if ← existDb .userToNick (some pLogin) then
      if lCheckTime > atol pTime then
        logOut pLogin
        logger .debug "The account %s was automatically logged off" [.str pLogin]
  | none => return

/-- `rmDeadLogins`. -/
def rmDeadLogins (lCheckTime : Int) : Bot Unit := do
  Prog.forEach (rmDeadLogin lCheckTime) (← listDb .user)

/-- One turn of the loop of `rmDeadAccounts`. -/
def rmDeadAccount (lCheckTime : Int) (pLogin : CStr) : Bot Unit := do
  match ← getDb .timelog (some pLogin) with
  | some pTime =>
    if lCheckTime > atol pTime then
      rmAccount pLogin
      logger .info "The account %s is removed" [.str pLogin]
  | none => return

/-- `rmDeadAccounts`. -/
def rmDeadAccounts (lCheckTime : Int) : Bot Unit := do
  Prog.forEach (rmDeadAccount lCheckTime) (← listDb .timelog)

/-- `checkUserLevel`. Without a target login `pMod` is read unwritten. -/
def checkUserLevel (pCmdLogin : CStr) (pLogin pChannel : Option CStr) : Quiet Bool := do
  let pMod ←
    match pLogin, pChannel with
    | some pLogin, some pChannel => do
      match ← getDb .access (some (pLogin ++ pChannel)) with
      | some pMod => pure (some pMod)
      | none => getDb .access (some pLogin)
    -- `strlen(NULL)`
    | some _, none => crash
    | none, _ => unwrittenPointer
  match pMod with
  | none => return true
  | some pMod =>
    if (← secondChar pMod) = 'm' then return false
    else if ← existDb .access (some pCmdLogin) then return true
    else if (← secondChar pMod) ≠ 'o' then return true
    else return false

end Ebotula
