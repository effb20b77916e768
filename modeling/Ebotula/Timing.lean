import Ebotula.Account
import Ebotula.CommandLine

/-!
# The timing thread

`TimingThread` of `timing.c`: a loop that every tenth of a second looks which of four things is
due again. Its four variables are carried from turn to turn. `newTime` is a `time_t`, a number of
64 bits that no time comes near the ends of, and an `Int` here; the two numbers of days are
`unsigned int`, and so is their product with the seconds of a day.
-/

set_option autoImplicit false

namespace Ebotula

open Library

/-- The variables of `TimingThread`, all 0 at first. -/
structure TimingState where
  lastPing : Int
  lastRemoveDeadLogins : Int
  lastRemoveDeadAccounts : Int
  lastNickServIdent : Int

/-- `newTime-days*86400`. -/
def dayLimit (newTime : Int) (days : BitVec 32) : Int := newTime - ((days * 86400#32).toNat : Int)

/-- The ping of the server for the detection of connection lost. -/
def pingServer (sSetup : ConfigSetup) (newTime : Int) (st : TimingState) : Bot TimingState := do
  if newTime - st.lastPing ≥ sSetup.iTimeout.toInt.tdiv 2 then
    ping (sSetup .server)
    return { st with lastPing := newTime }
  else return st

/-- The removal of the dead logins, once an hour. -/
def removeDeadLogins (sSetup : ConfigSetup) (newTime : Int) (st : TimingState) :
    Bot TimingState := do
  if newTime - st.lastRemoveDeadLogins ≥ 3600 then
    logger .info "Remove the dead logins" []
    rmDeadLogins (dayLimit newTime sSetup.autoLoggoff)
    return { st with lastRemoveDeadLogins := newTime }
  else return st

/-- The removal of the dead accounts, once an hour. -/
def removeDeadAccounts (sSetup : ConfigSetup) (newTime : Int) (st : TimingState) :
    Bot TimingState := do
  if newTime - st.lastRemoveDeadAccounts ≥ 3600 then
    logger .info "Remove the dead accounts" []
    rmDeadAccounts (dayLimit newTime sSetup.accountLiveTime)
    return { st with lastRemoveDeadAccounts := newTime }
  else return st

/-- The login to the ident server. -/
def identNickServ (sSetup : ConfigSetup) (newTime : Int) (st : TimingState) : Bot TimingState := do
  match (sSetup .nickservIdent : Option CStr) with
  | some sNickServIdent =>
    if BitVec.toInt (sSetup .enableNickservIdent : BitVec 32) ≠ 0 ∧
        newTime - st.lastNickServIdent ≥
          (BitVec.toInt (sSetup .nickservIdentTimeout : BitVec 32)).tdiv 2 then
      privmsg (some "nickserv") (some ("identify ".toList ++ sNickServIdent))
      return { st with lastNickServIdent := newTime }
    else return st
  | none => return st

/-- One turn of the loop of `TimingThread`. -/
def timingTurn (sSetup : ConfigSetup) (st : TimingState) : Bot TimingState := do
  let newTime ← time
  let st ← pingServer sSetup newTime st
  let st ← removeDeadLogins sSetup newTime st
  let st ← removeDeadAccounts sSetup newTime st
  identNickServ sSetup newTime st

end Ebotula
