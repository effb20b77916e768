import Ebotula.Library.CString

/-!
# The bot's data types

The enumerations and records of `type.h`, `account.h` and `cmdtypes.h` that the
routines read and write. A `char *` that may be NULL is an `Option CStr`; a string
that is always there is a `CStr`. Enumerations are compared by position, as C
compares them.
-/

set_option autoImplicit false

namespace Ebotula

open Library

/-! ## Addresses -/

/-- The address of a node that `malloc` has delivered. -/
abbrev Addr := Nat

/-! ## Levels and answers -/

/-- `UserLevel_t`. -/
inductive UserLevel
  | noneLevel
  | loggedLevel
  | friendLevel
  | ownerLevel
  | masterLevel
  deriving DecidableEq, Repr

instance : LE UserLevel := ⟨fun a b => a.ctorIdx ≤ b.ctorIdx⟩
instance : LT UserLevel := ⟨fun a b => a.ctorIdx < b.ctorIdx⟩
instance (a b : UserLevel) : Decidable (a ≤ b) := inferInstanceAs (Decidable (_ ≤ _))
instance (a b : UserLevel) : Decidable (a < b) := inferInstanceAs (Decidable (_ < _))

/-- `AnswerMode_t`. -/
inductive AnswerMode
  | noticeMode
  | prvMsgMode
  deriving DecidableEq, Repr

/-! ## Command ids -/

/-- `Cmd_t`: the ids of events and commands, in the order of the access groups. -/
inductive Cmd
  | cmdNone
  -- events
  | onPing | onQuit | onNickChg | onMode | onKick | onJoin | onNames | onTopic | onWhois | onNoNick
  -- CTCP commands
  | ctcpPing | ctcpVersion | ctcpTime
  -- anybody
  | viewGreat | help | version | hello | ident
  -- logged users
  | logoff | pass
  -- friends
  | invite
  -- owners
  | chanMode | accountList | accountMode | say | kick | setTopic | setGreating | ban | deban
  -- masters
  | restart | allSay | rmUser | nick | die | channels | rmChannel | addChannel | join | part
  deriving DecidableEq, Repr

namespace Cmd

instance : LE Cmd := ⟨fun a b => a.ctorIdx ≤ b.ctorIdx⟩
instance (a b : Cmd) : Decidable (a ≤ b) := inferInstanceAs (Decidable (_ ≤ _))

/-- `CMD_EVENT`, the first id of all. -/
def event : Cmd := onPing
/-- `CMD_OTHERS` and `CMD_FIRST`, the first bot command. -/
def others : Cmd := viewGreat
/-- `CMD_LOGGED`. -/
def logged : Cmd := logoff
/-- `CMD_FRIEND`. -/
def friend : Cmd := invite
/-- `CMD_OWNER`. -/
def owner : Cmd := chanMode
/-- `CMD_MASTER`. -/
def master : Cmd := restart

/-- The bot commands, `CMD_FIRST` up to `CMD_COUNT`, in the order of their ids. -/
def commands : List Cmd :=
  [viewGreat, help, version, hello, ident, logoff, pass, invite, chanMode, accountList,
    accountMode, say, kick, setTopic, setGreating, ban, deban, restart, allSay, rmUser, nick,
    die, channels, rmChannel, addChannel, join, part]

end Cmd

/-! ## Channel records -/

/-- `MAX_MODES`, "the number of channel mode options". -/
def maxModes : Nat := 11

/-- `enum ChanModeEnum`: the slots of `pModeStr`. -/
inductive ChanModeEnum
  | modType | modKeyword | modLimit | modTopic | modMessage | modModerat | modPrivat | modSecret
  | modAnonym | modQuiet | modReop | modInvite
  deriving DecidableEq, Repr

/-- `ChannelMode_t`. -/
structure ChannelMode where
  pModeStr : CStr
  pKeyword : Option CStr
  pLimit : Option CStr
  deriving DecidableEq, Repr

/-- `ChannelData_t`. -/
structure ChannelData where
  sModes : ChannelMode
  pTopic : Option CStr
  pGreeting : Option CStr
  deriving DecidableEq, Repr

/-! ## Messages -/

/-- `MsgBuf_t`: an entry of the command queue. -/
structure MsgBuf where
  identify : Cmd
  pMsgLine : CStr
  deriving DecidableEq, Repr

end Ebotula
