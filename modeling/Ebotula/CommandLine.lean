import Ebotula.ConfigParser
import Ebotula.System

/-!
# The command line

`CommandLineParser` of `parameter.c`, and what `AppMain` does with its answer. Most options are
alike: they take the next argument, test it, complain or store it. Such an option is a
`ValueOption`; the switch maps a letter to one of these, to `-m`, or to one of the two options
that were looked at before.

The function is declared to return a `boolean`, an enumeration, and its caller asks whether the
answer is zero. `CmdLineEnd.value` is the number that is returned, with `errno` as the number it
is, and `CmdLineEnd.errnoLeft` what the caller finds in `errno`.
-/

set_option autoImplicit false

namespace Ebotula

open Library

/-! ## Options -/

/-- `MIN_LOGOFF`, `MIN_ALT`, `MIN_PINGTIME` and `MAX_THREADS_LIMIT`. -/
def minLogoff : Int := 1
def minAlt : Int := 1
def minPingtime : Int := 60
def maxThreadsLimit : Int := 25

/-- An option with a value: the field it is stored in, the test of the value, and the complaint
about one that does not pass. -/
structure ValueOption where
  counter : Values
  check : CStr → Option Errno
  complaint : CStr → LogLine

/-- An option that takes any text. -/
def freeOption (counter : Values) : ValueOption := ⟨counter, fun _ => none, fun _ => ⟨.err, [], []⟩⟩

/-- An option that takes a text of a kind. -/
def textOption (counter : Values) (irregular : CStr → Bool) (text : CStr) : ValueOption :=
  ⟨counter, fun value => if irregular value then some .einval else none, fun _ => ⟨.err, text, []⟩⟩

/-- An option that takes a number in a range. -/
def intOption (counter : Values) (outOfRange : Int → Bool) (text : CStr) : ValueOption :=
  ⟨counter, fun value => if outOfRange (atoi value).toInt then some .edom else none,
    fun _ => ⟨.err, text, []⟩⟩

/-- What the switch of `CommandLineParser` knows. -/
inductive CmdOption
  | value (option : ValueOption)
  /-- `m` -/
  | newMaster
  /-- `V` and `f`, whose value has been read already -/
  | parsed

/-- The labels of the switch; the others are the default. -/
def cmdOption : Char → Option CmdOption
  | 's' => some (.value (textOption .server (strpbrk · serverNotAllowChar)
      "The hostname is irregular.\n"))
  | 'b' => some (.value (textOption .botname (!nickStringCheck ·) "The botname is irregular.\n"))
  | 'u' => some (.value (freeOption .exeuser))
  | 'g' => some (.value (freeOption .exegroup))
  | 'r' => some (.value (freeOption .realname))
  | 'p' => some (.value { intOption .port (fun n => n < 1 || n > 65535) [] with
      complaint := fun value =>
        ⟨.err, "The portnumber %i value is out of range.\n", [.int (atoi value).toInt]⟩ })
  | 't' => some (.value (intOption .threadlimit (fun tmp => tmp < 1 || tmp > maxThreadsLimit)
      "The thread limit is out of range.\n"))
  | 'a' => some (.value (intOption .autologoff (fun tmp => tmp < minLogoff)
      "The automatic logoff time is invalid.\n"))
  | 'n' => some (.value (intOption .fastsenddelay (fun tmp => tmp ≤ 0)
      "The send delay time is invalid.\n"))
  | 'e' => some (.value (intOption .slowsenddelay (fun tmp => tmp ≤ 0)
      "The send delay time is invalid.\n"))
  | 'l' => some (.value (intOption .fastsendlimit (fun tmp => tmp < 0)
      "The limit for sending with the fast send delay is invalid.\n"))
  | 'i' => some (.value (intOption .initdelay (fun tmp => tmp < 0)
      "The delay of the startup initialization is invalid.\n"))
  | 'k' => some (.value (intOption .alt (fun tmp => tmp < minAlt)
      "The account living time is invalid.\n"))
  | 'm' => some .newMaster
  | 'd' => some (.value (freeOption .databasepath))
  | 'c' => some (.value (intOption .pingtimeout (fun tmp => tmp < minPingtime)
      "The ping timeout is invalid.\n"))
  | 'V' | 'f' => some .parsed
  | _ => none

/-! ## The parser -/

/-- How `CommandLineParser` ends. -/
inductive CmdLineEnd
  /-- `return true` -/
  | complete
  /-- `return(errno)` -/
  | errno (err : Errno)
  /-- `return false`, with `EINVAL` for an option and `ENOSYS` for what is none -/
  | unknownOption
  | noOption
  deriving DecidableEq, Repr

/-- The numbers of the errors. -/
def Errno.number : Errno → Nat
  | edom => 33
  | einval => 22

/-- `ENOSYS`. -/
def enosys : Nat := 38

namespace CmdLineEnd

/-- The number that is returned. -/
def value : CmdLineEnd → Nat
  | complete => 1
  | errno err => err.number
  | unknownOption | noOption => 0

/-- What stands in `errno` afterwards; `none` if it was not written. -/
def errnoLeft : CmdLineEnd → Option Nat
  | complete => none
  | errno err => some err.number
  | unknownOption => some (Errno.number .einval)
  | noOption => some enosys

end CmdLineEnd

/-- What the parser writes: the settings, the flag of `-m`, and the log. -/
structure CmdLineState where
  sSetup : ConfigSetup
  newMaster : Bool
  log : List LogLine

namespace CmdLineState

def logging (st : CmdLineState) (line : LogLine) : CmdLineState :=
  { st with log := st.log ++ [line] }

/-- The assignment of `tmp`, or the `strcpy` of the text, to the field of the option. -/
def store (st : CmdLineState) (counter : Values) (value : CStr) : CmdLineState :=
  let field : counter.iParamType.Field :=
    match counter.iParamType with
    | .paramString => some value
    | .paramShort | .paramInt => atoi value
  { st with sSetup := Function.update st.sSetup counter field }

/-- The two lines about an argument that is not known. -/
def unknown (st : CmdLineState) (format arg : CStr) : CmdLineState :=
  (st.logging ⟨.err, format, [.str arg]⟩).logging
    ⟨.err, "Type %s -h for more help.\n", [.str (some "ebotula")]⟩

end CmdLineState

/-- The loop of `CommandLineParser` over the arguments from `argv[i]` on. -/
def commandLineLoop : List CStr → CmdLineState → CmdLineEnd × CmdLineState
  | [], st => (.complete, st)
  | ('-' :: letters) :: rest, st =>
    let arg := '-' :: letters
    let st := st.logging ⟨.debug, "Check option \"%s\"", [.str arg]⟩
    match cmdOption (strAt arg 1) with
    | some (.value option) =>
      match rest with
      | [] => (.errno .einval, st.logging ⟨.err, "\"%s\" need a parameter value.\n", [.str arg]⟩)
      | value :: rest =>
        match option.check value with
        | some err => (.errno err, st.logging (option.complaint value))
        | none => commandLineLoop rest (st.store option.counter value)
    | some .newMaster => commandLineLoop rest { st with newMaster := true }
    | some .parsed =>
      -- the index goes on by two, also where there is no second argument
      match rest with
      | [] => (.complete, st)
      | _ :: rest => commandLineLoop rest st
    | none => (.unknownOption, st.unknown "Unknown option \"%s\"\n" arg)
  | arg :: _, st => (.noOption, st.unknown "Invalid option \"%s\"\n" arg)

/-- `CommandLineParser`; the first argument is the name of the program. -/
def commandLineParser (argv : List CStr) (st : CmdLineState) : CmdLineEnd × CmdLineState :=
  commandLineLoop argv.tail (st.logging ⟨.notice, "Command line parameters found and read", []⟩)

/-! ## The start -/

/-- The check of the command line in `AppMain`: the value of `errno` it returns, or the state it
goes on with. -/
def checkArguments (argv : List CStr) (st : CmdLineState) : Except (Option Nat) CmdLineState :=
  if argv.length > 1 then
    let (answer, st) := commandLineParser argv st
    if answer.value = 0 then .error answer.errnoLeft else .ok st
  else .ok st

/-- The values `AppMain` sets first. -/
def defaultSetup (pDatabasePath : CStr) (nLogLevel : BitVec 32) : ConfigSetup
  | .botname => (some "Ebotula" : Option CStr)
  | .realname => (some "I'm a stupid bot" : Option CStr)
  | .exeuser => (some "nobody" : Option CStr)
  | .exegroup => (some "nobody" : Option CStr)
  | .threadlimit => 3#32
  | .server => (some "irc.fh-lausitz.de" : Option CStr)
  | .port => (some "6667" : Option CStr)
  | .databasepath => some pDatabasePath
  | .fastsenddelay => 1500#32
  | .slowsenddelay => 2000#32
  | .fastsendlimit => 500#32
  | .initdelay => 10#32
  | .alt => 90#32
  | .autologoff => 3#32
  | .pingtimeout => 90#32
  | .loglevel => nLogLevel
  -- the fields of a global that nobody has written
  | .nickservIdent => (none : Option CStr)
  | .enableNickservIdent => 0#32
  | .nickservIdentTimeout => 0#32

/-- Why `AppMain` does not come to its setup. -/
inductive SetupStop
  | configFile (stop : ConfigStop)
  | commandLine (errno : Option Nat)
  deriving DecidableEq, Repr

namespace ConfigSetup

/-- The fields that are read as numbers, and the two that `AppMain` writes. -/
def accountLiveTime (sSetup : ConfigSetup) : BitVec 32 := sSetup .alt
def autoLoggoff (sSetup : ConfigSetup) : BitVec 32 := sSetup .autologoff
def iSendDelay (sSetup : ConfigSetup) : BitVec 32 := sSetup .fastsenddelay
def nSlowSendDelay (sSetup : ConfigSetup) : BitVec 32 := sSetup .slowsenddelay
def iTimeout (sSetup : ConfigSetup) : BitVec 32 := sSetup .pingtimeout

def setAutoLoggoff (sSetup : ConfigSetup) (days : BitVec 32) : ConfigSetup :=
  Function.update sSetup .autologoff days

def setSlowSendDelay (sSetup : ConfigSetup) (delay : BitVec 32) : ConfigSetup :=
  Function.update sSetup .slowsenddelay delay

variable (sSetup : ConfigSetup) (n : BitVec 32)

@[simp] theorem autoLoggoff_setAutoLoggoff : (sSetup.setAutoLoggoff n).autoLoggoff = n := rfl

@[simp] theorem accountLiveTime_setAutoLoggoff :
    (sSetup.setAutoLoggoff n).accountLiveTime = sSetup.accountLiveTime := rfl

@[simp] theorem autoLoggoff_setSlowSendDelay :
    (sSetup.setSlowSendDelay n).autoLoggoff = sSetup.autoLoggoff := rfl

@[simp] theorem accountLiveTime_setSlowSendDelay :
    (sSetup.setSlowSendDelay n).accountLiveTime = sSetup.accountLiveTime := rfl

end ConfigSetup

/-- The automatic times, `unsigned int`, are brought in order. -/
def checkAutomaticTimes (sSetup : ConfigSetup) : ConfigSetup :=
  if sSetup.accountLiveTime < sSetup.autoLoggoff then
    sSetup.setAutoLoggoff sSetup.accountLiveTime
  else sSetup

/-- The delay timings, `int`, are brought in order. -/
def checkDelayTimings (sSetup : ConfigSetup) : ConfigSetup :=
  if sSetup.nSlowSendDelay.toInt < sSetup.iSendDelay.toInt then
    sSetup.setSlowSendDelay sSetup.iSendDelay
  else sSetup

/-- The part of `AppMain` that makes the setup, from the configuration file on. -/
def readSetup (file : Option CStr) (argv : List CStr) (start : ConfigSetup) :
    Except SetupStop ConfigSetup :=
  match configFileParser file ⟨start, fun _ => false, false⟩ with
  | .error stop => .error (.configFile stop)
  | .ok st =>
    match checkArguments argv ⟨st.sSetup, false, []⟩ with
    | .error errno => .error (.commandLine errno)
    | .ok st => .ok (checkDelayTimings (checkAutomaticTimes st.sSetup))

end Ebotula
