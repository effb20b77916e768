import Ebotula.CallbackList
import Ebotula.DbAccess
import Ebotula.Library.Prog

/-!
# What the routines act on

Every routine of the bot is a program over named operations: the calls of the database
layer, a line for the server, a line for the log, the shared callback list, the two
global flags, the bot's nickname, and what it learns from the machine it runs on.
`perform` says what each operation does to the world.

The calls that write a database are a signature of their own. A routine that never
makes one is typed `Quiet`, and the type alone says that it leaves every database as
it is; the others are typed `Bot`, and a `Quiet` routine may stand wherever a `Bot`
one may.

Three operations stand for what C leaves open. `unwritten` answers whatever stands in
memory that is read before it is written, and `unwrittenPointer` whatever such a
pointer leads to, so a law proved of every environment holds for any such bytes.
`crash` is a step the language gives no meaning, such as following a NULL pointer: it
has no result, and the run ends there.
-/

set_option autoImplicit false

namespace Ebotula

open Library

/-! ## The world -/

/-- The priorities of `logger`. -/
inductive LogLevel
  | emerg | alert | crit | err | warning | notice | info | debug
  deriving DecidableEq, Repr

/-- One call of `logger`. -/
structure LogLine where
  priority : LogLevel
  format : CStr
  args : List FmtArg

/-- What the programs share. -/
structure World (G : Type) where
  db : Databases G
  callbackList : CallbackDList
  /-- `sSetup.pBotname` -/
  pBotname : CStr
  stop : Bool
  again : Bool
  /-- the lines given to `SendLine`, in order -/
  sent : List CStr
  /-- the calls of `logger`, in order -/
  log : List LogLine

/-- What a routine asks its machine. -/
inductive HostText
  | hostname | sysname | release | machine | localtime | buildDate | buildTime
  deriving DecidableEq, Repr

/-- The places where a routine reads bytes that it may not have written. -/
inductive Unwritten
  /-- `mod[1]` of `accountmode` -/
  | accountmodeMod
  /-- what lies behind the end of an empty string -/
  | behindEmpty
  /-- `bTryToSet` and `cModeChr` of `hResetModes` -/
  | tryToSet
  | modeChr
  /-- `hostname` of `pong` -/
  | pongHostname
  deriving DecidableEq, Repr

/-- What the machine answers during one execution. -/
structure Env where
  /-- `time` -/
  now : Int
  host : HostText → CStr
  /-- the bytes found at a place that was not written, up to the first NUL -/
  unwritten : Unwritten → CStr
  /-- where a pointer that was not written leads, if anywhere -/
  unwrittenPointer : Option (Option CStr)
  /-- `send` took the line -/
  sendOk : Bool

/-! ## Operations -/

/-- The operations that leave every database as it is. -/
inductive Op
  | checkDb (db : DatabaseID) (key value : Option CStr)
  | existDb (db : DatabaseID) (key : Option CStr)
  | getDb (db : DatabaseID) (key : Option CStr)
  | listDb (db : DatabaseID)
  | sendLine (pMsg : CStr)
  | logger (line : LogLine)
  | callbackHead
  | callbackTail
  | insertNextCallback (element : Option Addr) (data : CallbackItem)
  | removeCallback (element : Option Addr)
  | searchCallback (element : Option Addr) (nickname : Option CStr)
  | botname
  | setBotname (name : CStr)
  | stop
  | setStop
  | setAgain
  | time
  | host (text : HostText)
  | unwritten (place : Unwritten)
  | unwrittenPointer
  | crash

/-- The reply of each operation. -/
def Op.Res : Op → Type
  | checkDb .. | existDb .. | insertNextCallback .. | stop => Bool
  | getDb .. | unwrittenPointer => Option CStr
  | listDb .. => List CStr
  | removeCallback .. => Option CallbackItem
  | callbackHead | callbackTail | searchCallback .. => Option Addr
  | botname | host .. | unwritten .. => CStr
  | time => Int
  | crash => Empty
  | sendLine .. | logger .. | setBotname .. | setStop | setAgain => Unit

/-- The operations that write a database. Each answers whether it did. -/
inductive DbWrite
  | addDb (db : DatabaseID) (key value : Option CStr)
  | replaceDb (db : DatabaseID) (key value : Option CStr)
  | delDb (db : DatabaseID) (key : Option CStr)

/-- The database an operation writes. -/
def DbWrite.db : DbWrite → DatabaseID
  | addDb db .. | replaceDb db .. | delDb db .. => db

abbrev quietSig : Sig := ⟨Op, Op.Res⟩
abbrev writeSig : Sig := ⟨DbWrite, fun _ => Bool⟩

/-- A routine that writes no database. -/
abbrev Quiet (α : Type) := Prog quietSig α

/-- A routine of the bot. -/
abbrev Bot (α : Type) := Prog (quietSig.sum writeSig) α

section Perform

variable {G : Type} [DbLib G]

def performQuiet (env : Env) : Handler quietSig (World G)
  | .checkDb db key value, w => some (w.db.checkDb db key value, w)
  | .existDb db key, w => some (w.db.existDb db key, w)
  | .getDb db key, w => some (w.db.getDb db key, w)
  | .listDb db, w => some (w.db.listDb db, w)
  | .sendLine pMsg, w =>
    -- a line the socket does not take stops the bot
    some ((), { w with sent := w.sent ++ [pMsg], stop := w.stop || !env.sendOk })
  | .logger line, w => some ((), { w with log := w.log ++ [line] })
  | .callbackHead, w => some (w.callbackList.head, w)
  | .callbackTail, w => some (w.callbackList.tail, w)
  | .insertNextCallback element data, w =>
    (w.callbackList.insertNext element data).map fun r => (r.1, { w with callbackList := r.2 })
  | .removeCallback element, w =>
    (w.callbackList.remove element).map fun r => (r.1, { w with callbackList := r.2 })
  | .searchCallback element nickname, w =>
    (w.callbackList.searchNickname element nickname).map fun r => (r, w)
  | .botname, w => some (w.pBotname, w)
  | .setBotname name, w => some ((), { w with pBotname := name })
  | .stop, w => some (w.stop, w)
  | .setStop, w => some ((), { w with stop := true })
  | .setAgain, w => some ((), { w with again := true })
  | .time, w => some (env.now, w)
  | .host text, w => some (env.host text, w)
  | .unwritten place, w => some (env.unwritten place, w)
  | .unwrittenPointer, w => env.unwrittenPointer.map fun r => (r, w)
  | .crash, _ => none

/-- The databases after a write, and its answer. -/
def DbWrite.apply (dbs : Databases G) : DbWrite → Bool × Databases G
  | .addDb db key value => dbs.addDb db key value
  | .replaceDb db key value => dbs.replaceDb db key value
  | .delDb db key => dbs.delDb db key

def performWrite : Handler writeSig (World G) := fun o w =>
  some ((o.apply w.db).1, { w with db := (o.apply w.db).2 })

/-- What each operation does. -/
def perform (env : Env) : Handler (quietSig.sum writeSig) (World G) :=
  (performQuiet env).sum performWrite

end Perform

/-! ## The calls, as the routines write them -/

def addDb (db : DatabaseID) (key value : Option CStr) : Bot Bool :=
  Prog.requestRight (T := writeSig) (.addDb db key value)

def replaceDb (db : DatabaseID) (key value : Option CStr) : Bot Bool :=
  Prog.requestRight (T := writeSig) (.replaceDb db key value)

def delDb (db : DatabaseID) (key : Option CStr) : Bot Bool :=
  Prog.requestRight (T := writeSig) (.delDb db key)

def checkDb (db : DatabaseID) (key value : Option CStr) : Quiet Bool :=
  Prog.request (S := quietSig) (.checkDb db key value)

def existDb (db : DatabaseID) (key : Option CStr) : Quiet Bool :=
  Prog.request (S := quietSig) (.existDb db key)

def getDb (db : DatabaseID) (key : Option CStr) : Quiet (Option CStr) :=
  Prog.request (S := quietSig) (.getDb db key)

def listDb (db : DatabaseID) : Quiet (List CStr) :=
  Prog.request (S := quietSig) (.listDb db)

/-- `SendLine`. -/
def sendLine (pMsg : CStr) : Quiet Unit := Prog.request (S := quietSig) (.sendLine pMsg)

def logger (priority : LogLevel) (format : CStr) (args : List FmtArg) : Quiet Unit :=
  Prog.request (S := quietSig) (.logger ⟨priority, format, args⟩)

/-- `CallbackList.head`. -/
def callbackHead : Quiet (Option Addr) := Prog.request (S := quietSig) .callbackHead

/-- `CallbackList.tail`. -/
def callbackTail : Quiet (Option Addr) := Prog.request (S := quietSig) .callbackTail

def insertNextCallbackDList (element : Option Addr) (data : CallbackItem) : Quiet Bool :=
  Prog.request (S := quietSig) (.insertNextCallback element data)

def removeCallbackDList (element : Option Addr) : Quiet (Option CallbackItem) :=
  Prog.request (S := quietSig) (.removeCallback element)

def searchNicknameFromCallbackDList (element : Option Addr) (nickname : Option CStr) :
    Quiet (Option Addr) :=
  Prog.request (S := quietSig) (.searchCallback element nickname)

/-- `sSetup.pBotname`. -/
def botname : Quiet CStr := Prog.request (S := quietSig) .botname

def setBotname (name : CStr) : Quiet Unit := Prog.request (S := quietSig) (.setBotname name)

def readStop : Quiet Bool := Prog.request (S := quietSig) .stop

def setStop : Quiet Unit := Prog.request (S := quietSig) .setStop

def setAgain : Quiet Unit := Prog.request (S := quietSig) .setAgain

def time : Quiet Int := Prog.request (S := quietSig) .time

def hostText (text : HostText) : Quiet CStr := Prog.request (S := quietSig) (.host text)

def unwritten (place : Unwritten) : Quiet CStr := Prog.request (S := quietSig) (.unwritten place)

def unwrittenPointer : Quiet (Option CStr) := Prog.request (S := quietSig) .unwrittenPointer

/-- A step without meaning. -/
def crash {α : Type} : Quiet α := Prog.request (S := quietSig) .crash >>= Empty.elim

/-- `pMod[1]`. -/
def secondChar (pMod : CStr) : Quiet Char :=
  match pMod with
  | [] => do return strAt (← unwritten .behindEmpty) 0
  | _ :: rest => return strAt rest 0

/-- `pMod[0]=c`, and the string that is there then. -/
def setFirstChar (pMod : CStr) (c : Char) : Quiet CStr :=
  match pMod with
  | [] => do return c :: (← unwritten .behindEmpty)
  | _ :: rest => return c :: rest

end Ebotula
