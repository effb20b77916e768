import Ebotula.Library.Run
import Ebotula.Parser

/-!
# Runs of the bot

The databases change when a worker executes a handler and when the timing thread
sweeps. An event is one of these, with what the machine answers meanwhile; a handler
may be given any item, whatever level it names. What a worker makes of a received line
is one of these events or none (`received`), so a law over all events holds of every
sequence of lines.
-/

set_option autoImplicit false

namespace Ebotula

open Library

/-- The executions that can change a database. -/
inductive Event
  | command (env : Env) (id : Cmd) (pMsg : MsgItem)
  | deadLogins (env : Env) (lCheckTime : Int)
  | deadAccounts (env : Env) (lCheckTime : Int)

namespace Event

def env : Event → Env
  | command env .. | deadLogins env _ | deadAccounts env _ => env

def program : Event → Bot Unit
  | command _ id pMsg => commandHandler id pMsg
  | deadLogins _ lCheckTime => rmDeadLogins lCheckTime
  | deadAccounts _ lCheckTime => rmDeadAccounts lCheckTime

end Event

variable {G : Type} [DbLib G]

/-- One execution, to its end. -/
def step (w : World G) (e : Event) : Option (World G) :=
  (e.program.run (perform e.env) w).map Prod.snd

/-- The event a queued message becomes: the handler of its command on the item of its
line, if the level of the caller allows it. -/
def dispatched (env : Env) (w : World G) (pMsg : MsgBuf) : Option Event :=
  match (getUserLevel (getAccessChannel pMsg.pMsgLine).1 (getNetmask pMsg.pMsgLine)).run
    (performQuiet env) w with
  | some (userLevel, _) =>
    if accessRight userLevel pMsg.identify then
      some (.command env pMsg.identify
        (fillItem pMsg.pMsgLine userLevel (bIsCommand pMsg.identify)))
    else none
  | none => none

/-- The event a received line becomes. -/
def received (env : Env) (w : World G) (pLine : CStr) : Option Event :=
  match (preParser pLine).run (performQuiet env) w with
  | some (pMsg, _) => if pMsg.identify = .cmdNone then none else dispatched env w pMsg
  | none => none

/-- A world that has received lines, each executed before the next, as far as a
condition on the events lets it. -/
def receiveAll (ok : World G → Event → Bool) (env : Env) (w : World G) (lines : List CStr) :
    Option (World G) :=
  lines.foldlM (fun w line => (received env w line).bind fun e =>
    if ok w e then step w e else none) w

/-- Received lines are a run under that condition. -/
theorem run_of_receiveAll {ok : World G → Event → Bool} {env : Env} {w w' : World G}
    {lines : List CStr} (h : receiveAll ok env w lines = some w') :
    ∃ es, Run step (fun w e => ok w e = true) w es w' := by
  induction lines generalizing w with
  | nil =>
    cases h
    exact ⟨[], .nil _⟩
  | cons line lines ih =>
    rw [receiveAll, List.foldlM_cons] at h
    obtain ⟨w₁, hw₁, hrest⟩ := Option.bind_eq_some_iff.mp h
    obtain ⟨e, -, hstep⟩ := Option.bind_eq_some_iff.mp hw₁
    obtain ⟨es, run⟩ := ih hrest
    split at hstep
    · next hok => exact ⟨e :: es, .cons hok hstep run⟩
    · cases hstep

/-! ## A bot that has just started -/

/-- Database files that compute. -/
abbrev Gdbm := Assoc CStr CStr

/-- The hash is that of the empty password, the only one `hello` ever stores. -/
instance : DbLib Gdbm where
  crypt _ := "SLW/he1AY2Gzc"

/-- No file has an entry. -/
def freshBot : World Gdbm where
  db _ := Table.empty
  callbackList := .init
  pBotname := "ebotula"
  stop := false
  again := false
  sent := []
  log := []

/-- A machine on which nothing goes wrong. -/
def calmEnv : Env where
  now := 0
  host _ := []
  unwritten _ := []
  unwrittenPointer := none
  sendOk := true

/-- The item of a line that `root` sends to the bot. -/
def rootItem (text : String) : MsgItem :=
  fillItem (":root!r@h PRIVMSG ebotula :".toList ++ text.toList) .masterLevel true

/-- A bot with a channel that nothing was saved for yet. -/
def channelBot : World Gdbm :=
  { freshBot with db := (freshBot.db.addDb .channel (some "#c") (some "\t\t")).2 }

/-- The lines of a bot with a master, an owner of a channel and a user. -/
def ownedChannel : List CStr :=
  [":root!r@h PRIVMSG ebotula :!hello", ":alice!a@h PRIVMSG ebotula :!hello",
    ":bob!b@h PRIVMSG ebotula :!hello", ":root!r@h PRIVMSG ebotula :!addchannel #c",
    ":root!r@h PRIVMSG ebotula :!accountmode #c alice +o"]

end Ebotula
