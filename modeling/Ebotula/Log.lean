import Ebotula.Library.Trace
import Ebotula.Parser

/-!
# The log of a line

What is logged for one received line, from the receive loop of `AppMain` over `preParser` and
`CommandExecutionThread` to the end of its handler. A message of the log is a call of `logger`;
`SendLine` makes one of its own for each line that it sends. Which priorities are written down is
a matter of the setup, and the same for every line.
-/

set_option autoImplicit false

namespace Ebotula

open Library

/-! ## The way of a line -/

/-- The receive loop with a line that it has cut out: `ident` in it is taken for a login, which is
not shown. -/
def receiveLine (pCurrLine : CStr) : Quiet MsgBuf := do
  match cutString (pCmdString .ident) pCurrLine with
  | some _ => logger .debug "Receive: \"%s\"" [.str "!ident <nickname> <password>"]
  | none => logger .debug "Receive: \"%s\"" [.str pCurrLine]
  preParser pCurrLine

/-- A line on its own: what it is identified as goes over the queue to a worker. -/
def serveLine (pCurrLine : CStr) : Bot Unit := do
  let sMsg ← receiveLine pCurrLine
  if sMsg.identify ≠ .cmdNone then executeCommand sMsg

/-! ## Messages -/

/-- A message as it is written: the priority and the text. -/
def LogLine.message (line : LogLine) : LogLevel × Option CStr :=
  (line.priority, vsprintf line.format line.args)

/-- The two numbers that `SendLine` shows. The first one counts what was sent before. -/
structure SendCount where
  nCharPerMinute : List CStr → Int
  nFastSendingCharLimit : Int

/-- What `SendLine` logs. -/
def sendLog (env : Env) (count : SendCount) (sent : List CStr) (pMsg : CStr) : List LogLine :=
  (if env.sendOk then [] else [⟨.crit, "Couldn't send a command.", []⟩]) ++
    [⟨.debug, "Send(%d/%d): \"%s\"",
      [.int (count.nCharPerMinute sent), .int count.nFastSendingCharLimit, .str pMsg]⟩]

section Observer

variable {G : Type}

/-- What a request adds to the log. -/
def Op.logs (env : Env) (count : SendCount) : Op → World G → List LogLine
  | .logger line, _ => [line]
  | .sendLine pMsg, w => sendLog env count w.sent pMsg
  | _, _ => []

variable [DbLib G] {α : Type}

/-- What a routine that writes no database logs. -/
def quietLog (env : Env) (count : SendCount) (p : Quiet α) (w : World G) : List LogLine :=
  p.emits (performQuiet env) (Op.logs env count) w

/-- What a routine of the bot logs. -/
def botLog (env : Env) (count : SendCount) (p : Bot α) (w : World G) : List LogLine :=
  p.emits (perform env) (Sum.elim (Op.logs env count) fun _ _ => []) w

/-- The messages for a received line. -/
def lineLog (env : Env) (count : SendCount) (w : World G) (pCurrLine : CStr) :
    List (LogLevel × Option CStr) :=
  (botLog env count (serveLine pCurrLine) w).map LogLine.message

end Observer

end Ebotula
