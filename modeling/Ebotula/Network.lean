import Ebotula.Irc
import Ebotula.Receive

/-!
# The connection

What `network.c` and `irc.c` do around the lines: the registration with the server, which looks
for a nickname that is free, and the thread that joins the saved channels. The registration reads
from the server before there is a receive loop, so it has one operation more than the routines
of the bot have.

The setup of a server connection by the socket calls is left out. So is a `recv` that fails, whose
-1 would be an index.
-/

set_option autoImplicit false

namespace Ebotula

open Library

/-! ## Reading one answer -/

/-- What `poll` and `recv` come to. -/
inductive Received
  | data (bytes : CStr)
  /-- `recv` answers 0. -/
  | closed
  /-- `poll` answers 0. -/
  | timeout
  deriving DecidableEq, Repr

/-- The operation that the registration has more than the routines of the bot. -/
inductive NetOp
  | recvLine

abbrev netSig : Sig := ⟨NetOp, fun _ => CStr⟩

/-- A routine that also reads from the server. -/
abbrev Net (α : Type) := Prog (quietSig.sum netSig) α

/-- What a server answers from now on; a server that has nothing left to say is silent. -/
abbrev Answers := List Received

/-- `RecvLine`: without a line the string is empty and the bot is to stop. -/
def performRecv {G : Type} : Handler netSig (World G × Answers)
  | .recvLine, (w, answers) =>
    match answers with
    | .data bytes :: answers => (Ebotula.recvLine bytes).map fun text => (text, (w, answers))
    | .closed :: answers =>
      some ([], ({ w with
        stop := true
        log := w.log ++ [⟨.crit, "Can't receive a line.", []⟩] }, answers))
    | .timeout :: answers => some ([], (silent w, answers))
    | [] => some ([], (silent w, []))
where
  silent (w : World G) : World G :=
    { w with
      stop := true
      log := w.log ++ [⟨.err, "Receiving timeout", []⟩] }

/-- The operations of the registration. -/
def performNet {G : Type} [DbLib G] (env : Env) :
    Handler (quietSig.sum netSig) (World G × Answers) :=
  Handler.sum ((performQuiet env).beside Answers) performRecv

def receive : Net CStr := Prog.requestRight (T := netSig) .recvLine

/-! ## The registration -/

/-- `MAX_NICKS`. -/
def maxNicks : Nat := 3

/-- `user`. The name of the user is that of the process. -/
def user (pw_name sHostname realname : CStr) : Quiet Unit := do
  let hostname ← hostText .hostname
  sendCommand "USER %s %s %s :%s\r\n"
    [("", some pw_name), ("", some hostname), ("", some sHostname), ("", some realname)]

/-- The text by which the server refuses a nickname. -/
def nickInUse : CStr := "Nickname is already in use."

/-- One turn of the loop of `ConnectToIrc`: whether the nickname is in use. If it is, the next one
has an underline more. -/
def tryNick : Net Bool := do
  nick (some (← botname))
  match cutString nickInUse (← receive) with
  | some _ => do
    setBotname ('_' :: (← botname))
    return true
  | none => return false

/-- The loop, with the number of turns after this one. The last turn fails, whatever the server
has answered to it. -/
def tryNicks : (left : Nat) → Net Bool
  | 0 => do
    let _ ← tryNick
    logger .err "Couldn't set the nickname %s." [.str (← botname)]
    return false
  | left + 1 => do
    if ← tryNick then tryNicks left else return true

/-- `ConnectToIrc`. -/
def connectToIrc (pw_name sHostname realname : CStr) : Net Bool := do
  user pw_name sHostname realname
  tryNicks maxNicks

/-! ## The saved channels -/

/-- `JoinAllChannelsThread`: the list is read before the thread sleeps. -/
def joinAllChannels : Quiet Unit := do
  Prog.forEach (fun pChannel => join (some pChannel)) (← listDb .channel)

end Ebotula
