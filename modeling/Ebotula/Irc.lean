import Ebotula.System
import Mathlib.Algebra.Group.Nat.Defs

/-!
# Lines for the server

The routines of `irc.c`. All but two are one shape: every argument must be there, a
missing one is logged by its name, and otherwise one line is formatted and sent.
Texts go through no catalogue here: `gettext` answers the text it is given.

`sendMsg` prints its text into a buffer of 1 KiB, and a longer one behind it. The blocks of the
lines themselves are in `LineBuffer`.
-/

set_option autoImplicit false

namespace Ebotula

open Library

/-- The common shape: the arguments with the name each has in its error text, in the
order of the checks and of the format. -/
def sendCommand (format : CStr) (args : List (CStr × Option CStr)) : Quiet Unit :=
  match args.find? (·.2.isNone) with
  | some (name, _) => logger .err ("Invalid ".toList ++ name ++ ". Null pointer.".toList) []
  | none =>
    match vsprintf format (args.map fun arg => .str arg.2) with
    | some buffer => sendLine buffer
    | none => crash

def privmsg (pTarget pMsgStr : Option CStr) : Quiet Unit :=
  sendCommand "PRIVMSG %s :%s\r\n" [("target", pTarget), ("msg str", pMsgStr)]

def notice (pNick pMsgStr : Option CStr) : Quiet Unit :=
  sendCommand "NOTICE %s :%s\r\n" [("nick name", pNick), ("msg str", pMsgStr)]

def join (pChannel : Option CStr) : Quiet Unit :=
  sendCommand "JOIN %s\r\n" [("channel", pChannel)]

def part (pChannel : Option CStr) : Quiet Unit :=
  sendCommand "PART %s\r\n" [("channel", pChannel)]

def ping (pTarget : Option CStr) : Quiet Unit :=
  sendCommand "PING %s\r\n" [("target", pTarget)]

def nick (pNick : Option CStr) : Quiet Unit :=
  sendCommand "NICK %s\r\n" [("nick name", pNick)]

def topic (pChannel pMsgStr : Option CStr) : Quiet Unit :=
  sendCommand "TOPIC %s :%s\r\n" [("channel", pChannel), ("message", pMsgStr)]

def kick (pChannel pNick pMsgStr : Option CStr) : Quiet Unit :=
  sendCommand "KICK %s %s :%s\r\n"
    [("channel", pChannel), ("nick name", pNick), ("message", pMsgStr)]

def ban (pChannel pMask : Option CStr) : Quiet Unit :=
  sendCommand "MODE %s +b %s\r\n" [("channel", pChannel), ("mask", pMask)]

def deban (pChannel pMask : Option CStr) : Quiet Unit :=
  sendCommand "MODE %s -b %s\r\n" [("channel", pChannel), ("mask", pMask)]

def whois (pNickname : Option CStr) : Quiet Unit :=
  sendCommand "WHOIS %s\r\n" [("nick name", pNickname)]

/-- `mode`: the parameter is optional. -/
def mode (pChannel pMod pModParameter : Option CStr) : Quiet Unit :=
  sendCommand "MODE %s %s %s\r\n"
    [("channel", pChannel), ("mod", pMod), ("parameter", some (pModParameter.getD []))]

/-- `invite`: the channel is optional. -/
def invite (pChannel pNick : Option CStr) : Quiet Unit :=
  sendCommand "INVITE %s %s\r\n" [("nick name", pNick), ("channel", some (pChannel.getD []))]

/-- `pong`: without a parameter it names the host, in a line that is cut where the buffer ends.
The size of the buffer is computed before the name is in its array. -/
def pong (pPong : Option CStr) : Quiet Unit := do
  match pPong with
  | none =>
    let buffer_size := "PONG ".length + (← unwritten .pongHostname).length + 3
    let hostname ← hostText .hostname
    sendLine (("PONG ".toList ++ hostname ++ "\r\n".toList).take (buffer_size - 1))
  | some pPong => sendCommand "PONG %s\r\n" [("pong", some pPong)]

/-- `quit()`. -/
def quit : Quiet Unit := sendLine "QUIT\r\n"

def action (pTarget pMsgStr : Option CStr) : Quiet Unit :=
  match pTarget, pMsgStr with
  | none, _ => logger .err "Invalid target. Null pointer." []
  | some _, none => logger .err "Invalid message. Null pointer." []
  | some pTarget, some pMsgStr =>
    privmsg (some pTarget) (some ('\x01' :: "ACTION ".toList ++ pMsgStr ++ ['\x01']))

/-- The text in `pMsg`, as a notice or as a message. -/
def sendText (answerMode : AnswerMode) (pNick : Option CStr) (pMsg : CStr) : Quiet Unit :=
  match answerMode with
  | .noticeMode => notice pNick (some (cString pMsg))
  | .prvMsgMode => privmsg pNick (some (cString pMsg))

def sendMsg (answerMode : AnswerMode) (pNick : Option CStr) (pMsgStr : CStr)
    (arg : List FmtArg) : Quiet Unit :=
  match vsprintf pMsgStr arg with
  | none => crash
  | some pMsg =>
    -- `char pMsg[1<<10]`, with the NUL
    if pMsg.length < 2 ^ 10 then sendText answerMode pNick pMsg else crash

end Ebotula
