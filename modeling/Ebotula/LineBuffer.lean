import Ebotula.Irc
import Ebotula.Library.Block

/-!
# The buffers of the lines

The routines of `irc.c` once more, with the memory they print their lines into. Each computes the
size of its line, allocates a block of this size, prints the line and passes on the string in the
block. In `Irc` the same routines have no blocks, and a line is what its format says.
-/

set_option autoImplicit false

namespace Ebotula

open Library

def strlen (s : CStr) : Nat := s.length

/-- `snprintf` is given the size of the buffer, `sprintf` is not. -/
inductive Print
  | snprintf
  | sprintf
  deriving DecidableEq, Repr

/-- What a routine does for its line: the function it prints with, the size it allocates, the
format, and the arguments with the names they have in the error texts. -/
structure LineBuffer where
  print : Print
  size : Nat
  format : CStr
  args : List (CStr × Option CStr)

namespace LineBuffer

/-- The complete line. -/
def text (l : LineBuffer) : Option CStr := vsprintf l.format (l.args.map fun arg => .str arg.2)

def printInto (l : LineBuffer) (buffer : Block) (text : CStr) : Option Block :=
  match l.print with
  | .snprintf => buffer.snprintf 0 l.size text
  | .sprintf => buffer.sprintf 0 text

/-- The common shape: the arguments are checked, the buffer is allocated, the line is printed and
sent. A write beside the buffer has no meaning. -/
def send (l : LineBuffer) : Quiet Unit :=
  match l.args.find? (·.2.isNone) with
  | some (name, _) => logger .err ("Invalid ".toList ++ name ++ ". Null pointer.".toList) []
  | none =>
    match malloc l.size with
    | none => logger .err "Couldn't allocate memory!" []
    | some buffer =>
      match (l.text.bind (l.printInto buffer)).bind Block.string with
      | some line => sendLine line
      | none => crash

/-- `user`: no argument is checked, and the size is kept in an `int`. -/
def user (pw_name hostname sHostname realname : CStr) : LineBuffer where
  print := .snprintf
  size := ofInt (toInt (sizeT (strlen "USER" + strlen pw_name + strlen hostname +
    strlen sHostname + strlen realname + 8)))
  format := "USER %s %s %s :%s\r\n"
  args := [("", pw_name), ("", hostname), ("", sHostname), ("", realname)]

/-- An argument is measured where it is there. -/
def measure (arg : Option CStr) : Nat := strlen (arg.getD [])

def privmsg (pTarget pMsgStr : Option CStr) : LineBuffer where
  print := .snprintf
  size := sizeT (strlen "PRIVMSG " + measure pTarget + measure pMsgStr + 5)
  format := "PRIVMSG %s :%s\r\n"
  args := [("target", pTarget), ("msg str", pMsgStr)]

def notice (pNick pMsgStr : Option CStr) : LineBuffer where
  print := .snprintf
  size := sizeT (strlen "NOTICE " + measure pNick + measure pMsgStr + 5)
  format := "NOTICE %s :%s\r\n"
  args := [("nick name", pNick), ("msg str", pMsgStr)]

def join (pChannel : Option CStr) : LineBuffer where
  print := .snprintf
  size := sizeT (strlen "JOIN " + measure pChannel + 3)
  format := "JOIN %s\r\n"
  args := [("channel", pChannel)]

def part (pChannel : Option CStr) : LineBuffer where
  print := .snprintf
  size := sizeT (strlen "PART " + measure pChannel + 3)
  format := "PART %s\r\n"
  args := [("channel", pChannel)]

/-- `pong`: without a parameter it measures its array before the host name is in it. -/
def pong (unwritten hostname : CStr) : Option CStr → LineBuffer
  | none =>
    { print := .snprintf
      size := sizeT (strlen "PONG " + strlen unwritten + 3)
      format := "PONG %s\r\n"
      args := [("hostname", hostname)] }
  | some pPong =>
    { print := .snprintf
      size := sizeT (strlen "PONG " + strlen pPong + 3)
      format := "PONG %s\r\n"
      args := [("pong", pPong)] }

def ping (pTarget : Option CStr) : LineBuffer where
  print := .snprintf
  size := sizeT (strlen "PING " + measure pTarget + 3)
  format := "PING %s\r\n"
  args := [("target", pTarget)]

/-- `invite`: the channel is optional. -/
def invite (pChannel pNick : Option CStr) : LineBuffer where
  print := .snprintf
  size := sizeT (strlen "INVITE" + measure pNick + measure pChannel + 5)
  format := "INVITE %s %s\r\n"
  args := [("nick name", pNick), ("channel", some (pChannel.getD []))]

def nick (pNick : Option CStr) : LineBuffer where
  print := .snprintf
  size := sizeT (strlen "NICK " + measure pNick + 3)
  format := "NICK %s\r\n"
  args := [("nick name", pNick)]

def topic (pChannel pMsgStr : Option CStr) : LineBuffer where
  print := .snprintf
  size := sizeT (strlen "TOPIC " + measure pChannel + measure pMsgStr + 5)
  format := "TOPIC %s :%s\r\n"
  args := [("channel", pChannel), ("message", pMsgStr)]

def kick (pChannel pNick pMsgStr : Option CStr) : LineBuffer where
  print := .sprintf
  size := sizeT (strlen "KICK " + measure pChannel + measure pNick + measure pMsgStr + 6)
  format := "KICK %s %s :%s\r\n"
  args := [("channel", pChannel), ("nick name", pNick), ("message", pMsgStr)]

def ban (pChannel pMask : Option CStr) : LineBuffer where
  print := .sprintf
  size := sizeT (strlen "MODE " + measure pChannel + measure pMask + 6)
  format := "MODE %s +b %s\r\n"
  args := [("channel", pChannel), ("mask", pMask)]

def deban (pChannel pMask : Option CStr) : LineBuffer where
  print := .sprintf
  size := sizeT (strlen "MODE " + measure pChannel + measure pMask + 6)
  format := "MODE %s -b %s\r\n"
  args := [("channel", pChannel), ("mask", pMask)]

/-- `mode`: the parameter is optional. -/
def mode (pChannel pMod pModParameter : Option CStr) : LineBuffer where
  print := .sprintf
  size := sizeT (strlen "MODE " + measure pChannel + measure pMod + measure pModParameter + 5)
  format := "MODE %s %s %s\r\n"
  args := [("channel", pChannel), ("mod", pMod), ("parameter", some (pModParameter.getD []))]

def whois (pNickname : Option CStr) : LineBuffer where
  print := .sprintf
  size := sizeT (strlen "WHOIS " + measure pNickname + 3)
  format := "WHOIS %s\r\n"
  args := [("nick name", pNickname)]

/-- `nStrSize` of `action`. -/
def actionSize (pMsgStr : CStr) : Int := toInt (sizeT (strlen "ACTION " + strlen pMsgStr + 3))

/-- What `action` writes into its own buffer, byte by byte around the text. -/
def actionText (buffer : Block) (nStrSize : Int) (pMsgStr : CStr) : Option CStr := do
  let buffer ← buffer.store 0 '\x01'
  let buffer ← buffer.snprintf 1 (ofInt (nStrSize - 2)) (("ACTION " : CStr) ++ pMsgStr)
  let buffer ← buffer.store (nStrSize - 2) '\x01'
  let buffer ← buffer.store (nStrSize - 1) '\x00'
  buffer.string

/-- `action` after its `malloc`. -/
def sendAction (pTarget pMsgStr : CStr) : Option Block → Quiet Unit
  | none => logger .err "Couldn't allocate memory!" []
  | some buffer =>
    match actionText buffer (actionSize pMsgStr) pMsgStr with
    | some text => (privmsg pTarget text).send
    | none => crash

/-- `action`: the framed text is built in a buffer of its own and goes through `privmsg`. -/
def action (pTarget pMsgStr : Option CStr) : Quiet Unit :=
  match pTarget, pMsgStr with
  | none, _ => logger .err "Invalid target. Null pointer." []
  | some _, none => logger .err "Invalid message. Null pointer." []
  | some pTarget, some pMsgStr =>
    sendAction pTarget pMsgStr (malloc (ofInt (actionSize pMsgStr)))

end LineBuffer

end Ebotula
