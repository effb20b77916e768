import Ebotula.Types

/-!
# The receive loop

The main loop of `AppMain`: what a `recv` has put into the buffer is appended to the rest of
the last turn, and every part of it up to a carriage return is a line for `preParser`. The
lines handed over are collected, in order; what the parser makes of them is modelled with it.
-/

set_option autoImplicit false

namespace Ebotula

open Library

/-- `RECV_BUFFER_SIZE`. -/
def recvBufferSize : Nat := 1 <<< 10

/-- `RecvLine` for the bytes that `recv` has put into the buffer. A full buffer has no room
for the NUL behind it. -/
def recvLine (received : CStr) : Option CStr :=
  if received.length < recvBufferSize then some (cString received) else none

/-- The inner loop, from `pCurrStringPos` on: the lines, and the string that is left there.
Every turn shortens it. -/
def handOver : (fuel : Nat) → CStr → List CStr × CStr
  | 0, pCurrStringPos => ([], pCurrStringPos)
  | fuel + 1, pCurrStringPos =>
    match cutFirst '\r' pCurrStringPos with
    | none => ([], pCurrStringPos)
    | some (pCurrLine, pStrPos) =>
      -- a step over the NL; at the end of the string `pCurrStringPos` stays where it was, in
      -- front of the line that has just been cut off
      let next := if pStrPos.length > 0 then pStrPos.tail else pCurrLine
      let (lines, rest) := handOver fuel next
      (pCurrLine :: lines, rest)

/-- One turn of the loop of `AppMain`: the lines for `preParser` and the new `pUnparsed`. -/
def receiveTurn (pUnparsed received : CStr) : Option (List CStr × CStr) :=
  (recvLine received).map fun buffer =>
    handOver (pUnparsed ++ buffer).length (pUnparsed ++ buffer)

/-- The loop, over what one `recv` after the other delivers. -/
def receiveLoop : (received : List CStr) → (pUnparsed : CStr) → Option (List CStr × CStr)
  | [], pUnparsed => some ([], pUnparsed)
  | chunk :: received, pUnparsed => do
    let (lines, pUnparsed) ← receiveTurn pUnparsed chunk
    let (later, pUnparsed) ← receiveLoop received pUnparsed
    return (lines ++ later, pUnparsed)

end Ebotula
