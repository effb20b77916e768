import Ebotula.Utilities

/-!
# Taking a server line apart

The extractors of `extract.c`. Two of them write into the line they are given:
`getArgument` trims the argument text in place, and `getAccessChannel` may end the
line behind a channel name. Both answer the text found and the line as they leave
it, and so does every routine that calls them on its own line. The others work on
a copy.
-/

set_option autoImplicit false

namespace Ebotula

open Library

/-- `getNetmask`. -/
def getNetmask (pLine : CStr) : Option CStr :=
  -- `strtok(&pStr[1]," ")` on a copy
  let pStr : CStr :=
    match pLine with
    | [] => []
    | c :: rest => c :: strtokBuf ' ' rest
  if '!' ∈ pStr ∨ '@' ∈ pStr then
    if pStr.head? = some ':' then some pStr.tail else some pStr
  else none

/-- `getNickname`. -/
def getNickname (pLine : CStr) : Option CStr :=
  match getNetmask pLine with
  | none => none
  | some pStr =>
    if strtokFound '!' pStr && nickStringCheck (strtokBuf '!' pStr) then some (strtokBuf '!' pStr)
    else none

/-- `getCommand`. -/
def getCommand (pLine : CStr) : Option CStr :=
  match pLine with
  | ':' :: rest => some (':' :: strtokBuf ':' rest)
  | _ => none

/-- `getArgument`, of a line that is shorter than 2 GiB: `InPlace.getArgument` counts its characters
as the source does. -/
def getArgument (pLine : CStr) : Option CStr × CStr :=
  match cutString " :!".toList pLine with
  | none => (none, pLine)
  | some (before, pStr) =>
    match cutFirst ' ' pStr with
    | none => (none, pLine)
    | some (word, pPos) =>
      -- an argument that trims to nothing was all white space: the later turns of
      -- the loop find further blanks of it, and trim them to nothing again
      let arg := trim pPos
      let pLine' := before ++ " :!".toList ++ word ++ ' ' :: arg
      (if arg.isEmpty then none else some arg, pLine')

/-- `getChannel`. -/
def getChannel (pLine : CStr) : Option CStr :=
  match getCommand pLine with
  | none => none
  | some pPreamble =>
    match cutFirst '#' pPreamble with
    | some (_, rest) => some (strtokBuf ' ' ('#' :: rest))
    | none => none

/-- `getAccessChannel`. -/
def getAccessChannel (pLine : CStr) : Option CStr × CStr :=
  match getArgument pLine with
  | (some ('#' :: rest), pLine) =>
    let pParameter := strtokBuf ' ' ('#' :: rest)
    (if channelStringCheck pParameter then some pParameter else none, pLine)
  | (_, pLine) =>
    match getChannel pLine with
    | some pChannel => (some pChannel, pLine)
    | none =>
      match cutString " :#".toList pLine with
      | some (before, rest) =>
        let pChannel := strtokBuf ' ' ('#' :: rest)
        (some pChannel, before ++ " :".toList ++ pChannel)
      | none => (none, pLine)

/-- `getParameters`. -/
def getParameters (pLine : CStr) : Option CStr × CStr :=
  match getArgument pLine with
  | (some ('#' :: rest), pLine) => ((cutFirst ' ' ('#' :: rest)).map Prod.snd, pLine)
  | (pParameter, pLine) => (pParameter, pLine)

/-- `getAnswerMode`. -/
def getAnswerMode (pLine : CStr) : AnswerMode :=
  match getChannel pLine with
  | none => .prvMsgMode
  | some _ => .noticeMode

/-- `getFirstPart(pLine,&pRest)`: the first part, and `pRest` as the call leaves
it. Without a blank in the line `pRest` keeps what it held. -/
def getFirstPart (pLine pRest : Option CStr) : Option CStr × Option CStr :=
  match pLine with
  | none => (none, none)
  | some pLine =>
    match cutFirst ' ' pLine with
    | some (pStr, pPos) => (some pStr, if pPos.isEmpty then none else some pPos)
    | none => (some pLine, pRest)

/-- `rmFirstPart(STRING,RETURN)`. -/
def rmFirstPart (pLine pRest : Option CStr) : Option CStr := (getFirstPart pLine pRest).2

/-- `getBanmask`. Answers `none` as the result where the netmask has no `!` or no
`@`, which the source takes for granted. -/
def getBanmask (pLine : CStr) : Option (Option CStr) :=
  match getNetmask pLine with
  | none => some none
  | some pStr =>
    match cutFirst '!' pStr with
    | none => none
    | some (_, userHost) =>
      let pStr := '*' :: '!' :: userHost
      match cutFirst '@' pStr with
      | none => none
      | some (beforeHost, _) =>
        let pBanmask := beforeHost ++ ['@', '*']
        match cutFirst '.' pStr with
        | some (_, domain) => some (some (pBanmask ++ '.' :: domain))
        | none => some (some pBanmask)

/-! ## What an extractor can answer -/

/-- A nickname is always one that passes the check. -/
theorem getNickname_check {pLine pNick : CStr} (h : getNickname pLine = some pNick) :
    nickStringCheck pNick = true := by
  rw [getNickname] at h
  split at h
  · cases h
  · split at h
    · next hcheck =>
      cases h
      exact (Bool.and_eq_true_iff.mp hcheck).2
    · cases h

/-- A channel name always starts with `#`. -/
theorem getChannel_head {pLine pChannel : CStr} (h : getChannel pLine = some pChannel) :
    pChannel.head? = some '#' := by
  rw [getChannel] at h
  split at h
  · cases h
  · split at h
    · cases h
      rw [strtokBuf_of_head (by decide)]
      rfl
    · cases h

theorem getAccessChannel_head {pLine pChannel : CStr}
    (h : (getAccessChannel pLine).1 = some pChannel) : pChannel.head? = some '#' := by
  rw [getAccessChannel] at h
  split at h
  · dsimp only at h
    split at h
    · cases h
      rw [strtokBuf_of_head (by decide)]
      rfl
    · cases h
  · split at h
    · next hchan =>
      cases h
      exact getChannel_head hchan
    · split at h
      · cases h
        rw [strtokBuf_of_head (by decide)]
        rfl
      · cases h

/-! ## The message item -/

/-- `MsgItem_t`: what a handler is told about the line it handles. The two laws are
what the extractors promise of the names they answer. -/
structure MsgItem where
  userLevel : UserLevel
  answerMode : AnswerMode
  pAccessChannel : Option CStr
  pCallingNick : Option CStr
  pNetmask : Option CStr
  pRawLine : CStr
  bInteractiveMode : Bool
  pParameter : Option CStr
  channel_head : ∀ pChannel ∈ pAccessChannel, pChannel.head? = some '#'
  nick_check : ∀ pNick ∈ pCallingNick, nickStringCheck pNick = true

end Ebotula
