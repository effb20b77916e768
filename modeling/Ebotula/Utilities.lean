import Ebotula.Types

/-!
# String and channel-record utilities

The routines of `utilities.c`: the string filters `trim` and `clearspace`, key
lowering, the two character checks, and the codec of the channel record. A loop
that compacts a string in place is a fold that collects the characters written;
its flag is carried beside the output. The routines are functions of texts that an
`int` can count; `InPlace` has those that count in one, and the laws there say that
they agree on such texts.

`strToChannelMode` answers `none` where the source reads an argument that is not
there: `ppArgv[j]` beyond its three entries or NULL.
-/

set_option autoImplicit false

namespace Ebotula

open Library

/-! ## Filters -/

/-- One turn of the loop of `trim`: the text written so far, and whether the last
character written may be followed by a blank. -/
def trimStep (st : CStr × Bool) (c : Char) : CStr × Bool :=
  if c = ' ' ∧ st.2 then (st.1 ++ [' '], false)
  else if c ≠ '\n' ∧ c ≠ '\r' ∧ c ≠ ' ' ∧ c ≠ '\t' then (st.1 ++ [c], true)
  else st

/-- `trim`, of a text that is shorter than 2 GiB. -/
def trim (pStr : CStr) : CStr :=
  let out := (pStr.foldl trimStep ([], false)).1
  if out.getLast? = some ' ' then out.dropLast else out

/-- One turn of the loop of `clearspace`; the flag is `noclr`. -/
def clearspaceStep (st : CStr × Bool) (c : Char) : CStr × Bool :=
  if c ≠ ' ' ∨ st.2 then
    if c = '"' ∧ !st.2 then (st.1, true)
    else if c = '"' ∧ st.2 then (st.1, false)
    else (st.1 ++ [c], st.2)
  else st

/-- `clearspace`, of a text that is shorter than 2 GiB. -/
def clearspace (pStr : CStr) : CStr := (pStr.foldl clearspaceStep ([], false)).1

/-- `StrToLower`. -/
def strToLower (pStr : CStr) : CStr := pStr.map fun c => if c.isAlpha then c.toLower else c

/-! ## Checks -/

/-- `COMMON_NOT_ALLOW_CHAR`. -/
def commonNotAllowChar : CStr := ['\t', '\r', '\n', ',', ' ', '\x07']

/-- `USER_ALLOW_CHAR`. -/
def userAllowChar : CStr := ['-', '[', ']', '\\', '^', '\x7b', '\x7d', '|', '_', '\x60']

/-- `CommonStringCheck`. -/
def commonStringCheck (m : CStr) : Bool := !strpbrk m commonNotAllowChar

/-- `ChannelStringCheck`. -/
def channelStringCheck (pStr : CStr) : Bool :=
  commonStringCheck pStr && (strAt pStr 0 == '#' || strAt pStr 0 == '&')

/-- `NickStringCheck`. -/
def nickStringCheck (pStr : CStr) : Bool :=
  commonStringCheck pStr && pStr.all fun c => c.isAlphanum || userAllowChar.contains c

/-! ## The mode line -/

namespace ChannelMode

/-- `pMode->pModeStr[slot] = c`. -/
def setSlot (pMode : ChannelMode) (slot : ChanModeEnum) (c : Char) : ChannelMode :=
  { pMode with pModeStr := pMode.pModeStr.set slot.ctorIdx c }

end ChannelMode

/-- `ChannelModeToStr`, of a mode line that is shorter than 2 GiB. -/
def channelModeToStr (pMode : ChannelMode) : CStr :=
  let pModeStr := clearspace pMode.pModeStr
  -- keyword first, then limit; the second test looks through the keyword too
  let pModeStr :=
    match pMode.pKeyword with
    | some pKeyword => if 'k' ∈ pModeStr then pModeStr ++ ' ' :: pKeyword else pModeStr
    | none => pModeStr
  let pModeStr :=
    match pMode.pLimit with
    | some pLimit => if 'l' ∈ pModeStr then pModeStr ++ ' ' :: pLimit else pModeStr
    | none => pModeStr
  trim pModeStr

/-- The loop of `StrToChannelMode` that cuts the line into `n` parts; a part that
is not there is NULL. -/
def splitArgv : Nat → Option CStr → List (Option CStr)
  | 0, _ => []
  | n + 1, none => none :: splitArgv n none
  | n + 1, some pPos =>
    match cutFirst ' ' pPos with
    | some (pPos2, rest) => some pPos2 :: splitArgv n (some rest)
    | none => some pPos :: splitArgv n none

/-- The switch of `StrToChannelMode` on one letter, with the argument counter `j`. -/
def strToChannelModeStep (ppArgv : List (Option CStr)) (st : ChannelMode × Nat) (c : Char) :
    Option (ChannelMode × Nat) :=
  let (pMode, j) := st
  match c with
  | '+' => some (pMode.setSlot .modType '+', j)
  | '-' => some (pMode.setSlot .modType '-', j)
  | 'k' =>
    -- `strlen(ppArgv[j])`
    (ppArgv[j]?.join).map fun arg =>
      ({ pMode.setSlot .modKeyword 'k' with pKeyword := some arg }, j + 1)
  | 'l' =>
    (ppArgv[j]?.join).map fun arg =>
      ({ pMode.setSlot .modLimit 'l' with pLimit := some arg }, j + 1)
  | 't' => some (pMode.setSlot .modTopic 't', j)
  | 'n' => some (pMode.setSlot .modMessage 'n', j)
  | 'm' => some (pMode.setSlot .modModerat 'm', j)
  | 'p' => some (pMode.setSlot .modPrivat 'p', j)
  | 's' => some (pMode.setSlot .modSecret 's', j)
  | 'a' => some (pMode.setSlot .modAnonym 'a', j)
  | 'r' => some (pMode.setSlot .modReop 'r', j)
  | 'q' => some (pMode.setSlot .modQuiet 'q', j)
  | 'i' => some (pMode.setSlot .modInvite 'i', j)
  | _ => some (pMode, j)

/-- The mode a parse starts from: twelve blanks, no keyword, no limit. -/
def emptyChannelMode : ChannelMode := ⟨"            ".toList, none, none⟩

/-- `StrToChannelMode`. -/
def strToChannelMode (pModeStr : CStr) : Option ChannelMode :=
  let ppArgv := splitArgv 3 (some pModeStr)
  match ppArgv.head?.join with
  | some letters =>
    (letters.foldlM (strToChannelModeStep ppArgv) (emptyChannelMode, 1)).map Prod.fst
  | none => some emptyChannelMode

/-! ## The channel record -/

/-- `getTopic`, from `extract.c`: the text between the first two tabs. -/
def getTopic (pChannelSet : CStr) : Option CStr :=
  match cutFirst '\t' pChannelSet with
  | some (_, pPos) =>
    match cutFirst '\t' pPos with
    | some (pTopic, _) => if pTopic.isEmpty then none else some pTopic
    | none => none
  | none => none

/-- `getGreeting`, from `extract.c`: the text after the last tab. -/
def getGreeting (pChannelSet : CStr) : Option CStr :=
  match cutLast '\t' pChannelSet with
  | some (_, pGreeting) => if pGreeting.isEmpty then none else some pGreeting
  | none => none

/-- `getChannelMode`, from `extract.c`: the text before the first tab. -/
def getChannelMode (pChannelSet : CStr) : CStr :=
  match cutFirst '\t' pChannelSet with
  | some (pMod, _) => pMod
  | none => []

/-- `StrToChannelData`. -/
def strToChannelData (pChannelSet : CStr) : Option ChannelData :=
  (strToChannelMode (getChannelMode pChannelSet)).map fun sModes =>
    { sModes, pTopic := getTopic pChannelSet, pGreeting := getGreeting pChannelSet }

/-- `ChannelDataToStr`, of a record that is shorter than 2 GiB. -/
def channelDataToStr (pChannelData : ChannelData) : CStr :=
  channelModeToStr pChannelData.sModes ++ '\t' :: pChannelData.pTopic.getD [] ++
    '\t' :: pChannelData.pGreeting.getD []

end Ebotula
