import Ebotula.Utilities
import Ebotula.Library.Block

/-!
# Strings that are changed where they stand

The routines of `utilities.c` that work on the memory of a string, once more with this memory:
`trim` and `clearspace` compact a string in its own block, `ChannelModeToStr` and
`ChannelDataToStr` build one in a block whose size they have computed. In `Utilities` the same
routines are functions of the text. Lengths, and the bytes that a routine asks `malloc` for, are
counted in an `int`, as the source does, and so a string of 2 GiB or more is not the string that
a routine sees.

`getArgument` of `extract.c` is here too, since it trims a part of the line where the line stands.
-/

set_option autoImplicit false

namespace Ebotula

open Library

namespace InPlace

/-- One turn of the loop of `trim`; the flag is `bIsAlpha`. -/
def trimTurn (st : Block.Cursor) (i : Nat) : Option Block.Cursor := do
  let c ← st.block.load i
  if c = ' ' ∧ st.flag then
    return { block := ← st.block.store st.j ' ', j := st.j + 1, flag := false }
  else if c ≠ '\n' ∧ c ≠ '\r' ∧ c ≠ ' ' ∧ c ≠ '\t' then
    return { block := ← st.block.store st.j c, j := st.j + 1, flag := true }
  else
    return st

/-- `trim`, with as many turns as `iLineLength` says. -/
def trim (pStr : Block) : Option Block := do
  let st ← (turns (strlenInt (← pStr.string))).foldlM trimTurn
    { block := pStr, j := 0, flag := false }
  let j ←
    if st.j > 0 then
      (st.block.load (st.j - 1)).map fun last => if last = ' ' then st.j - 1 else st.j
    else some st.j
  st.block.store j '\x00'

/-- One turn of the loop of `clearspace`; the flag is `noclr`. -/
def clearspaceTurn (st : Block.Cursor) (i : Nat) : Option Block.Cursor := do
  let c ← st.block.load i
  if c ≠ ' ' ∨ st.flag then
    if c = '"' ∧ !st.flag then return { st with flag := true }
    else if c = '"' ∧ st.flag then return { st with flag := false }
    else return { st with block := ← st.block.store st.j c, j := st.j + 1 }
  else
    return st

/-- `clearspace`: the loop takes the NUL with it. With the greatest `int` for its bound it would
not end. -/
def clearspace (pStr : Block) : Option Block := do
  let iLineLength := strlenInt (← pStr.string)
  guard (iLineLength < 2 ^ 31 - 1)
  let st ← (turns (iLineLength + 1)).foldlM clearspaceTurn
    { block := pStr, j := 0, flag := false }
  return st.block

/-! ## The argument of a line -/

/-- `trim(&pLine[i])`. -/
def trimAt (pLine : Block) (i : Nat) : Option Block :=
  (trim (pLine.drop i)).map (pLine.take i ++ ·)

/-- The turns of the loop of `getArgument`; the name of the command begins at `pLine[pStr]`. -/
def argumentLoop (pStr : Nat) : List Nat → Block → Option (Option CStr × Block)
  | [], pLine => some (none, pLine)
  | i :: rest, pLine => do
    if (← pLine.load (pStr + i)) = ' ' then
      let pLine ← trimAt pLine (pStr + i + 1)
      let pPos ← Block.string (pLine.drop (pStr + i + 1))
      if 0 < pPos.length then return (some pPos, pLine) else argumentLoop pStr rest pLine
    else argumentLoop pStr rest pLine

/-- `getArgument`: the loop takes the NUL with it. -/
def getArgument (pLine : Block) : Option (Option CStr × Block) := do
  match cutString " :!".toList (← pLine.string) with
  | none => return (none, pLine)
  | some (before, pStr) =>
    let iLineLen := strlenInt pStr
    guard (iLineLen < 2 ^ 31 - 1)
    argumentLoop (before.length + 3) (turns (iLineLen + 1)) pLine

/-! ## The record -/

/-- The parameter of a letter behind the mode line, with the block behind each call. -/
def addParameter (letter : Char) (parameter : Option CStr) (pModeStr : Block) :
    Option (List Block) := do
  let letters ← pModeStr.string
  match parameter with
  | some parameter =>
    if letter ∈ letters then
      let blank ← pModeStr.strcat " "
      return [blank, ← blank.strcat parameter]
    else
      return []
  | none => return []

/-- `ChannelModeToStr` in its block, up to `trim`: the block behind each call. -/
def modeContents (pModeStr : Block) (pMode : ChannelMode) : Option (List Block) := do
  let copied ← pModeStr.strcpy pMode.pModeStr
  let cleared ← clearspace copied
  -- keyword first, then limit; the second test looks through the keyword too
  let keyword ← addParameter 'k' pMode.pKeyword cleared
  let limit ← addParameter 'l' pMode.pLimit (keyword.getLastD cleared)
  return copied :: cleared :: (keyword ++ limit)

/-- The bytes that the mode line may need: `MAX_MODES` and 4, and those of the parameters. -/
def modeBytes (pMode : ChannelMode) : Nat :=
  maxModes + 4 + (pMode.pKeyword.getD []).length + (pMode.pLimit.getD []).length

/-- `ChannelModeToStr`. -/
def channelModeToStr (pMode : ChannelMode) : Option CStr := do
  let pModeStr ← malloc (ofInt (toInt (sizeT (modeBytes pMode))))
  let contents ← modeContents pModeStr pMode
  let trimmed ← trim (contents.getLastD pModeStr)
  trimmed.string

/-- The bytes that `ChannelDataToStr` allocates for its record, behind a mode line. -/
def recordBytes (pMode : CStr) (pChannelData : ChannelData) : Nat :=
  ofInt (toInt (sizeT (pMode.length + (pChannelData.pGreeting.getD []).length +
    (pChannelData.pTopic.getD []).length + 3)))

/-- `ChannelDataToStr`. -/
def channelDataToStr (pChannelData : ChannelData) : Option CStr := do
  let pMode ← channelModeToStr pChannelData.sModes
  let pChannelSet ← malloc (recordBytes pMode pChannelData)
  let printed ← pChannelSet.sprintf 0
    (pMode ++ '\t' :: pChannelData.pTopic.getD [] ++ '\t' :: pChannelData.pGreeting.getD [])
  printed.string

end InPlace

end Ebotula
