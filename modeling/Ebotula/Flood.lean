import Ebotula.Library.Ring
import Mathlib.Data.BitVec

/-!
# The flood protection

`GetCharPerMin` of `network.c`: how many characters the bot sends in a minute, as an average over
the last hour. The hour is a ring of 60 fields, one for each minute of the clock, and the static
variables of the file are `FloodState`. A time is a `time_t` and an `Int` here; the minutes between
two of them are counted in an `int`. The fields and the sums are of 32 bits.
-/

set_option autoImplicit false

namespace Ebotula

/-- The static variables that `GetCharPerMin` keeps from call to call. -/
structure FloodState where
  nCharMinute : Fin 60 → BitVec 32
  lastTime : Int
  nLastIndex : Fin 60
  nItemCount : Int
  nFirstIndex : Int

/-- Their values at the start of the program. -/
def FloodState.start : FloodState := ⟨fun _ => 0, 0, 0, 1, -1⟩

/-- `localtime(&currTime)->tm_min`. -/
def tmMin (currTime : Int) : Fin 60 := ⟨(currTime / 60 % 60).toNat, by omega⟩

/-- The minutes from the last update, if there was one. -/
def FloodState.minutesGone (st : FloodState) (currTime : Int) : Int :=
  if st.lastTime ≠ 0 then (currTime - st.lastTime).tdiv 60 else 0

/-- The difference from the last update: the minutes, in an `int`. -/
def FloodState.diffMinTime (st : FloodState) (currTime : Int) : Int :=
  (BitVec.ofInt 32 (st.minutesGone currTime)).toInt

/-- `for (i=first;i<last;i++) {nCharMinute[i]=0;}`. -/
def clearFields (first last : Int) (nCharMinute : Fin 60 → BitVec 32) : Fin 60 → BitVec 32 :=
  fun i => if first ≤ (i : ℕ) ∧ ((i : ℕ) : Int) < last then 0 else nCharMinute i

/-- The reset of the fields between the last update and now. -/
def FloodState.resetFields (st : FloodState) (diffMinTime : Int) (tm_min : Fin 60) :
    Fin 60 → BitVec 32 :=
  if diffMinTime < 60 then
    if diffMinTime = 0 then st.nCharMinute
    else if st.nLastIndex > tm_min then
      clearFields 0 diffMinTime (clearFields (st.nLastIndex : ℕ) 60 st.nCharMinute)
    else clearFields ((st.nLastIndex : ℕ) + 1) (tm_min : ℕ) st.nCharMinute
  else clearFields 0 60 st.nCharMinute

/-- How many fields are in use, until all are. -/
def FloodState.countItems (st : FloodState) (nFirstIndex : Int) (tm_min : Fin 60) : Int :=
  if st.nItemCount < 60 ∧ st.nLastIndex ≠ tm_min then
    if (tm_min : ℕ) ≥ nFirstIndex then (tm_min : ℕ) - nFirstIndex + 1
    else 60 - nFirstIndex + (tm_min : ℕ) + 1
  else st.nItemCount

/-- `GetCharPerMin`, called at a time: what it returns and what it leaves behind. -/
def getCharPerMin (currTime : Int) (nCharCount : BitVec 32) (st : FloodState) :
    Int × FloodState :=
  if currTime ≠ 0 then
    let tm_min := tmMin currTime
    let diffMinTime := st.diffMinTime currTime
    let nCharCount := if diffMinTime = 0 then nCharCount + st.nCharMinute tm_min else nCharCount
    let nFirstIndex := if st.nFirstIndex < 0 then ((tm_min : ℕ) : Int) else st.nFirstIndex
    let nItemCount := st.countItems nFirstIndex tm_min
    let nCharMinute := Function.update (st.resetFields diffMinTime tm_min) tm_min nCharCount
    let nSum := (List.ofFn nCharMinute).sum
    (nSum.toInt.tdiv nItemCount, ⟨nCharMinute, currTime, tm_min, nItemCount, nFirstIndex⟩)
  else ((0 : Int).tdiv st.nItemCount, st)

end Ebotula
