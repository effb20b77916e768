import Ebotula.Flood
import Mathlib.Algebra.BigOperators.Fin
import Mathlib.Data.List.Induction

/-!
# The hour of the flood protection

A field of the ring is to hold the characters of the last minute of the clock that it stands for.
`GetCharPerMin` finds out which fields are of an hour ago from the seconds since the last call and
from the two indices, and they disagree at the turn of a minute and of an hour. `Counting` says
when the fields that a call resets are the right ones; a run counts right exactly as long as all
its calls meet it. The number of items is between 1 and 60 in any run.
-/

set_option autoImplicit false

namespace Ebotula

open Library

/-- A call of `GetCharPerMin`: when, and for how many characters. -/
structure Send where
  time : ℕ
  nCharCount : BitVec 32

/-- The wall-clock minute of a call. -/
def Send.minute (s : Send) : ℤ := (s.time : ℤ) / 60

/-- The characters sent in a minute. -/
def sentIn (sends : List Send) (minute : ℤ) : ℕ :=
  ((sends.filter fun s => s.minute = minute).map (·.nCharCount.toNat)).sum

/-- The characters sent less than an hour ago. -/
def sentLastHour (sends : List Send) (now : ℕ) : ℕ :=
  ((sends.filter fun s => now < s.time + 3600).map (·.nCharCount.toNat)).sum

/-- The variables after some calls. -/
def flood (sends : List Send) : FloodState :=
  sends.foldl (fun st s => (getCharPerMin s.time s.nCharCount st).2) .start

/-- No call is earlier than the one before. -/
def InOrder (sends : List Send) : Prop := sends.Pairwise fun s s' => s.time ≤ s'.time

/-- After a call every field holds the characters of the most recent minute that it stands for, the
number of items is one, and the answer is at most what was sent in the last hour. -/
structure CountsHour (before : List Send) (s : Send) : Prop where
  fields : ∀ k : Fin 60,
    ((getCharPerMin s.time s.nCharCount (flood before)).2.nCharMinute k).toInt =
      sentIn (before ++ [s]) (latest 60 s.minute (k : ℕ))
  items : 1 ≤ (getCharPerMin s.time s.nCharCount (flood before)).2.nItemCount ∧
    (getCharPerMin s.time s.nCharCount (flood before)).2.nItemCount ≤ 60
  answer : (getCharPerMin s.time s.nCharCount (flood before)).1 ≤
    sentLastHour (before ++ [s]) s.time

/-- The rule of `GetCharPerMin` for a field other than the current one. -/
def FloodState.Resets (st : FloodState) (diffMinTime : ℤ) (tm_min k : Fin 60) : Prop :=
  60 ≤ diffMinTime ∨ diffMinTime ≠ 0 ∧
    (tm_min < st.nLastIndex ∧ (st.nLastIndex ≤ k ∨ ((k : ℕ) : ℤ) < diffMinTime) ∨
      st.nLastIndex ≤ tm_min ∧ st.nLastIndex < k ∧ k < tm_min)

/-- A call that resets the right fields. -/
structure Counting (st : FloodState) (s : Send) : Prop where
  /-- the clock has started -/
  clock : s.time = 0 → s.nCharCount = 0
  /-- the characters of the minute fit an `int` -/
  fits : s.nCharCount.toNat +
    (if st.diffMinTime s.time = 0 then (st.nCharMinute (tmMin s.time)).toNat else 0) < 2 ^ 31
  /-- less than a minute later, but in the next one: nothing was sent in it an hour ago -/
  nextMinute : st.diffMinTime s.time = 0 → st.lastTime / 60 ≠ s.minute →
    st.nCharMinute (tmMin s.time) = 0
  /-- almost an hour later, in the minute of the same number: nothing was sent in between -/
  sameIndex : 0 < st.minutesGone s.time → st.minutesGone s.time < 60 →
    st.nLastIndex = tmMin s.time → ∀ k, k ≠ tmMin s.time → st.nCharMinute k = 0
  /-- past the full hour: nothing was sent in the minute of the last call, nor in the minutes of
  the hour before that lie behind this one by their numbers and before the number of minutes gone -/
  nextHour : 0 < st.minutesGone s.time → st.minutesGone s.time < 60 →
    tmMin s.time < st.nLastIndex → st.nCharMinute st.nLastIndex = 0 ∧
      ∀ k, tmMin s.time < k → k < st.nLastIndex → ((k : ℕ) : ℤ) < st.minutesGone s.time →
        st.nCharMinute k = 0
  /-- more minutes later than an `int` counts: nothing was sent in a minute whose field is kept -/
  wrapped : 2 ^ 31 ≤ st.minutesGone s.time → ∀ k, k ≠ tmMin s.time →
    ¬ st.Resets (st.diffMinTime s.time) (tmMin s.time) k → st.nCharMinute k = 0

/-! ## The characters of a minute -/

section Sent

variable {sends : List Send} {s : Send} {minute : ℤ}

theorem sentIn_append : sentIn (sends ++ [s]) minute =
    sentIn sends minute + if s.minute = minute then s.nCharCount.toNat else 0 := by
  rw [sentIn, List.filter_append, List.map_append, List.sum_append, ← sentIn]
  by_cases h : s.minute = minute <;> simp [h]

/-- Nothing is sent in a minute that is still to come. -/
theorem sentIn_future (h : ∀ s ∈ sends, s.minute < minute) : sentIn sends minute = 0 := by
  rw [sentIn, List.filter_eq_nil_iff.mpr]
  · rfl
  · intro s hs hminute
    have := h s hs
    have := of_decide_eq_true hminute
    omega

/-- The last 60 minutes lie within the last hour. -/
theorem sum_sentIn_le (now : ℕ) :
    ∑ minute ∈ Finset.Ioc ((now : ℤ) / 60 - 60) ((now : ℤ) / 60), sentIn sends minute ≤
      sentLastHour sends now := by
  induction sends with
  | nil => simp [sentIn]
  | cons s sends ih =>
    have hcons (minute : ℤ) : sentIn (s :: sends) minute =
        (if s.minute = minute then s.nCharCount.toNat else 0) + sentIn sends minute := by
      by_cases h : s.minute = minute <;> simp [sentIn, h]
    have hhour : sentLastHour (s :: sends) now =
        (if now < s.time + 3600 then s.nCharCount.toNat else 0) + sentLastHour sends now := by
      by_cases h : now < s.time + 3600 <;> simp [sentLastHour, h]
    simp only [hcons, Finset.sum_add_distrib, Finset.sum_ite_eq, Finset.mem_Ioc]
    rw [hhour]
    refine Nat.add_le_add ?_ ih
    split
    · next h =>
      rw [Send.minute] at h
      rw [if_pos (by omega)]
    · exact Nat.zero_le _

end Sent

/-! ## The variables in any run -/

section Call

variable {st : FloodState} {t : ℕ} {c : BitVec 32}

theorem getCharPerMin_zero : getCharPerMin (0 : ℕ) c st = ((0 : ℤ).tdiv st.nItemCount, st) := by
  rw [getCharPerMin, if_neg (by simp)]

theorem lastTime_getCharPerMin (ht : t ≠ 0) : (getCharPerMin t c st).2.lastTime = t := by
  rw [getCharPerMin, if_pos (by omega)]

theorem nLastIndex_getCharPerMin (ht : t ≠ 0) :
    (getCharPerMin t c st).2.nLastIndex = tmMin t := by
  rw [getCharPerMin, if_pos (by omega)]

theorem nFirstIndex_getCharPerMin (ht : t ≠ 0) : (getCharPerMin t c st).2.nFirstIndex =
    if st.nFirstIndex < 0 then ((tmMin t : ℕ) : ℤ) else st.nFirstIndex := by
  rw [getCharPerMin, if_pos (by omega)]

theorem nItemCount_getCharPerMin (ht : t ≠ 0) : (getCharPerMin t c st).2.nItemCount =
    st.countItems (getCharPerMin t c st).2.nFirstIndex (tmMin t) := by
  rw [getCharPerMin, if_pos (by omega)]

theorem nCharMinute_getCharPerMin (ht : t ≠ 0) (k : Fin 60) :
    (getCharPerMin t c st).2.nCharMinute k =
      if k = tmMin t then if st.diffMinTime t = 0 then c + st.nCharMinute (tmMin t) else c
      else st.resetFields (st.diffMinTime t) (tmMin t) k := by
  rw [getCharPerMin, if_pos (by omega)]
  exact Function.update_apply ..

/-- The answer is the sum of the new fields over the new number of items. -/
theorem fst_getCharPerMin (ht : t ≠ 0) : (getCharPerMin t c st).1 =
    (List.ofFn (getCharPerMin t c st).2.nCharMinute).sum.toInt.tdiv
      (getCharPerMin t c st).2.nItemCount := by
  rw [getCharPerMin, if_pos (by omega)]

end Call

/-- What holds of the variables after calls in order, whatever the fields hold. -/
structure Regular (before : List Send) (st : FloodState) : Prop where
  nonneg : 0 ≤ st.lastTime
  past : ∀ s ∈ before, s.time ≤ st.lastTime
  called : ∀ t : ℕ, (∀ s ∈ before, s.time ≤ t) → st.lastTime ≤ t
  unset : st.lastTime = 0 → ∀ k, st.nCharMinute k = 0
  index : st.nLastIndex = tmMin st.lastTime
  first : -1 ≤ st.nFirstIndex ∧ st.nFirstIndex < 60
  items : 1 ≤ st.nItemCount ∧ st.nItemCount ≤ 60

theorem Regular.start : Regular [] .start where
  nonneg := le_rfl
  past := nofun
  called t _ := Int.natCast_nonneg t
  unset _ _ := rfl
  index := by decide
  first := by decide
  items := by decide

/-- The number of items stays one, wherever the first one is. -/
theorem countItems_range {st : FloodState} {nFirstIndex : ℤ} {tm_min : Fin 60}
    (hfirst : 0 ≤ nFirstIndex ∧ nFirstIndex < 60)
    (hitems : 1 ≤ st.nItemCount ∧ st.nItemCount ≤ 60) :
    1 ≤ st.countItems nFirstIndex tm_min ∧ st.countItems nFirstIndex tm_min ≤ 60 := by
  have := tm_min.isLt
  rw [FloodState.countItems]
  split
  · split <;> omega
  · exact hitems

theorem Regular.call {before : List Send} {st : FloodState} {s : Send} (regular : Regular before st)
    (hlast : ∀ s' ∈ before, s'.time ≤ s.time) :
    Regular (before ++ [s]) (getCharPerMin s.time s.nCharCount st).2 := by
  have hle := regular.called s.time hlast
  have hnonneg := regular.nonneg
  by_cases ht : s.time = 0
  · have hzero : st.lastTime = 0 := by omega
    rw [ht, getCharPerMin_zero]
    refine { regular with past := fun s' hs' => ?_, called := fun t ht => ?_ }
    · rcases List.mem_append.mp hs' with hs' | hs'
      · exact regular.past s' hs'
      · rw [List.mem_singleton.mp hs', ht]
        exact hnonneg
    · exact hzero.le.trans (Int.natCast_nonneg t)
  · have hfirst := regular.first
    have hmin := (tmMin s.time).isLt
    have hnew : 0 ≤ (getCharPerMin s.time s.nCharCount st).2.nFirstIndex ∧
        (getCharPerMin s.time s.nCharCount st).2.nFirstIndex < 60 := by
      rw [nFirstIndex_getCharPerMin ht]
      split <;> omega
    constructor
    · rw [lastTime_getCharPerMin ht]
      omega
    · rw [lastTime_getCharPerMin ht]
      intro s' hs'
      rcases List.mem_append.mp hs' with hs' | hs'
      · exact_mod_cast hlast s' hs'
      · rw [List.mem_singleton.mp hs']
    · rw [lastTime_getCharPerMin ht]
      intro t hall
      exact_mod_cast hall s (List.mem_append_right _ (List.mem_singleton_self s))
    · rw [lastTime_getCharPerMin ht]
      omega
    · rw [lastTime_getCharPerMin ht, nLastIndex_getCharPerMin ht]
    · omega
    · rw [nItemCount_getCharPerMin ht]
      exact countItems_range hnew regular.items

theorem flood_append (before : List Send) (s : Send) :
    flood (before ++ [s]) = (getCharPerMin s.time s.nCharCount (flood before)).2 := by
  rw [flood, List.foldl_append]
  rfl

theorem InOrder.init {before : List Send} {s : Send} (h : InOrder (before ++ [s])) :
    InOrder before ∧ ∀ s' ∈ before, s'.time ≤ s.time := by
  obtain ⟨hbefore, -, hlast⟩ := List.pairwise_append.mp h
  exact ⟨hbefore, fun s' hs' => hlast s' hs' s (List.mem_singleton_self s)⟩

/-- Calls in order leave the variables regular. -/
theorem flood_regular {before : List Send} (h : InOrder before) :
    Regular before (flood before) := by
  induction before using List.reverseRecOn with
  | nil => exact .start
  | append_singleton before s ih =>
    obtain ⟨hbefore, hlast⟩ := h.init
    rw [flood_append]
    exact (ih hbefore).call hlast

/-! ## Which fields are reset -/

section Reset

variable {st : FloodState} {diffMinTime : ℤ} {tm_min k : Fin 60}

theorem resetFields_of_resets (h : st.Resets diffMinTime tm_min k) :
    st.resetFields diffMinTime tm_min k = 0 := by
  have hk := k.isLt
  simp only [FloodState.Resets, Fin.lt_def, Fin.le_def] at h
  simp only [FloodState.resetFields, gt_iff_lt, Fin.lt_def]
  by_cases hday : diffMinTime < 60
  · rw [if_pos hday, if_neg (by omega)]
    split
    · by_cases hwrap : 0 ≤ ((k : ℕ) : ℤ) ∧ ((k : ℕ) : ℤ) < diffMinTime
      · exact if_pos hwrap
      · rw [clearFields, if_neg hwrap, clearFields, if_pos (by omega)]
    · exact if_pos (by omega)
  · rw [if_neg hday]
    exact if_pos (by omega)

theorem resetFields_of_not_resets (h : ¬ st.Resets diffMinTime tm_min k) :
    st.resetFields diffMinTime tm_min k = st.nCharMinute k := by
  simp only [FloodState.Resets, Fin.lt_def, Fin.le_def] at h
  simp only [FloodState.resetFields, gt_iff_lt, Fin.lt_def]
  rw [if_pos (by omega)]
  split
  · rfl
  · split
    · rw [clearFields, if_neg (by omega), clearFields, if_neg (by omega)]
    · exact if_neg (by omega)

end Reset

theorem tmMin_eq (t : ℤ) : ((tmMin t : ℕ) : ℤ) = t / 60 % 60 :=
  Int.toNat_of_nonneg (Int.emod_nonneg _ (by decide))

/-- The minutes since the last call, once there was one. -/
theorem minutesGone_eq {st : FloodState} {t : ℕ} (hset : st.lastTime ≠ 0)
    (hle : st.lastTime ≤ t) : st.minutesGone t = (t - st.lastTime) / 60 := by
  rw [FloodState.minutesGone, if_pos hset, Int.tdiv_eq_ediv_of_nonneg (by omega)]

theorem minutesGone_unset {st : FloodState} {t : ℤ} (h : st.lastTime = 0) :
    st.minutesGone t = 0 := if_neg (not_not.mpr h)

/-- Fewer than 2^31 minutes are counted right. -/
theorem diffMinTime_eq {st : FloodState} {t : ℤ} (hnonneg : 0 ≤ st.minutesGone t)
    (hlt : st.minutesGone t < 2 ^ 31) : st.diffMinTime t = st.minutesGone t :=
  BitVec.toInt_ofInt_eq_self (by decide) (by omega) (by omega)

theorem diffMinTime_of_zero {st : FloodState} {t : ℤ} (h : st.minutesGone t = 0) :
    st.diffMinTime t = 0 := by
  rw [diffMinTime_eq h.ge (by omega), h]

/-- A field that a call resets without need, or does not reset though an hour has passed. -/
def FloodState.Misses (st : FloodState) (s : Send) (k : Fin 60) : Prop :=
  st.Resets (st.diffMinTime s.time) (tmMin s.time) k ↔
    latest 60 s.minute (k : ℕ) ≤ st.lastTime / 60

/-- The only calls that miss fields are those of `sameIndex`, `nextHour` and `wrapped`. -/
theorem misses_iff {st : FloodState} {s : Send} {k : Fin 60} (hset : st.lastTime ≠ 0)
    (hle : st.lastTime ≤ s.time)
    (hindex : st.nLastIndex = tmMin st.lastTime) (hk : k ≠ tmMin s.time) :
    st.Misses s k ↔ (0 < st.minutesGone s.time ∧ st.minutesGone s.time < 60 ∧
      (st.nLastIndex = tmMin s.time ∨ tmMin s.time < st.nLastIndex ∧ (k = st.nLastIndex ∨
        tmMin s.time < k ∧ k < st.nLastIndex ∧ ((k : ℕ) : ℤ) < st.minutesGone s.time))) ∨
      2 ^ 31 ≤ st.minutesGone s.time ∧
        ¬ st.Resets (st.diffMinTime s.time) (tmMin s.time) k := by
  have hlast := tmMin_eq st.lastTime
  rw [← hindex] at hlast
  have hmin := tmMin_eq s.time
  have hgone := minutesGone_eq hset hle
  have hlt := k.isLt
  by_cases hlong : 2 ^ 31 ≤ st.minutesGone s.time
  · -- every other field is of a minute since the last call
    have hlater : ¬ latest 60 s.minute (k : ℕ) ≤ st.lastTime / 60 := by
      rw [latest, Send.minute]
      omega
    rw [FloodState.Misses, iff_false_right hlater, or_iff_right (by omega)]
    exact (and_iff_right hlong).symm
  · have hdiff := @diffMinTime_eq st s.time (by omega) (by omega)
    simp only [FloodState.Misses, FloodState.Resets, hdiff, hlong, false_and, or_false, latest,
      Send.minute, Fin.lt_def, Fin.le_def, Fin.ext_iff, ne_eq] at hk ⊢
    omega

/-! ## One call -/

/-- The fields hold the characters of the minutes that they stand for. -/
def Exact (sends : List Send) (st : FloodState) : Prop :=
  ∀ k : Fin 60, (st.nCharMinute k).toInt = sentIn sends (latest 60 (st.lastTime / 60) (k : ℕ))

theorem toInt_eq_iff {x : BitVec 32} {n : ℕ} : x.toInt = n ↔ x.toNat = n ∧ n < 2 ^ 31 := by
  have := x.isLt
  rw [BitVec.toInt_eq_toNat_cond]
  split <;> omega

section Step

variable {before : List Send} {st : FloodState} {s : Send}

/-- In a minute up to the last call nothing changes, in a later one nothing was sent yet. -/
theorem sentIn_latest (regular : Regular before st) (hle : st.lastTime ≤ s.time) (k : Fin 60) :
    sentIn before (latest 60 s.minute (k : ℕ)) =
      if latest 60 s.minute (k : ℕ) ≤ st.lastTime / 60 then
        sentIn before (latest 60 (st.lastTime / 60) (k : ℕ))
      else 0 := by
  split
  · next hpast =>
    rw [latest_advance (by decide) ?_ hpast]
    rw [Send.minute]
    omega
  · next hfuture =>
    refine sentIn_future fun s' hs' => ?_
    have := regular.past s' hs'
    rw [Send.minute]
    omega

/-- The field of the current minute gets what was sent in it. -/
theorem current_iff (regular : Regular before st) (exact : Exact before st)
    (hle : st.lastTime ≤ s.time) (ht : s.time ≠ 0) :
    ((getCharPerMin s.time s.nCharCount st).2.nCharMinute (tmMin s.time)).toInt =
        sentIn (before ++ [s]) (latest 60 s.minute (tmMin s.time : ℕ)) ↔
      s.nCharCount.toNat + (if st.diffMinTime s.time = 0 then
          (st.nCharMinute (tmMin s.time)).toNat else 0) < 2 ^ 31 ∧
        (st.diffMinTime s.time = 0 → st.lastTime / 60 ≠ s.minute →
          st.nCharMinute (tmMin s.time) = 0) := by
  have hnow : latest 60 s.minute (tmMin s.time : ℕ) = s.minute := by
    rw [tmMin_eq, latest, Send.minute]
    omega
  have hold := toInt_eq_iff.mp (exact (tmMin s.time))
  have hbefore := sentIn_latest regular hle (tmMin s.time)
  have hminute : st.lastTime / 60 ≤ s.minute := by
    rw [Send.minute]
    omega
  have hfield : st.nCharMinute (tmMin s.time) = 0 ↔ (st.nCharMinute (tmMin s.time)).toNat = 0 :=
    BitVec.toNat_eq
  have hcount := s.nCharCount.isLt
  rw [nCharMinute_getCharPerMin ht, if_pos rfl, toInt_eq_iff, sentIn_append, hbefore, hnow,
    if_pos rfl, ← hold.1, hfield]
  -- within the minute the field is added to, and what stands there is of this minute or of one
  -- an hour ago
  by_cases hzero : st.diffMinTime s.time = 0
  · rw [if_pos hzero, if_pos hzero, BitVec.toNat_add]
    split <;> omega
  · have hset : st.lastTime ≠ 0 := fun h => hzero (diffMinTime_of_zero (minutesGone_unset h))
    have hgone := minutesGone_eq hset hle
    have hsome : st.minutesGone s.time ≠ 0 := fun h => hzero (diffMinTime_of_zero h)
    have hlater : ¬ s.minute ≤ st.lastTime / 60 := by
      rw [Send.minute]
      omega
    rw [if_neg hzero, if_neg hzero, if_neg hlater]
    omega

/-- Any other field is right unless the call misses it, and then if it is empty. -/
theorem other_iff (regular : Regular before st) (exact : Exact before st)
    (hle : st.lastTime ≤ s.time) (ht : s.time ≠ 0) {k : Fin 60} (hk : k ≠ tmMin s.time) :
    ((getCharPerMin s.time s.nCharCount st).2.nCharMinute k).toInt =
        sentIn (before ++ [s]) (latest 60 s.minute (k : ℕ)) ↔
      (st.Misses s k → st.nCharMinute k = 0) := by
  have hnow : s.minute ≠ latest 60 s.minute (k : ℕ) := by
    have hmin := tmMin_eq s.time
    have hlt := k.isLt
    rw [ne_eq, Fin.ext_iff] at hk
    rw [latest, Send.minute]
    omega
  have hempty : st.nCharMinute k = 0 ↔ (st.nCharMinute k).toInt = 0 := BitVec.toInt_inj.symm
  rw [nCharMinute_getCharPerMin ht, if_neg hk, sentIn_append, if_neg hnow, Nat.add_zero,
    sentIn_latest regular hle, FloodState.Misses, hempty, Nat.cast_ite, ← exact k]
  by_cases hreset : st.Resets (st.diffMinTime s.time) (tmMin s.time) k
  · rw [resetFields_of_resets hreset]
    by_cases hpast : latest 60 s.minute (k : ℕ) ≤ st.lastTime / 60
    · simp [hreset, hpast, eq_comm]
    · simp [hreset, hpast]
  · rw [resetFields_of_not_resets hreset]
    by_cases hpast : latest 60 s.minute (k : ℕ) ≤ st.lastTime / 60
    · simp [hreset, hpast]
    · simp [hreset, hpast]

/-- As long as the clock stands at 0 the fields stay empty. -/
theorem fields_iff_of_zero (regular : Regular before st) (exact : Exact before st)
    (hle : st.lastTime ≤ s.time) (ht : s.time = 0) :
    (∀ k : Fin 60, ((getCharPerMin s.time s.nCharCount st).2.nCharMinute k).toInt =
      sentIn (before ++ [s]) (latest 60 s.minute (k : ℕ))) ↔ Counting st s := by
  have hnonneg := regular.nonneg
  have hlast : st.lastTime = 0 := by omega
  have hminute : s.minute = 0 := by rw [Send.minute, ht]; rfl
  have hnothing (k : Fin 60) : sentIn before (latest 60 0 (k : ℕ)) = 0 := by
    have hk := exact k
    rw [regular.unset hlast k, hlast] at hk
    exact Int.natCast_eq_zero.mp hk.symm
  have hgone : st.minutesGone s.time = 0 := minutesGone_unset hlast
  rw [ht, getCharPerMin_zero, hminute]
  simp only [regular.unset hlast, sentIn_append, hnothing, hminute]
  constructor
  · intro h
    have hcount := toInt_eq_iff.mp (h 0)
    have hempty : s.nCharCount = 0 := by
      apply BitVec.eq_of_toNat_eq
      simpa [latest] using hcount.1.symm
    refine ⟨fun _ => hempty, ?_, fun _ _ => regular.unset hlast _, ?_, ?_,
      fun _ k _ _ => regular.unset hlast k⟩
    · rw [hempty, regular.unset hlast]
      split <;> decide
    · intro hpos
      omega
    · intro hpos
      omega
  · intro counting k
    rw [counting.clock ht]
    split <;> rfl

/-- A call leaves the right fields behind exactly if it counts. -/
theorem fields_iff (regular : Regular before st) (exact : Exact before st)
    (hle : st.lastTime ≤ s.time) :
    (∀ k : Fin 60, ((getCharPerMin s.time s.nCharCount st).2.nCharMinute k).toInt =
      sentIn (before ++ [s]) (latest 60 s.minute (k : ℕ))) ↔ Counting st s := by
  by_cases ht : s.time = 0
  · exact fields_iff_of_zero regular exact hle ht
  · constructor
    · intro h
      obtain ⟨hfits, hnext⟩ := (current_iff regular exact hle ht).mp (h _)
      have hcalled (hpos : 0 < st.minutesGone s.time) : st.lastTime ≠ 0 := fun h =>
        hpos.ne' (minutesGone_unset h)
      have hmissed {k : Fin 60} (hk : k ≠ tmMin s.time) (hset : st.lastTime ≠ 0)
          (hmiss : _) : st.nCharMinute k = 0 :=
        (other_iff regular exact hle ht hk).mp (h k)
          ((misses_iff hset hle regular.index hk).mpr hmiss)
      refine ⟨fun h => absurd h ht, hfits, hnext, ?_, ?_, ?_⟩
      · intro hpos hlt hindex k hk
        exact hmissed hk (hcalled hpos) (.inl ⟨hpos, hlt, .inl hindex⟩)
      · intro hpos hlt hindex
        refine ⟨hmissed hindex.ne' (hcalled hpos)
          (.inl ⟨hpos, hlt, .inr ⟨hindex, .inl rfl⟩⟩), ?_⟩
        intro k hmin hk hdiff
        exact hmissed hmin.ne' (hcalled hpos)
          (.inl ⟨hpos, hlt, .inr ⟨hindex, .inr ⟨hmin, hk, hdiff⟩⟩⟩)
      · intro hlong k hk hkept
        exact hmissed hk (hcalled (by omega)) (.inr ⟨hlong, hkept⟩)
    · intro counting k
      by_cases hk : k = tmMin s.time
      · rw [hk]
        exact (current_iff regular exact hle ht).mpr ⟨counting.fits, counting.nextMinute⟩
      · refine (other_iff regular exact hle ht hk).mpr fun hmiss => ?_
        by_cases hset : st.lastTime = 0
        · exact regular.unset hset k
        · rcases (misses_iff hset hle regular.index hk).mp hmiss with
            ⟨hpos, hlt, hindex | ⟨hindex, rfl | ⟨hmin, hbefore, hdiff⟩⟩⟩ | ⟨hlong, hkept⟩
          · exact counting.sameIndex hpos hlt hindex k hk
          · exact (counting.nextHour hpos hlt hindex).1
          · exact (counting.nextHour hpos hlt hindex).2 k hmin hbefore hdiff
          · exact counting.wrapped hlong k hk hkept

end Step

/-! ## The answer -/

/-- A sum of 32 bits is at most the sum of its numbers. -/
theorem toInt_sum_le (fields : List (BitVec 32)) :
    fields.sum.toInt ≤ ((fields.map (·.toNat)).sum : ℕ) := by
  have hnat : fields.sum.toNat ≤ (fields.map (·.toNat)).sum := by
    induction fields with
    | nil => exact le_rfl
    | cons x fields ih =>
      rw [List.sum_cons, BitVec.toNat_add, List.map_cons, List.sum_cons]
      exact (Nat.mod_le _ _).trans (Nat.add_le_add_left ih _)
  rw [BitVec.toInt_eq_toNat_cond]
  split <;> omega

/-- With the right fields the average is at most what was sent in the last hour. -/
theorem answer_le {sends : List Send} {s : Send} {st : FloodState}
    (fields : ∀ k : Fin 60, ((getCharPerMin s.time s.nCharCount st).2.nCharMinute k).toInt =
      sentIn sends (latest 60 s.minute (k : ℕ)))
    (items : 1 ≤ (getCharPerMin s.time s.nCharCount st).2.nItemCount) :
    (getCharPerMin s.time s.nCharCount st).1 ≤ sentLastHour sends s.time := by
  by_cases ht : s.time = 0
  · rw [ht, getCharPerMin_zero, Int.zero_tdiv]
    exact Int.natCast_nonneg _
  · have hall : ∑ k : Fin 60, sentIn sends (latest 60 s.minute (k : ℕ)) ≤
        sentLastHour sends s.time :=
      (sum_latest 60 s.minute (sentIn sends)).trans_le (sum_sentIn_le s.time)
    have hsum := toInt_sum_le (List.ofFn (getCharPerMin s.time s.nCharCount st).2.nCharMinute)
    have hnat (k : Fin 60) := (toInt_eq_iff.mp (fields k)).1
    have hmap : ((List.ofFn (getCharPerMin s.time s.nCharCount st).2.nCharMinute).map
        (·.toNat)).sum = ∑ k : Fin 60, sentIn sends (latest 60 s.minute (k : ℕ)) := by
      rw [List.map_ofFn, List.sum_ofFn]
      exact Finset.sum_congr rfl fun k _ => hnat k
    rw [fst_getCharPerMin ht]
    calc _ ≤ ((sentLastHour sends s.time : ℕ) : ℤ).tdiv
            (getCharPerMin s.time s.nCharCount st).2.nItemCount :=
          Int.tdiv_le_tdiv (by omega) (by omega)
      _ ≤ sentLastHour sends s.time := Int.tdiv_le_self _ (Int.natCast_nonneg _)

/-! ## A run -/

/-- Every call of a run, with the calls before it. -/
def EachCall (sends : List Send) (P : List Send → Send → Prop) : Prop :=
  ∀ before s after, sends = before ++ s :: after → P before s

theorem InOrder.call {sends before after : List Send} {s : Send} (h : InOrder sends)
    (hsends : sends = before ++ s :: after) : InOrder (before ++ [s]) := by
  rw [hsends, ← List.singleton_append, ← List.append_assoc] at h
  exact (List.pairwise_append.mp h).1

/-- A call on exact fields meets the claim of the hour exactly if it counts. -/
theorem countsHour_iff {before : List Send} {s : Send} (h : InOrder (before ++ [s]))
    (exact : Exact before (flood before)) :
    CountsHour before s ↔ Counting (flood before) s := by
  obtain ⟨hbefore, hlast⟩ := h.init
  have regular := flood_regular hbefore
  have hfields := fields_iff regular exact (regular.called s.time hlast)
  have hitems := (regular.call hlast).items
  constructor
  · intro counts
    exact hfields.mp counts.fields
  · intro counting
    have fields := hfields.mpr counting
    exact ⟨fields, hitems, answer_le fields hitems.1⟩

/-- A call that counts leaves exact fields for the next one. -/
theorem CountsHour.exact {before : List Send} {s : Send} (h : InOrder (before ++ [s]))
    (counts : CountsHour before s) : Exact (before ++ [s]) (flood (before ++ [s])) := by
  obtain ⟨hbefore, hlast⟩ := h.init
  have regular := flood_regular hbefore
  have hle := regular.called s.time hlast
  have hnonneg := regular.nonneg
  have htime : (flood (before ++ [s])).lastTime = s.time := by
    rw [flood_append]
    by_cases ht : s.time = 0
    · have hzero : (flood before).lastTime = 0 := by omega
      rw [ht, getCharPerMin_zero, hzero]
      rfl
    · exact lastTime_getCharPerMin ht
  intro k
  rw [htime, flood_append]
  exact counts.fields k

/-- In any run of calls in order the fields hold after every call what was sent in the last
minutes that they stand for, the number of items is between 1 and 60 and the answer at most what
was sent in the last hour, if and only if every call resets the right fields. -/
theorem flood_counts_iff {sends : List Send} (inOrder : InOrder sends) :
    EachCall sends CountsHour ↔ EachCall sends fun before s => Counting (flood before) s := by
  constructor
  · intro counts before s after hsends
    refine (countsHour_iff (inOrder.call hsends) ?_).mp (counts before s after hsends)
    induction before using List.reverseRecOn with
    | nil => exact fun _ => rfl
    | append_singleton before s' =>
      rw [List.append_assoc] at hsends
      exact (counts before s' _ hsends).exact (inOrder.call hsends)
  · intro counting before s after hsends
    have exact : Exact before (flood before) := by
      induction before using List.reverseRecOn generalizing s after with
      | nil => exact fun _ => rfl
      | append_singleton before s' ih =>
        rw [List.append_assoc] at hsends
        have hcall := inOrder.call hsends
        have counts := (countsHour_iff hcall (ih s' _ hsends)).mpr (counting before s' _ hsends)
        exact counts.exact hcall
    exact (countsHour_iff (inOrder.call hsends) exact).mpr (counting before s after hsends)

/-- Ten characters at one minute to one and five at one minute past one: the second call resets the
field of the first. -/
theorem flood_forgets_last_minute :
    ¬ ∀ sends, InOrder sends → EachCall sends CountsHour := by
  intro claim
  have counts := claim [⟨3540, 10⟩, ⟨3660, 5⟩] (by simp [InOrder]) [⟨3540, 10⟩] ⟨3660, 5⟩ [] rfl
  have hfield := counts.fields 59
  revert hfield
  decide

theorem EachCall.concat {P : List Send → Send → Prop} {sends : List Send} {s : Send}
    (each : EachCall sends P) (h : P sends s) : EachCall (sends ++ [s]) P := by
  intro before s' after hsends
  rcases List.eq_nil_or_concat after with rfl | ⟨after, last, rfl⟩
  · obtain ⟨rfl, hlast⟩ := List.append_inj' hsends rfl
    obtain rfl := List.singleton_inj.mp hlast
    exact h
  · rw [List.concat_eq_append, ← List.cons_append, ← List.append_assoc] at hsends
    exact each before s' after (List.append_inj' hsends rfl).1

/-- Two calls in different minutes, and one when both minutes are more than an hour ago. -/
theorem flood_counts_minute : EachCall [⟨60, 10⟩, ⟨200, 5⟩, ⟨8000, 7⟩] CountsHour := by
  have none : EachCall [] fun before s => Counting (flood before) s := by
    intro before s after h
    exact absurd h (by simp)
  have first : Counting (flood []) ⟨60, 10⟩ :=
    ⟨by decide, by decide, by decide, by decide, by decide, fun h => absurd h (by decide)⟩
  have second : Counting (flood [⟨60, 10⟩]) ⟨200, 5⟩ :=
    ⟨by decide, by decide, by decide, by decide, by decide, fun h => absurd h (by decide)⟩
  have third : Counting (flood [⟨60, 10⟩, ⟨200, 5⟩]) ⟨8000, 7⟩ :=
    ⟨by decide, by decide, by decide, by decide, by decide, fun h => absurd h (by decide)⟩
  have counting := ((none.concat first).concat second).concat third
  exact (flood_counts_iff (by simp [InOrder])).mpr counting

end Ebotula
