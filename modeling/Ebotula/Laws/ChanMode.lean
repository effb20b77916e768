import Ebotula.Laws.ChannelRecord
import Ebotula.Laws.RecordUpdates
import Ebotula.Runs

/-!
# The modes a channel record saves

What a mode line says, apart from its spelling, is a set of flags with a keyword and a
limit (`SavedModes`). A request adds flags to the set or takes some away. The merge loop of
`chanmode` does this slot by slot, for all slots but the last, the one of `i`; and it takes
its sign from a list of letters without `a`. So the record follows its requests exactly
as far as they change nothing about `i` and never leave `a` on its own.
-/

set_option autoImplicit false

namespace Ebotula

open Library

/-! ## What a mode says -/

/-- A set of flags, with the words of `k` and `l`. -/
@[ext] structure SavedModes where
  flags : Finset Flag
  keyword : Option CStr
  limit : Option CStr
  keyword_iff : keyword.isSome ↔ .keyword ∈ flags
  limit_iff : limit.isSome ↔ .limit ∈ flags

namespace SavedModes

/-- The mode that says it, under a sign. -/
def mode (s : SavedModes) (sign : Char) : ChannelMode :=
  ⟨modeStr sign (slotChar s.flags), s.keyword, s.limit⟩

/-- What is said about some of the flags. -/
def restrict (s : SavedModes) (fs : List Flag) : SavedModes where
  flags := s.flags.filter (· ∈ fs)
  keyword := if .keyword ∈ fs then s.keyword else none
  limit := if .limit ∈ fs then s.limit else none
  keyword_iff := by
    rw [Finset.mem_filter, ← s.keyword_iff]
    split
    · next h => exact (and_iff_left h).symm
    · next h => exact iff_of_false Bool.false_ne_true fun hf => h hf.2
  limit_iff := by
    rw [Finset.mem_filter, ← s.limit_iff]
    split
    · next h => exact (and_iff_left h).symm
    · next h => exact iff_of_false Bool.false_ne_true fun hf => h hf.2

/-- The flags of both; a word of the second takes the place of one of the first. -/
def add (s n : SavedModes) : SavedModes where
  flags := s.flags ∪ n.flags
  keyword := n.keyword.or s.keyword
  limit := n.limit.or s.limit
  keyword_iff := by
    rw [Finset.mem_union, ← s.keyword_iff, ← n.keyword_iff, Option.isSome_or, Bool.or_eq_true,
      or_comm]
  limit_iff := by
    rw [Finset.mem_union, ← s.limit_iff, ← n.limit_iff, Option.isSome_or, Bool.or_eq_true,
      or_comm]

/-- The flags of the first that are not in the second. -/
def remove (s n : SavedModes) : SavedModes where
  flags := s.flags \ n.flags
  keyword := if .keyword ∈ n.flags then none else s.keyword
  limit := if .limit ∈ n.flags then none else s.limit
  keyword_iff := by
    rw [Finset.mem_sdiff, ← s.keyword_iff]
    split
    · next h => exact iff_of_false Bool.false_ne_true fun hf => hf.2 h
    · next h => exact (and_iff_left h).symm
  limit_iff := by
    rw [Finset.mem_sdiff, ← s.limit_iff]
    split
    · next h => exact iff_of_false Bool.false_ne_true fun hf => hf.2 h
    · next h => exact (and_iff_left h).symm

/-- A sign in front of flags: a plus adds them, a minus removes them. -/
def change (s : SavedModes) (sign : Char) (n : SavedModes) : SavedModes :=
  if sign = '+' then s.add n else if sign = '-' then s.remove n else s

variable {s n : SavedModes} {sign nsign : Char} {f : Flag} {fs : List Flag}

theorem restrict_cons : n.restrict (f :: fs) = (n.restrict [f]).add (n.restrict fs) := by
  have words (g : Flag) (word : Option CStr) : (if g ∈ f :: fs then word else none) =
      (if g ∈ fs then word else none).or (if g ∈ [f] then word else none) := by
    by_cases hg : g ∈ fs
    · simp only [hg, List.mem_cons, or_true, if_true, List.not_mem_nil, or_false]
      split
      · exact Option.or_self.symm
      · exact Option.or_none.symm
    · simp only [hg, List.mem_cons, or_false, if_false, List.not_mem_nil, Option.none_or]
  ext1
  · ext g
    simp only [restrict, add, Finset.mem_filter, Finset.mem_union, List.mem_cons,
      List.not_mem_nil, or_false, and_or_left]
  · exact words _ _
  · exact words _ _

/-- Two changes of one sign are one. -/
theorem change_change (a b : SavedModes) :
    (s.change sign a).change sign b = s.change sign (a.add b) := by
  rw [change, change, change]
  split
  · ext1
    · exact Finset.union_assoc ..
    · exact (Option.or_assoc ..).symm
    · exact (Option.or_assoc ..).symm
  · split
    · have words (g : Flag) (word : Option CStr) :
          (if g ∈ b.flags then none else if g ∈ a.flags then none else word) =
            if g ∈ a.flags ∪ b.flags then none else word := by
        by_cases hb : g ∈ b.flags
        · rw [if_pos hb, if_pos (Finset.mem_union_right _ hb)]
        · simp only [hb, if_false, Finset.mem_union, or_false]
      ext1
      · exact sdiff_sdiff_left
      · exact words _ _
      · exact words _ _
    · rfl

end SavedModes

/-! ## The merge loop -/

section Merge

variable {s n : SavedModes} {sign nsign : Char} {f : Flag} {fs : List Flag}

theorem restrict_single_flags (hf : f ∈ n.flags) : (n.restrict [f]).flags = {f} := by
  ext g
  rw [SavedModes.restrict, Finset.mem_filter, List.mem_singleton, Finset.mem_singleton]
  exact ⟨And.right, fun h => ⟨h ▸ hf, h⟩⟩

/-- Nothing is changed where nothing is said. -/
theorem change_of_empty (hflags : n.flags = ∅) : s.change nsign n = s := by
  have hkeyword : n.keyword = none := by
    rw [← Option.not_isSome_iff_eq_none, n.keyword_iff, hflags]
    exact Finset.notMem_empty _
  have hlimit : n.limit = none := by
    rw [← Option.not_isSome_iff_eq_none, n.limit_iff, hflags]
    exact Finset.notMem_empty _
  rw [SavedModes.change]
  split
  · ext1
    · exact (congrArg _ hflags).trans (Finset.union_empty _)
    · exact congrArg (Option.or · _) hkeyword
    · exact congrArg (Option.or · _) hlimit
  · split
    · ext1
      · exact (congrArg _ hflags).trans (Finset.sdiff_empty)
      · exact if_neg (hflags ▸ Finset.notMem_empty _)
      · exact if_neg (hflags ▸ Finset.notMem_empty _)
    · rfl

theorem restrict_single_empty (hf : f ∉ n.flags) : (n.restrict [f]).flags = ∅ :=
  Finset.filter_false_of_mem fun g hg => by
    rw [List.mem_singleton]
    exact fun h => hf (h ▸ hg)

/-- One turn of the loop: the flag of the slot is added or removed. -/
theorem mergeMode_mode : mergeMode (n.mode nsign) (s.mode sign) f.slot.ctorIdx =
    (s.change nsign (n.restrict [f])).mode sign := by
  by_cases hf : f ∈ n.flags
  · have hc : slotChar n.flags f = f.letter := if_pos hf
    have hflags := restrict_single_flags hf
    have hplus : insert f s.flags = s.flags ∪ (n.restrict [f]).flags := by
      rw [hflags, Finset.union_comm, Finset.insert_eq]
    have hminus : s.flags.erase f = s.flags \ (n.restrict [f]).flags := by
      rw [hflags, Finset.erase_eq]
    simp only [mergeMode, SavedModes.mode, strAt_modeStr, strAt_modeStr_type, hc, ne_eq,
      f.letter_ne_blank, not_false_eq_true, if_true, set_modeStr, slotChar_insert,
      SavedModes.change]
    split
    · -- the word goes into the record with its flag
      have hkeyword : (n.restrict [f]).keyword = if .keyword ∈ [f] then n.keyword else none := rfl
      have hlimit : (n.restrict [f]).limit = if .limit ∈ [f] then n.limit else none := rfl
      simp only [SavedModes.add, ← hplus, hkeyword, hlimit]
      cases f
      case keyword =>
        obtain ⟨word, hword⟩ := Option.isSome_iff_exists.mp (n.keyword_iff.mpr hf)
        simp [hword, Flag.letter]
      case limit =>
        obtain ⟨word, hword⟩ := Option.isSome_iff_exists.mp (n.limit_iff.mpr hf)
        simp [hword, Flag.letter]
      all_goals simp [Flag.letter]
    · split
      · have hmem (g : Flag) : g ∈ (n.restrict [f]).flags ↔ g = f := by
          rw [hflags, Finset.mem_singleton]
        simp only [SavedModes.remove, ← hminus, hmem]
        cases f <;> simp [Flag.letter, set_modeStr, slotChar_erase]
      · rfl
  · have hc : slotChar n.flags f = ' ' := if_neg hf
    rw [change_of_empty (restrict_single_empty hf)]
    simp only [mergeMode, SavedModes.mode, strAt_modeStr, strAt_modeStr_type, hc, ne_eq,
      not_true_eq_false, if_false, ite_self]

theorem foldl_mergeMode : (fs.map (·.slot.ctorIdx)).foldl (mergeMode (n.mode nsign)) (s.mode sign) =
    (s.change nsign (n.restrict fs)).mode sign := by
  induction fs generalizing s with
  | nil =>
    have hflags : (n.restrict []).flags = ∅ :=
      Finset.filter_false_of_mem fun _ _ => List.not_mem_nil
    rw [change_of_empty hflags]
    rfl
  | cons f fs ih =>
    rw [List.map_cons, List.foldl_cons, mergeMode_mode, ih, SavedModes.change_change,
      ← SavedModes.restrict_cons]

/-- The sign `chanmode` gives to a set of flags: `a` alone does not count. -/
def signOf (flags : Finset Flag) : Char := if ∃ f ∈ flags, f ≠ .anonym then '+' else ' '

theorem signMode_mode (hsign : sign ∈ [' ', '+', '-']) :
    signMode (s.mode sign) = s.mode (signOf s.flags) := by
  have hletter : ∀ f : Flag, f.letter ∈ channelModes ↔ f ≠ .anonym := fun f => by
    cases f <;> decide
  have hbreak : strpbrk (modeStr sign (slotChar s.flags)) channelModes = true ↔
      ∃ f ∈ s.flags, f ≠ .anonym := by
    rw [strpbrk, List.any_eq_true]
    constructor
    · rintro ⟨c, hc, hset⟩
      have hset : c ∈ channelModes := List.contains_iff_mem.mp hset
      rcases List.mem_cons.mp hc with rfl | hc
      · simp only [List.mem_cons, List.not_mem_nil, or_false] at hsign
        rcases hsign with rfl | rfl | rfl <;> exact absurd hset (by decide)
      · obtain ⟨f, -, rfl⟩ := List.mem_map.mp hc
        by_cases hf : f ∈ s.flags
        · rw [slotChar, if_pos hf] at hset
          exact ⟨f, hf, (hletter f).mp hset⟩
        · rw [slotChar, if_neg hf] at hset
          exact absurd hset (by decide)
    · rintro ⟨f, hf, hne⟩
      refine ⟨f.letter, List.mem_cons_of_mem _ (List.mem_map.mpr ⟨f, f.mem_all, if_pos hf⟩), ?_⟩
      exact List.contains_iff_mem.mpr ((hletter f).mpr hne)
  simp only [signMode, SavedModes.mode, ChannelMode.setSlot, hbreak, set_modeStr_type, signOf]

/-- The record `chanmode` writes: the request changes every flag but `i`. -/
theorem mergeModes_mode (hsign : sign ∈ [' ', '+', '-']) :
    mergeModes (s.mode sign) (n.mode nsign) =
      (s.change nsign (n.restrict Flag.all.dropLast)).mode
        (signOf (s.change nsign (n.restrict Flag.all.dropLast)).flags) := by
  have hslots : List.range' 1 (maxModes - 1) = Flag.all.dropLast.map (·.slot.ctorIdx) := by decide
  rw [mergeModes, hslots, foldl_mergeMode, signMode_mode hsign]

end Merge

/-! ## Reading a mode line -/

section Read

variable {text : CStr} {m : ChannelMode}

theorem setSlot_mode {s : SavedModes} {sign : Char} {f : Flag} :
    (s.mode sign).setSlot f.slot f.letter =
      ⟨modeStr sign (slotChar (insert f s.flags)), s.keyword, s.limit⟩ := by
  rw [ChannelMode.setSlot, SavedModes.mode, set_modeStr, slotChar_insert]

/-- A letter of the line changes the sign, or adds one flag. -/
theorem strToChannelModeStep_mode {ppArgv : List (Option CStr)} {s : SavedModes} {sign c : Char}
    {j : Nat} {st : ChannelMode × Nat} (hsign : sign ∈ [' ', '+', '-'])
    (h : strToChannelModeStep ppArgv (s.mode sign, j) c = some st) :
    ∃ sign' ∈ [' ', '+', '-'], ∃ s' : SavedModes, st.1 = s'.mode sign' := by
  have letter (f : Flag) (hk : .keyword ≠ f) (hl : .limit ≠ f) : ∃ sign' ∈ [' ', '+', '-'],
      ∃ s' : SavedModes, (s.mode sign).setSlot f.slot f.letter = s'.mode sign' := by
    refine ⟨sign, hsign, ⟨insert f s.flags, s.keyword, s.limit, ?_, ?_⟩, setSlot_mode⟩
    · rw [Finset.mem_insert, or_iff_right hk, s.keyword_iff]
    · rw [Finset.mem_insert, or_iff_right hl, s.limit_iff]
  unfold strToChannelModeStep at h
  dsimp only at h
  split at h
  · cases h
    exact ⟨'+', by decide, s, rfl⟩
  · cases h
    exact ⟨'-', by decide, s, rfl⟩
  · obtain ⟨arg, -, rfl⟩ := Option.map_eq_some_iff.mp h
    refine ⟨sign, hsign, ⟨insert .keyword s.flags, some arg, s.limit, ?_, ?_⟩, ?_⟩
    · exact iff_of_true rfl (Finset.mem_insert_self _ _)
    · rw [Finset.mem_insert, or_iff_right (by decide), s.limit_iff]
    · exact congrArg (fun m : ChannelMode => { m with pKeyword := some arg })
        (@setSlot_mode s sign .keyword)
  · obtain ⟨arg, -, rfl⟩ := Option.map_eq_some_iff.mp h
    refine ⟨sign, hsign, ⟨insert .limit s.flags, s.keyword, some arg, ?_, ?_⟩, ?_⟩
    · rw [Finset.mem_insert, or_iff_right (by decide), s.keyword_iff]
    · exact iff_of_true rfl (Finset.mem_insert_self _ _)
    · exact congrArg (fun m : ChannelMode => { m with pLimit := some arg })
        (@setSlot_mode s sign .limit)
  iterate 9
    cases h
    first
      | exact letter .topic nofun nofun | exact letter .message nofun nofun
      | exact letter .moderat nofun nofun | exact letter .privat nofun nofun
      | exact letter .secret nofun nofun | exact letter .anonym nofun nofun
      | exact letter .reop nofun nofun | exact letter .quiet nofun nofun
      | exact letter .invite nofun nofun
  · cases h
    exact ⟨sign, hsign, s, rfl⟩

/-- Whatever a line is, the mode read from it is one with a sign and a set of flags. -/
theorem strToChannelMode_saved (h : strToChannelMode text = some m) :
    ∃ sign ∈ [' ', '+', '-'], ∃ s : SavedModes, m = s.mode sign := by
  let none' : SavedModes := ⟨∅, none, none, by simp, by simp⟩
  have fold {ppArgv : List (Option CStr)} {letters : CStr} {st st' : ChannelMode × Nat}
      (hst : ∃ sign ∈ [' ', '+', '-'], ∃ s : SavedModes, st.1 = s.mode sign)
      (hfold : letters.foldlM (strToChannelModeStep ppArgv) st = some st') :
      ∃ sign ∈ [' ', '+', '-'], ∃ s : SavedModes, st'.1 = s.mode sign := by
    induction letters generalizing st with
    | nil =>
      cases hfold
      exact hst
    | cons c letters ih =>
      obtain ⟨sign, hsign, s, hs⟩ := hst
      rw [List.foldlM_cons] at hfold
      obtain ⟨st₁, hstep, hrest⟩ := Option.bind_eq_some_iff.mp hfold
      rw [show st = (s.mode sign, st.2) from Prod.ext hs rfl] at hstep
      exact ih (strToChannelModeStep_mode hsign hstep) hrest
  rw [strToChannelMode] at h
  split at h
  · obtain ⟨st, hfold, rfl⟩ := Option.map_eq_some_iff.mp h
    exact fold ⟨' ', by decide, none', rfl⟩ hfold
  · cases h
    exact ⟨' ', by decide, none', rfl⟩

end Read

/-! ## Requests -/

/-- A `!chanmode` on the channel `K`: a sign, distinct letters, and a word for each of `k`
and `l`. -/
structure ModeRequest (K : Key) where
  env : Env
  pMsg : MsgItem
  sign : Char
  letters : List Flag
  pKeyword : CStr
  pLimit : CStr
  channel : pMsg.pAccessChannel.map key = some K
  parameters : pMsg.parameters = some (modeText sign letters pKeyword pLimit)
  sign_mem : sign = '+' ∨ sign = '-'
  nodup : letters.Nodup
  keyword_word : .keyword ∈ letters → IsWord pKeyword
  limit_word : .limit ∈ letters → IsWord pLimit

namespace ModeRequest

variable {G : Type} [DbLib G] {K : Key}

/-- The flags and words a request names. -/
def named (r : ModeRequest K) : SavedModes where
  flags := r.letters.toFinset
  keyword := if .keyword ∈ r.letters then some r.pKeyword else none
  limit := if .limit ∈ r.letters then some r.pLimit else none
  keyword_iff := by
    rw [List.mem_toFinset]
    split
    · next h => exact iff_of_true rfl h
    · next h => exact iff_of_false Bool.false_ne_true h
  limit_iff := by
    rw [List.mem_toFinset]
    split
    · next h => exact iff_of_true rfl h
    · next h => exact iff_of_false Bool.false_ne_true h

/-- The modes that are to be saved after a request. -/
def asked (r : ModeRequest K) (s : SavedModes) : SavedModes := s.change r.sign r.named

/-- One request, handled to its end. -/
def step (w : World G) (r : ModeRequest K) : Option (World G) :=
  ((chanmode r.pMsg).run (perform r.env) w).map Prod.snd

end ModeRequest

/-- The record says these modes. -/
def Saves (record : CStr) (s : SavedModes) : Prop :=
  ∃ d sign, strToChannelData record = some d ∧ d.sModes = s.mode sign

section Requests

variable {G : Type} [DbLib G] {K : Key} {w w' : World G}

/-- The channel has a record, as the bot writes them. -/
def Registered (K : Key) (w : World G) : Prop :=
  ∃ d : ChannelData, d.WellFormed ∧ channelRecord K w = some (channelDataToStr d)

/-- After the request the record says what was asked for, and its mode string begins with a
plus exactly when it says something at all. -/
def ModeRequest.Followed (r : ModeRequest K) (w w' : World G) : Prop :=
  ∀ record s, channelRecord K w = some record → Saves record s →
    ∃ record', channelRecord K w' = some record' ∧ Saves record' (r.asked s) ∧
      ((getChannelMode record').head? = some '+' ↔ (r.asked s).flags ≠ ∅)

/-- The request asks nothing new of `i`, and does not leave `a` as the only flag. -/
def ModeRequest.Kept (r : ModeRequest K) (w : World G) : Prop :=
  ∀ record s, channelRecord K w = some record → Saves record s →
    (.invite ∈ r.letters → (.invite ∈ s.flags ↔ r.sign = '+')) ∧
      (r.asked s).flags ≠ {.anonym}

/-! ### One request -/

theorem ModeRequest.strToChannelMode_eq (r : ModeRequest K) :
    strToChannelMode (modeText r.sign r.letters r.pKeyword r.pLimit) =
      some (r.named.mode r.sign) := by
  have hsign : r.sign ∈ [' ', '+', '-'] := by
    rcases r.sign_mem with h | h <;> rw [h] <;> decide
  exact strToChannelMode_text hsign r.nodup (fun h hb => ((r.keyword_word h).2 _ hb).1 rfl)
    fun h hb => ((r.limit_word h).2 _ hb).1 rfl

theorem SavedModes.mode_injective {s t : SavedModes} {a b : Char} (h : s.mode a = t.mode b) :
    s = t ∧ a = b := by
  obtain ⟨hstr, hkeyword, hlimit⟩ := ChannelMode.mk.inj h
  refine ⟨SavedModes.ext ?_ hkeyword hlimit, (List.cons.inj hstr).1⟩
  ext f
  have hf := congrArg (strAt · f.slot.ctorIdx) hstr
  simp only [strAt_modeStr] at hf
  rw [← not_iff_not, ← slotChar_eq_blank, ← slotChar_eq_blank, hf]

theorem slotChar_eq_letter {flags : Finset Flag} {f : Flag} :
    slotChar flags f = f.letter ↔ f ∈ flags := by
  rw [slotChar]
  split
  · next h => exact iff_of_true rfl h
  · next h => exact iff_of_false (Ne.symm f.letter_ne_blank) h

theorem SavedModes.mode_wellFormed {s : SavedModes} {sign : Char} (hsign : sign ∈ [' ', '+', '-'])
    (hkeyword : ∀ word ∈ s.keyword, IsWord word) (hlimit : ∀ word ∈ s.limit, IsWord word) :
    (s.mode sign).WellFormed where
  length := rfl
  sign := hsign
  slot f := by
    rw [SavedModes.mode, strAt_modeStr, slotChar]
    split
    · exact .inr rfl
    · exact .inl rfl
  keyword_iff := by
    rw [SavedModes.mode, strAt_modeStr, s.keyword_iff]
    exact slotChar_eq_letter.symm
  limit_iff := by
    rw [SavedModes.mode, strAt_modeStr, s.limit_iff]
    exact slotChar_eq_letter.symm
  keyword := hkeyword
  limit := hlimit

/-- The words after a change are words of one of the two sides. -/
theorem SavedModes.change_words {s n : SavedModes} {P : CStr → Prop} (sign : Char)
    (hs : (∀ word ∈ s.keyword, P word) ∧ ∀ word ∈ s.limit, P word)
    (hn : (∀ word ∈ n.keyword, P word) ∧ ∀ word ∈ n.limit, P word) :
    (∀ word ∈ (s.change sign n).keyword, P word) ∧ ∀ word ∈ (s.change sign n).limit, P word := by
  have either {a b : Option CStr} (ha : ∀ word ∈ a, P word) (hb : ∀ word ∈ b, P word) :
      ∀ word ∈ a.or b, P word := by
    cases a with
    | none => exact hb
    | some word => exact ha
  have less {a : Option CStr} {c : Prop} [Decidable c] (ha : ∀ word ∈ a, P word) :
      ∀ word ∈ if c then none else a, P word := by
    split
    · exact nofun
    · exact ha
  rw [SavedModes.change]
  split
  · exact ⟨either hn.1 hs.1, either hn.2 hs.2⟩
  · split
    · exact ⟨less hs.1, less hs.2⟩
    · exact hs

/-- The request less what the loop leaves out. -/
def ModeRequest.merged (r : ModeRequest K) : SavedModes := r.named.restrict Flag.all.dropLast

theorem ModeRequest.named_words (r : ModeRequest K) :
    (∀ word ∈ r.named.keyword, IsWord word) ∧ ∀ word ∈ r.named.limit, IsWord word := by
  constructor
  · intro word hword
    simp only [named] at hword
    split at hword
    · next h => exact Option.some.inj hword ▸ r.keyword_word h
    · cases hword
  · intro word hword
    simp only [named] at hword
    split at hword
    · next h => exact Option.some.inj hword ▸ r.limit_word h
    · cases hword

theorem mem_dropLast_all {f : Flag} : f ∈ Flag.all.dropLast ↔ f ≠ .invite := by
  cases f <;> decide

/-- What is left out makes no difference exactly where the request finds it done. -/
theorem ModeRequest.change_merged_iff (r : ModeRequest K) {s : SavedModes} :
    s.change r.sign r.merged = r.asked s ↔
      (.invite ∈ r.letters → (.invite ∈ s.flags ↔ r.sign = '+')) := by
  have hmem (f : Flag) : f ∈ r.merged.flags ↔ f ∈ r.letters ∧ f ≠ .invite := by
    rw [merged, SavedModes.restrict, Finset.mem_filter, mem_dropLast_all, named,
      List.mem_toFinset]
  have hnamed (f : Flag) : f ∈ r.named.flags ↔ f ∈ r.letters := List.mem_toFinset
  have hkeyword : r.merged.keyword = r.named.keyword := rfl
  have hlimit : r.merged.limit = r.named.limit := rfl
  rw [asked, SavedModes.change, SavedModes.change]
  rcases r.sign_mem with hsign | hsign
  · simp only [hsign, if_true, iff_true]
    constructor
    · intro h hletter
      have hinvite := congrArg (Flag.invite ∈ SavedModes.flags ·) h
      simp only [SavedModes.add, Finset.mem_union, hmem, hnamed, ne_eq, not_true_eq_false,
        and_false, or_false, hletter, or_true, eq_iff_iff, iff_true] at hinvite
      exact hinvite
    · intro h
      ext1
      · ext f
        simp only [SavedModes.add, Finset.mem_union, hmem, hnamed]
        by_cases hf : f = .invite
        · subst hf
          simp only [ne_eq, not_true_eq_false, and_false, or_false]
          exact ⟨.inl, fun h' => h'.elim id h⟩
        · simp only [hf, ne_eq, not_false_eq_true, and_true]
      · rfl
      · rfl
  · simp only [hsign, show ¬ ('-' : Char) = '+' by decide, if_false, if_true, iff_false]
    constructor
    · intro h hletter hs
      have hinvite := congrArg (Flag.invite ∈ SavedModes.flags ·) h
      simp only [SavedModes.remove, Finset.mem_sdiff, hmem, hnamed, ne_eq, not_true_eq_false,
        and_false, not_false_eq_true, and_true, hletter, hs, eq_iff_iff] at hinvite
      exact hinvite.mp trivial
    · intro h
      ext1
      · ext f
        simp only [SavedModes.remove, Finset.mem_sdiff, hmem, hnamed]
        by_cases hf : f = .invite
        · subst hf
          simp only [ne_eq, not_true_eq_false, and_false, not_false_eq_true, and_true]
          exact ⟨fun hs => ⟨hs, fun hletter => h hletter hs⟩, And.left⟩
        · simp only [hf, ne_eq, not_false_eq_true, and_true]
      · simp only [SavedModes.remove, hmem, hnamed, ne_eq, reduceCtorEq, not_false_eq_true,
          and_true]
      · simp only [SavedModes.remove, hmem, hnamed, ne_eq, reduceCtorEq, not_false_eq_true,
          and_true]

theorem signOf_eq_plus {flags : Finset Flag} :
    signOf flags = '+' ↔ flags ≠ ∅ ∧ flags ≠ {.anonym} := by
  rw [signOf]
  split
  · next h =>
    obtain ⟨f, hf, hne⟩ := h
    refine iff_of_true rfl ⟨Finset.ne_empty_of_mem hf, fun h => hne ?_⟩
    rw [h] at hf
    exact Finset.mem_singleton.mp hf
  · next h =>
    refine iff_of_false (by decide) fun ⟨hne, hone⟩ => ?_
    obtain ⟨f, hf⟩ := Finset.nonempty_iff_ne_empty.mpr hne
    exact hone (Finset.eq_singleton_iff_nonempty_unique_mem.mpr
      ⟨⟨f, hf⟩, fun g hg => not_not.mp fun hg' => h ⟨g, hg, hg'⟩⟩)

/-- A line begins with a plus exactly when that is its sign. -/
theorem head_channelModeToStr {s : SavedModes} {sign : Char} (h : (s.mode sign).WellFormed) :
    (channelModeToStr (s.mode sign)).head? = some '+' ↔ sign = '+' := by
  have hletter (f : Flag) : f.letter ≠ '+' := by cases f <;> decide
  rw [h.channelModeToStr_eq, modeText, withArgs]
  simp only [SavedModes.mode, strAt_modeStr_type, signText]
  by_cases hblank : sign = ' '
  · subst hblank
    refine iff_of_false (fun hhead => ?_) (by decide)
    cases hflags : setFlags (flagsOf (modeStr ' ' (slotChar s.flags))) with
    | nil =>
      rw [hflags] at hhead
      cases hhead
    | cons f fs =>
      rw [hflags] at hhead
      exact hletter f (Option.some.inj hhead)
  · simp only [hblank, if_false, List.cons_append, List.head?_cons, Option.some.injEq]

/-- A record with well-formed modes says them and nothing else. -/
theorem saves_iff {d : ChannelData} {s t : SavedModes} {sign : Char} (h : d.WellFormed)
    (hs : d.sModes = s.mode sign) : Saves (channelDataToStr d) t ↔ t = s := by
  have hback := strToChannelData_back h
  constructor
  · rintro ⟨d', sign', hd', ht⟩
    obtain rfl := Option.some.inj (hback.symm.trans hd')
    exact (SavedModes.mode_injective (ht.symm.trans hs)).1
  · rintro rfl
    exact ⟨d, sign, hback, hs⟩

/-- A request on a registered channel is handled to its end, the channel is still
registered, and the record follows the request exactly under the condition. -/
theorem ModeRequest.step_spec (r : ModeRequest K) (registered : Registered K w) :
    ∃ w', r.step w = some w' ∧ Registered K w' ∧ (r.Followed w w' ↔ r.Kept w) := by
  obtain ⟨d, hd, hrecord⟩ := registered
  have hback := strToChannelData_back hd
  obtain ⟨sign, hsign, s, hs⟩ : ∃ sign ∈ [' ', '+', '-'], ∃ s : SavedModes,
      d.sModes = s.mode sign := strToChannelMode_saved hd.modes.strToChannelMode
  let t := s.change r.sign r.merged
  let d' : ChannelData := { d with sModes := t.mode (signOf t.flags) }
  have hwords := hd.modes
  rw [hs] at hwords
  have htwords := SavedModes.change_words (n := r.merged) r.sign
    ⟨hwords.keyword, hwords.limit⟩ r.named_words
  have hsign' : signOf t.flags ∈ [' ', '+', '-'] := by
    rw [signOf]
    split <;> decide
  have hd' : d'.WellFormed :=
    ⟨SavedModes.mode_wellFormed hsign' htwords.1 htwords.2, hd.topic, hd.greeting⟩
  have hupdate : RecordJob.chanmode.update r.pMsg.parameters (channelDataToStr d) =
      some (channelDataToStr d') := by
    simp only [RecordJob.update, r.parameters, hback, r.strToChannelMode_eq, hs,
      mergeModes_mode hsign]
    rfl
  obtain ⟨⟨⟩, w', hrun, hrecord'⟩ := (RecordJob.handler_inPhase r.channel .chanmode).run_ends
    (recordCell_lawful K r.env) hrecord hupdate
  refine ⟨w', congrArg (Option.map Prod.snd) hrun, ⟨d', hd', hrecord'⟩, ?_⟩
  have hhead : (getChannelMode (channelDataToStr d')).head? = some '+' ↔ signOf t.flags = '+' := by
    rw [channelDataToStr, getChannelMode_record hd'.modes.tab_notMem]
    exact head_channelModeToStr hd'.modes
  have hfollowed : r.Followed w w' ↔
      r.asked s = t ∧ (signOf t.flags = '+' ↔ (r.asked s).flags ≠ ∅) := by
    constructor
    · intro h
      obtain ⟨record', hrec, hsaves, hplus⟩ := h _ s hrecord ((saves_iff hd hs).mpr rfl)
      obtain rfl := Option.some.inj (hrecord'.symm.trans hrec)
      exact ⟨(saves_iff hd' rfl).mp hsaves, hhead.symm.trans hplus⟩
    · rintro ⟨hasked, hplus⟩ record u hrec hsaves
      obtain rfl := Option.some.inj (hrecord.symm.trans hrec)
      obtain rfl := (saves_iff hd hs).mp hsaves
      exact ⟨_, hrecord', (saves_iff hd' rfl).mpr hasked, hhead.trans hplus⟩
  have hkept : r.Kept w ↔ (.invite ∈ r.letters → (.invite ∈ s.flags ↔ r.sign = '+')) ∧
      (r.asked s).flags ≠ {.anonym} := by
    constructor
    · exact fun h => h _ s hrecord ((saves_iff hd hs).mpr rfl)
    · intro h record u hrec hsaves
      obtain rfl := Option.some.inj (hrecord.symm.trans hrec)
      obtain rfl := (saves_iff hd hs).mp hsaves
      exact h
  rw [hfollowed, hkept, ← r.change_merged_iff, eq_comm]
  refine and_congr_right fun hasked => ?_
  rw [← hasked, signOf_eq_plus]
  exact ⟨fun h hone => (h.mpr (hone ▸ Finset.singleton_ne_empty _)).2 hone,
    fun h => ⟨And.left, fun hne => ⟨hne, h⟩⟩⟩

/-! ### Runs of requests -/

/-- Any requests on a registered channel are handled to their end, and every one of them is
followed by the record exactly if every one asks nothing new of `i` and none leaves `a` as
the only flag. -/
theorem chanmode_followed (registered : Registered K w) (rs : List (ModeRequest K)) :
    (∃ w', rs.foldlM ModeRequest.step w = some w') ∧
      (Along ModeRequest.step (fun w r w' => r.Followed w w') w rs ↔
        Along ModeRequest.step (fun w r _ => r.Kept w) w rs) := by
  induction rs generalizing w with
  | nil => exact ⟨⟨w, rfl⟩, Iff.rfl⟩
  | cons r rs ih =>
    obtain ⟨w₁, hstep, registered₁, hiff⟩ := r.step_spec registered
    obtain ⟨⟨w', hrest⟩, halong⟩ := ih registered₁
    refine ⟨⟨w', ?_⟩, ?_⟩
    · rw [List.foldlM_cons, hstep]
      exact hrest
    · simp only [Along, hstep, Option.some.injEq, forall_eq', hiff, halong]

end Requests

/-! ## One channel -/

/-- A request of `root` for one letter without a word. -/
def plusRequest (text : String) (f : Flag) (hkeyword : f ≠ .keyword) (hlimit : f ≠ .limit)
    (channel : (rootItem text).pAccessChannel.map key = some (key "#c"))
    (parameters : (rootItem text).parameters = some ['+', f.letter]) : ModeRequest (key "#c") where
  env := calmEnv
  pMsg := rootItem text
  sign := '+'
  letters := [f]
  pKeyword := []
  pLimit := []
  channel := channel
  parameters := by
    rw [parameters]
    cases f <;> first | rfl | exact absurd rfl hkeyword | exact absurd rfl hlimit
  sign_mem := .inl rfl
  nodup := List.nodup_singleton f
  keyword_word h := absurd (List.mem_singleton.mp h).symm hkeyword
  limit_word h := absurd (List.mem_singleton.mp h).symm hlimit

def topicRequest : ModeRequest (key "#c") :=
  plusRequest "!chanmode #c +t" .topic nofun nofun (by decide +kernel) (by decide +kernel)

def inviteRequest : ModeRequest (key "#c") :=
  plusRequest "!chanmode #c +i" .invite nofun nofun (by decide +kernel) (by decide +kernel)

/-- Nothing is said in the record of a new channel. -/
def noModes : SavedModes := ⟨∅, none, none, by simp, by simp⟩

def newChannel : ChannelData := ⟨noModes.mode ' ', none, none⟩

theorem newChannel_wellFormed : newChannel.WellFormed :=
  ⟨SavedModes.mode_wellFormed (by decide) nofun nofun, nofun, nofun⟩

theorem channelRecord_channelBot :
    channelRecord (key "#c") channelBot = some (channelDataToStr newChannel) := by decide +kernel

theorem channelBot_saves {record : CStr} {s : SavedModes}
    (hrecord : channelRecord (key "#c") channelBot = some record) (hsaves : Saves record s) :
    s = noModes := by
  obtain rfl := Option.some.inj (channelRecord_channelBot.symm.trans hrecord)
  exact (saves_iff newChannel_wellFormed rfl).mp hsaves

/-- A `+t` is saved. -/
theorem chanmode_followed_topic :
    Along ModeRequest.step (fun w r w' => r.Followed w w') channelBot [topicRequest] := by
  have registered : Registered (key "#c") channelBot :=
    ⟨newChannel, newChannel_wellFormed, channelRecord_channelBot⟩
  refine (chanmode_followed registered [topicRequest]).2.mpr fun w' _ => ⟨?_, trivial⟩
  intro record s hrecord hsaves
  obtain rfl := channelBot_saves hrecord hsaves
  exact ⟨nofun, by decide⟩

/-- A `+i` is not: the record is the one that was there. -/
theorem chanmode_lost_invite : ∃ w', inviteRequest.step channelBot = some w' ∧
    channelRecord (key "#c") w' = some "\t\t".toList ∧
    ¬ inviteRequest.Followed channelBot w' := by
  have computed : (inviteRequest.step channelBot).bind (channelRecord (key "#c")) =
      some "\t\t".toList := by decide +kernel
  obtain ⟨w', hstep, hrecord⟩ := Option.bind_eq_some_iff.mp computed
  refine ⟨w', hstep, hrecord, fun hfollowed => ?_⟩
  obtain ⟨record', hrecord', hsaves, -⟩ := hfollowed _ noModes channelRecord_channelBot
    ((saves_iff newChannel_wellFormed rfl).mpr rfl)
  obtain rfl := Option.some.inj (hrecord.symm.trans hrecord')
  have hsame : inviteRequest.asked noModes = noModes :=
    (saves_iff newChannel_wellFormed rfl).mp hsaves
  exact absurd (congrArg SavedModes.flags hsame) (by decide)

end Ebotula
