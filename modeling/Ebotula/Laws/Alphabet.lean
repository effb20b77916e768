import Ebotula.Laws.Effects
import Ebotula.Laws.RecordBuffers
import Ebotula.Laws.Trim
import Ebotula.Tasks
import Ebotula.Library.Contract

/-!
# The characters of a text

An alphabet is any set of characters with those that the bot writes of its own accord. Everything
the bot makes out of texts over an alphabet is a text over it: each extractor cuts a piece out of
its line, and the rest is put together from such pieces and from what is written in the source.
-/

set_option autoImplicit false

namespace Ebotula

open Library

/-- Printable ASCII, the tab of the channel record, and the mark of a CTCP message. -/
def isOwn (c : Char) : Bool := (32 ≤ c.toNat && c.toNat ≤ 126) || c = '\t' || c = '\x01'

/-- A set of characters with all that the bot writes of its own accord. -/
structure Alphabet where
  Has : Char → Prop
  own : ∀ c, isOwn c = true → Has c

namespace Alphabet

variable {A : Alphabet} {c d : Char} {s t x y : CStr}

/-- A text over the alphabet. -/
def Spells (A : Alphabet) (s : CStr) : Prop := ∀ c ∈ s, A.Has c

/-- A text that may be missing. -/
def SpellsOpt (A : Alphabet) (s : Option CStr) : Prop := ∀ t ∈ s, A.Spells t

@[simp] theorem spells_nil : A.Spells [] := fun _ h => absurd h List.not_mem_nil

@[simp] theorem spells_cons : A.Spells (c :: s) ↔ A.Has c ∧ A.Spells s := List.forall_mem_cons

@[simp] theorem spells_append : A.Spells (s ++ t) ↔ A.Spells s ∧ A.Spells t :=
  List.forall_mem_append

@[simp] theorem spellsOpt_none : A.SpellsOpt none := fun _ h => by cases h

@[simp] theorem spellsOpt_some : A.SpellsOpt (some s) ↔ A.Spells s :=
  ⟨fun h => h s rfl, fun h _ ht => Option.some.inj ht ▸ h⟩

theorem SpellsOpt.getD {s : Option CStr} (h : A.SpellsOpt s) (ht : A.Spells t) :
    A.Spells (s.getD t) := by
  cases s with
  | none => exact ht
  | some s => exact h s rfl

theorem SpellsOpt.congr {s : Option CStr} (h : A.SpellsOpt s) (hs : s = some t) :
    A.SpellsOpt (some t) := hs ▸ h

theorem SpellsOpt.bind {s : Option CStr} {f : CStr → Option CStr} (h : A.SpellsOpt s)
    (hf : ∀ t, A.Spells t → A.SpellsOpt (f t)) : A.SpellsOpt (s.bind f) := by
  cases s with
  | none => exact spellsOpt_none
  | some s => exact hf s (h s rfl)

theorem SpellsOpt.map {s : Option CStr} {f : CStr → CStr} (h : A.SpellsOpt s)
    (hf : ∀ t, A.Spells t → A.Spells (f t)) : A.SpellsOpt (s.map f) := by
  cases s with
  | none => exact spellsOpt_none
  | some s => exact spellsOpt_some.mpr (hf s (h s rfl))

/-- What stands in the source. -/
theorem spells_own (h : s.all isOwn = true) : A.Spells s := fun c hc =>
  A.own c (List.all_eq_true.mp h c hc)

theorem has_own (h : isOwn c = true) : A.Has c := A.own c h

/-- A literal is its characters, and need not be decoded for that. -/
theorem own_text {l : CStr} (h : l.all isOwn = true) :
    (String.ofList l).toList.all isOwn = true := by
  rw [String.toList_ofList]
  exact h

theorem spells_text {l : CStr} (h : l.all isOwn = true) : A.Spells (String.ofList l).toList :=
  spells_own (own_text h)

namespace Spells

theorem mono (h : A.Spells s) (hsub : t ⊆ s) : A.Spells t := fun c hc => h c (hsub hc)

theorem tail (h : A.Spells s) : A.Spells s.tail := h.mono (List.tail_subset s)

theorem take (n : Nat) (h : A.Spells s) : A.Spells (s.take n) := h.mono (List.take_subset n s)

theorem drop (n : Nat) (h : A.Spells s) : A.Spells (s.drop n) := h.mono (List.drop_subset n s)

theorem cString (h : A.Spells s) : A.Spells (cString s) :=
  h.mono (List.takeWhile_prefix _).subset

theorem cutFirst (h : A.Spells s) (hcut : cutFirst c s = some (x, y)) :
    A.Spells x ∧ A.Spells y := by
  obtain ⟨-, rfl⟩ := cutFirst_eq_some_iff.mp hcut
  simp only [spells_append, spells_cons] at h
  exact ⟨h.1, h.2.2⟩

theorem cutFirst_snd (h : A.Spells s) :
    A.SpellsOpt ((Library.cutFirst c s).map Prod.snd) := by
  intro t ht
  obtain ⟨⟨x, y⟩, hcut, rfl⟩ := Option.map_eq_some_iff.mp ht
  exact (h.cutFirst hcut).2

theorem cutLast (h : A.Spells s) (hcut : cutLast c s = some (x, y)) :
    A.Spells x ∧ A.Spells y := by
  induction s generalizing x with
  | nil => cases hcut
  | cons a s ih =>
    rw [Library.cutLast] at hcut
    obtain ⟨ha, hs⟩ := spells_cons.mp h
    split at hcut
    · next x' y' hrest =>
      obtain ⟨rfl, rfl⟩ := Prod.mk.inj (Option.some.inj hcut)
      exact ⟨spells_cons.mpr ⟨ha, (ih hs hrest).1⟩, (ih hs hrest).2⟩
    · split at hcut
      · obtain ⟨rfl, rfl⟩ := Prod.mk.inj (Option.some.inj hcut)
        exact ⟨spells_nil, hs⟩
      · cases hcut

theorem cutString (h : A.Spells s) (hcut : cutString t s = some (x, y)) :
    A.Spells x ∧ A.Spells y := by
  rw [cutString_eq_some hcut, spells_append, spells_append] at h
  exact ⟨h.1.1, h.2⟩

theorem strtokBuf (h : A.Spells s) : A.Spells (strtokBuf d s) := fun _ hc =>
  h _ (mem_of_mem_strtokBuf hc)

theorem trim (h : A.Spells s) : A.Spells (trim s) := h.mono (trim_subset s)

theorem clearspace (h : A.Spells s) : A.Spells (clearspace s) := h.mono (clearspace_subset s)

/-- The lower case of a letter is a letter. -/
theorem strToLower (h : A.Spells s) : A.Spells (strToLower s) := by
  rw [strToLower_eq_map]
  intro c hc
  obtain ⟨a, ha, rfl⟩ := List.mem_map.mp hc
  by_cases hupper : a.val ≥ 'A'.val ∧ a.val ≤ 'Z'.val
  · refine A.own _ ?_
    obtain ⟨h₁, h₂⟩ := toLower_of_upper hupper
    have hnat : a.toLower.toNat = a.toLower.val.toNat := rfl
    simp only [isOwn, hnat, Bool.or_eq_true, Bool.and_eq_true, decide_eq_true_eq]
    omega
  · rw [toLower_of_not_upper hupper]
    exact h a ha

end Spells

/-! ## Formats -/

/-- An argument of a format over the alphabet. -/
def Prints (A : Alphabet) : FmtArg → Prop
  | .str s => A.SpellsOpt s
  | .chr c => A.Has c
  | .int _ => True

theorem spells_digits (n : Nat) : A.Spells (Nat.toDigits 10 n) := by
  refine spells_own (List.all_eq_true.mpr fun c hc => ?_)
  have hdigit := Nat.isDigit_of_mem_toDigits (b := 10) (by decide) (by decide) hc
  obtain ⟨h0, h9⟩ := Bool.and_eq_true_iff.mp hdigit
  replace h0 : 48 ≤ c.toNat := UInt32.le_iff_toNat_le.mp (of_decide_eq_true h0)
  replace h9 : c.toNat ≤ 57 := UInt32.le_iff_toNat_le.mp (of_decide_eq_true h9)
  simp only [isOwn, Bool.or_eq_true, Bool.and_eq_true, decide_eq_true_eq]
  omega

theorem spells_sprintLong (n : Int) : A.Spells (sprintLong n) := by
  rw [sprintLong]
  split
  · exact spells_cons.mpr ⟨has_own (by decide), spells_digits _⟩
  · exact spells_digits _

/-- What is printed is made of the format and of the arguments. -/
theorem Spells.vsprintf {f : CStr} {args : List FmtArg} (hf : A.Spells f)
    (hargs : ∀ arg ∈ args, A.Prints arg) (h : vsprintf f args = some s) : A.Spells s := by
  fun_induction Library.vsprintf f args generalizing s with
  | case1 =>
    obtain rfl := Option.some.inj h
    exact spells_nil
  | case2 a f args _ ih =>
    obtain ⟨ha, hf⟩ := spells_cons.mp hf
    obtain ⟨t, ht, rfl⟩ := Option.map_eq_some_iff.mp h
    exact spells_cons.mpr ⟨ha, ih hf hargs ht⟩
  | case4 a args _ f ih =>
    obtain ⟨-, hpercent, hf⟩ := (spells_cons.trans (and_congr_right' spells_cons)).mp hf
    obtain ⟨t, ht, rfl⟩ := Option.map_eq_some_iff.mp h
    exact spells_cons.mpr ⟨hpercent, ih hf hargs ht⟩
  | case5 a _ f s' args _ ih =>
    obtain ⟨-, -, hf⟩ := (spells_cons.trans (and_congr_right' spells_cons)).mp hf
    obtain ⟨harg, hargs⟩ := List.forall_mem_cons.mp hargs
    obtain ⟨t, ht, rfl⟩ := Option.map_eq_some_iff.mp h
    exact spells_append.mpr
      ⟨SpellsOpt.getD harg (spells_own (by decide)), ih hf hargs ht⟩
  | case7 a _ f c args _ ih =>
    obtain ⟨-, -, hf⟩ := (spells_cons.trans (and_congr_right' spells_cons)).mp hf
    obtain ⟨harg, hargs⟩ := List.forall_mem_cons.mp hargs
    obtain ⟨t, ht, rfl⟩ := Option.map_eq_some_iff.mp h
    exact spells_cons.mpr ⟨harg, ih hf hargs ht⟩
  | case9 a _ k f _ n args _ ih =>
    obtain ⟨-, -, hf⟩ := (spells_cons.trans (and_congr_right' spells_cons)).mp hf
    obtain ⟨-, hargs⟩ := List.forall_mem_cons.mp hargs
    obtain ⟨t, ht, rfl⟩ := Option.map_eq_some_iff.mp h
    exact spells_append.mpr ⟨spells_sprintLong n, ih hf hargs ht⟩
  | case3 | case6 | case8 | case10 | case11 => cases h

/-- The alphabet with the NUL, which `strAt` answers at the end of a text. -/
def withNul (A : Alphabet) : Alphabet where
  Has c := A.Has c ∨ c = '\x00'
  own c h := .inl (A.own c h)

theorem Spells.withNul (h : A.Spells s) : A.withNul.Spells s := fun c hc => .inl (h c hc)

theorem Prints.withNul {arg : FmtArg} (h : A.Prints arg) : A.withNul.Prints arg := by
  cases arg with
  | str s => exact fun t ht => (h t ht).withNul
  | chr c => exact .inl h
  | int n => trivial

theorem has_strAt (h : A.Spells s) (n : Nat) : A.withNul.Has (strAt s n) := by
  rw [strAt, List.getD_eq_getElem?_getD]
  cases hn : s[n]? with
  | none => exact .inr rfl
  | some c => exact .inl (h c (List.mem_of_getElem? hn))

/-- As a string it has no NUL. -/
theorem spells_cString (h : A.withNul.Spells s) : A.Spells (cString s) := fun c hc => by
  rcases h c ((List.takeWhile_prefix _).subset hc) with h | rfl
  · exact h
  · exact absurd (List.mem_takeWhile_imp hc) (by decide)

/-! ## The extractors -/

/-- A text that was taken out, and what is left of the line. -/
def SpellsBoth (A : Alphabet) (p : Option CStr × CStr) : Prop := A.SpellsOpt p.1 ∧ A.Spells p.2

namespace Spells

theorem getNetmask (h : A.Spells s) : A.SpellsOpt (getNetmask s) := by
  cases s with
  | nil => exact spellsOpt_none
  | cons c rest =>
    obtain ⟨hc, hrest⟩ := spells_cons.mp h
    have hstr : A.Spells (c :: Library.strtokBuf ' ' rest) :=
      spells_cons.mpr ⟨hc, hrest.strtokBuf⟩
    unfold Ebotula.getNetmask
    dsimp only
    split_ifs
    · exact spellsOpt_some.mpr hstr.tail
    · exact spellsOpt_some.mpr hstr
    · exact spellsOpt_none

theorem getNickname (h : A.Spells s) : A.SpellsOpt (getNickname s) := by
  unfold Ebotula.getNickname
  have hmask := h.getNetmask
  cases hs : Ebotula.getNetmask s with
  | none => exact spellsOpt_none
  | some pStr =>
    dsimp only
    split
    · exact spellsOpt_some.mpr (hmask pStr hs).strtokBuf
    · exact spellsOpt_none

theorem getCommand (h : A.Spells s) : A.SpellsOpt (getCommand s) := by
  unfold Ebotula.getCommand
  split
  · obtain ⟨hc, hrest⟩ := spells_cons.mp h
    exact spellsOpt_some.mpr (spells_cons.mpr ⟨hc, hrest.strtokBuf⟩)
  · exact spellsOpt_none

theorem getArgument (h : A.Spells s) : A.SpellsBoth (getArgument s) := by
  unfold Ebotula.getArgument
  split
  · exact ⟨spellsOpt_none, h⟩
  · next before pStr hcut =>
    obtain ⟨hbefore, hstr⟩ := h.cutString hcut
    split
    · exact ⟨spellsOpt_none, h⟩
    · next word pPos hword =>
      obtain ⟨hword, hpos⟩ := hstr.cutFirst hword
      refine ⟨?_, ?_⟩
      · dsimp only
        split
        · exact spellsOpt_none
        · exact spellsOpt_some.mpr hpos.trim
      · simp only [spells_append, spells_cons]
        exact ⟨⟨⟨hbefore, spells_own (by decide)⟩, hword⟩, has_own (by decide), hpos.trim⟩

theorem getChannel (h : A.Spells s) : A.SpellsOpt (getChannel s) := by
  unfold Ebotula.getChannel
  have hcommand := h.getCommand
  cases hs : Ebotula.getCommand s with
  | none => exact spellsOpt_none
  | some pPreamble =>
    dsimp only
    split
    · next before rest hcut =>
      have hrest := ((hcommand pPreamble hs).cutFirst hcut).2
      exact spellsOpt_some.mpr (spells_cons.mpr ⟨has_own (by decide), hrest⟩).strtokBuf
    · exact spellsOpt_none

theorem getAccessChannel (h : A.Spells s) : A.SpellsBoth (getAccessChannel s) := by
  unfold Ebotula.getAccessChannel
  obtain ⟨harg, hline⟩ := h.getArgument
  split
  · next rest line hsplit =>
    rw [hsplit] at harg hline
    have hpar := (spellsOpt_some.mp harg).strtokBuf (d := ' ')
    refine ⟨?_, hline⟩
    dsimp only
    split
    · exact spellsOpt_some.mpr hpar
    · exact spellsOpt_none
  · next arg line _ hsplit =>
    rw [hsplit] at hline
    split
    · next pChannel hchannel => exact ⟨hline.getChannel.congr hchannel, hline⟩
    · split
      · next before rest hcut =>
        obtain ⟨hbefore, hrest⟩ := hline.cutString hcut
        have hchannel : A.Spells (Library.strtokBuf ' ' ('#' :: rest)) :=
          (spells_cons.mpr ⟨has_own (by decide), hrest⟩).strtokBuf
        refine ⟨spellsOpt_some.mpr hchannel, ?_⟩
        simp only [spells_append]
        exact ⟨⟨hbefore, spells_own (by decide)⟩, hchannel⟩
      · exact ⟨spellsOpt_none, hline⟩

theorem getParameters (h : A.Spells s) : A.SpellsBoth (getParameters s) := by
  unfold Ebotula.getParameters
  obtain ⟨harg, hline⟩ := h.getArgument
  split
  · next rest line hsplit =>
    rw [hsplit] at harg hline
    exact ⟨(spellsOpt_some.mp harg).cutFirst_snd, hline⟩
  · next par line _ hsplit =>
    rw [hsplit] at harg hline
    exact ⟨harg, hline⟩

theorem getBanmask (h : A.Spells s) {mask : Option CStr} (hmask : getBanmask s = some mask) :
    A.SpellsOpt mask := by
  unfold Ebotula.getBanmask at hmask
  have hnetmask := h.getNetmask
  cases hs : Ebotula.getNetmask s with
  | none =>
    rw [hs] at hmask
    cases hmask
    exact spellsOpt_none
  | some pStr =>
    rw [hs] at hmask
    dsimp only at hmask
    split at hmask
    · cases hmask
    · next nick userHost hcut =>
      have huser := ((hnetmask pStr hs).cutFirst hcut).2
      have hstr : A.Spells ('*' :: '!' :: userHost) := by
        simp only [spells_cons]
        exact ⟨has_own (by decide), has_own (by decide), huser⟩
      split at hmask
      · cases hmask
      · next beforeHost afterHost hhost =>
        have hbefore : A.Spells (beforeHost ++ ['@', '*']) :=
          spells_append.mpr ⟨(hstr.cutFirst hhost).1, spells_own (by decide)⟩
        split at hmask
        · next front domain hdomain =>
          cases hmask
          refine spellsOpt_some.mpr (spells_append.mpr ⟨hbefore, ?_⟩)
          exact spells_cons.mpr ⟨has_own (by decide), (hstr.cutFirst hdomain).2⟩
        · cases hmask
          exact spellsOpt_some.mpr hbefore

end Spells

/-- The parts of a text. -/
theorem SpellsOpt.getFirstPart {pLine pRest : Option CStr} (hline : A.SpellsOpt pLine)
    (hrest : A.SpellsOpt pRest) :
    A.SpellsOpt (getFirstPart pLine pRest).1 ∧ A.SpellsOpt (getFirstPart pLine pRest).2 := by
  unfold Ebotula.getFirstPart
  cases pLine with
  | none => exact ⟨spellsOpt_none, spellsOpt_none⟩
  | some pLine =>
    have hline := spellsOpt_some.mp hline
    dsimp only
    split
    · next pStr pPos hcut =>
      obtain ⟨hstr, hpos⟩ := hline.cutFirst hcut
      refine ⟨spellsOpt_some.mpr hstr, ?_⟩
      dsimp only
      split
      · exact spellsOpt_none
      · exact spellsOpt_some.mpr hpos
    · exact ⟨spellsOpt_some.mpr hline, hrest⟩

theorem SpellsOpt.rmFirstPart {pLine pRest : Option CStr} (hline : A.SpellsOpt pLine)
    (hrest : A.SpellsOpt pRest) : A.SpellsOpt (rmFirstPart pLine pRest) :=
  (hline.getFirstPart hrest).2

/-! ## The channel record -/

/-- The mode line of a record, with its parameters. -/
structure SpellsMode (A : Alphabet) (pMode : ChannelMode) : Prop where
  letters : A.Spells pMode.pModeStr
  length : pMode.pModeStr.length = maxModes + 1
  keyword : A.SpellsOpt pMode.pKeyword
  limit : A.SpellsOpt pMode.pLimit

structure SpellsData (A : Alphabet) (pChannelData : ChannelData) : Prop where
  modes : A.SpellsMode pChannelData.sModes
  topic : A.SpellsOpt pChannelData.pTopic
  greeting : A.SpellsOpt pChannelData.pGreeting

theorem Spells.set (h : A.Spells s) (i : Nat) (hc : A.Has c) : A.Spells (s.set i c) := by
  intro a ha
  rcases List.mem_or_eq_of_mem_set ha with ha | rfl
  · exact h a ha
  · exact hc

theorem SpellsMode.setSlot {pMode : ChannelMode} (h : A.SpellsMode pMode) (slot : ChanModeEnum)
    (hc : A.Has c) : A.SpellsMode (pMode.setSlot slot c) where
  letters := h.letters.set _ hc
  length := (List.length_set ..).trans h.length
  keyword := h.keyword
  limit := h.limit

theorem spells_splitArgv (n : Nat) {pPos : Option CStr} (h : A.SpellsOpt pPos) :
    ∀ arg ∈ splitArgv n pPos, A.SpellsOpt arg := by
  induction n generalizing pPos with
  | zero => exact fun _ h => absurd h List.not_mem_nil
  | succ n ih =>
    cases pPos with
    | none =>
      rw [splitArgv]
      exact List.forall_mem_cons.mpr ⟨spellsOpt_none, ih spellsOpt_none⟩
    | some pPos =>
      rw [splitArgv]
      split
      · next pPos2 rest hcut =>
        obtain ⟨hpos, hrest⟩ := (spellsOpt_some.mp h).cutFirst hcut
        exact List.forall_mem_cons.mpr ⟨spellsOpt_some.mpr hpos, ih (spellsOpt_some.mpr hrest)⟩
      · exact List.forall_mem_cons.mpr ⟨h, ih spellsOpt_none⟩

theorem SpellsMode.step {ppArgv : List (Option CStr)} (hargv : ∀ arg ∈ ppArgv, A.SpellsOpt arg)
    {st st' : ChannelMode × Nat} (h : A.SpellsMode st.1)
    (hstep : strToChannelModeStep ppArgv st c = some st') : A.SpellsMode st'.1 := by
  obtain ⟨pMode, j⟩ := st
  have harg : A.SpellsOpt ppArgv[j]?.join := fun arg ha => by
    exact hargv _ (List.mem_of_getElem? (Option.join_eq_some_iff.mp ha)) arg rfl
  unfold strToChannelModeStep at hstep
  dsimp only at hstep
  split at hstep
  case h_3 =>
    obtain ⟨arg, ha, rfl⟩ := Option.map_eq_some_iff.mp hstep
    have hslot := SpellsMode.setSlot h .modKeyword (has_own (c := 'k') (by decide))
    exact ⟨hslot.letters, hslot.length, spellsOpt_some.mpr (harg arg ha), hslot.limit⟩
  case h_4 =>
    obtain ⟨arg, ha, rfl⟩ := Option.map_eq_some_iff.mp hstep
    have hslot := SpellsMode.setSlot h .modLimit (has_own (c := 'l') (by decide))
    exact ⟨hslot.letters, hslot.length, hslot.keyword, spellsOpt_some.mpr (harg arg ha)⟩
  case h_14 =>
    cases hstep
    exact h
  all_goals
    cases hstep
    exact SpellsMode.setSlot h _ (has_own (by decide))

theorem Spells.strToChannelMode {pMode : ChannelMode} (h : A.Spells s)
    (hmode : strToChannelMode s = some pMode) : A.SpellsMode pMode := by
  have hempty : A.SpellsMode emptyChannelMode :=
    ⟨spells_own (by decide), rfl, spellsOpt_none, spellsOpt_none⟩
  have hargv := spells_splitArgv 3 (spellsOpt_some.mpr h)
  have loop (letters : CStr) {st st' : ChannelMode × Nat} (hst : A.SpellsMode st.1)
      (hloop : letters.foldlM (strToChannelModeStep (splitArgv 3 (some s))) st = some st') :
      A.SpellsMode st'.1 := by
    induction letters generalizing st with
    | nil =>
      cases hloop
      exact hst
    | cons c letters ih =>
      rw [List.foldlM_cons] at hloop
      obtain ⟨st₁, hstep, hrest⟩ := Option.bind_eq_some_iff.mp hloop
      exact ih (hst.step hargv hstep) hrest
  unfold Ebotula.strToChannelMode at hmode
  dsimp only at hmode
  split at hmode
  · obtain ⟨st, hst, rfl⟩ := Option.map_eq_some_iff.mp hmode
    exact loop _ hempty hst
  · cases hmode
    exact hempty

theorem spells_withParameter (letter : Char) {parameter : Option CStr} (hs : A.Spells s)
    (hp : A.SpellsOpt parameter) : A.Spells ((withParameter letter parameter s).getLastD s) := by
  cases parameter with
  | none => exact hs
  | some parameter =>
    rw [withParameter_some]
    split
    · simp only [List.getLastD_cons, List.getLastD_nil, spells_append]
      exact ⟨⟨hs, spells_own (by decide)⟩, spellsOpt_some.mp hp⟩
    · exact hs

theorem SpellsMode.channelModeToStr {pMode : ChannelMode} (h : A.SpellsMode pMode) :
    A.Spells (channelModeToStr pMode) := by
  rw [channelModeToStr_eq_trim, builtModeStr_eq]
  exact (spells_withParameter 'l' (spells_withParameter 'k' h.letters.clearspace h.keyword)
    h.limit).trim

theorem Spells.getTopic (h : A.Spells s) : A.SpellsOpt (getTopic s) := by
  unfold Ebotula.getTopic
  split
  · next before pPos hcut =>
    have hpos := (h.cutFirst hcut).2
    split
    · next pTopic after htopic =>
      split
      · exact spellsOpt_none
      · exact spellsOpt_some.mpr (hpos.cutFirst htopic).1
    · exact spellsOpt_none
  · exact spellsOpt_none

theorem Spells.getGreeting (h : A.Spells s) : A.SpellsOpt (getGreeting s) := by
  unfold Ebotula.getGreeting
  split
  · next before pGreeting hcut =>
    split
    · exact spellsOpt_none
    · exact spellsOpt_some.mpr (h.cutLast hcut).2
  · exact spellsOpt_none

theorem Spells.strToChannelData {pChannelData : ChannelData} (h : A.Spells s)
    (hdata : strToChannelData s = some pChannelData) : A.SpellsData pChannelData := by
  obtain ⟨sModes, hmodes, rfl⟩ := Option.map_eq_some_iff.mp hdata
  refine ⟨Spells.strToChannelMode ?_ hmodes, h.getTopic, h.getGreeting⟩
  unfold getChannelMode
  split
  · next pMod rest hcut => exact (h.cutFirst hcut).1
  · exact spells_nil

theorem SpellsData.channelDataToStr {pChannelData : ChannelData} (h : A.SpellsData pChannelData) :
    A.Spells (channelDataToStr pChannelData) := by
  have htab : A.Has '\t' := has_own (by decide)
  simp only [Ebotula.channelDataToStr, spells_append, spells_cons]
  exact ⟨⟨h.modes.channelModeToStr, htab, h.topic.getD spells_nil⟩, htab,
    h.greeting.getD spells_nil⟩

/-- The request of a `chanmode` goes into a record slot by slot. -/
theorem SpellsMode.mergeModes {sModes sNewMode : ChannelMode} (h : A.SpellsMode sModes)
    (hnew : A.SpellsMode sNewMode) : A.SpellsMode (mergeModes sModes sNewMode) := by
  have turn (pMode : ChannelMode) (hmode : A.SpellsMode pMode) (i : Nat) (hi : i ≤ maxModes) :
      A.SpellsMode (mergeMode sNewMode pMode i) := by
    have hc : A.Has (strAt sNewMode.pModeStr i) := by
      have hlt : i < sNewMode.pModeStr.length := by
        rw [hnew.length]
        omega
      rw [strAt, List.getD_eq_getElem?_getD, List.getElem?_eq_getElem hlt, Option.getD_some]
      exact hnew.letters _ (List.getElem_mem hlt)
    have hset := hmode.letters.set i hc
    have hclear := hmode.letters.set i (has_own (c := ' ') (by decide))
    have hlength (a : Char) : (pMode.pModeStr.set i a).length = maxModes + 1 :=
      (List.length_set ..).trans hmode.length
    unfold mergeMode
    dsimp only
    split_ifs
    · exact ⟨hset, hlength _, hnew.keyword, hmode.limit⟩
    · exact ⟨hset, hlength _, hmode.keyword, hnew.limit⟩
    · exact ⟨hset, hlength _, hmode.keyword, hmode.limit⟩
    · exact hmode
    · exact ⟨hclear, hlength _, spellsOpt_none, hmode.limit⟩
    · exact ⟨hclear, hlength _, hmode.keyword, spellsOpt_none⟩
    · exact ⟨hclear, hlength _, hmode.keyword, hmode.limit⟩
    · exact hmode
    · exact hmode
  have loop (slots : List Nat) (hslots : ∀ i ∈ slots, i ≤ maxModes) {pMode : ChannelMode}
      (hmode : A.SpellsMode pMode) : A.SpellsMode (slots.foldl (mergeMode sNewMode) pMode) := by
    induction slots generalizing pMode with
    | nil => exact hmode
    | cons i slots ih =>
      obtain ⟨hi, hslots⟩ := List.forall_mem_cons.mp hslots
      exact ih hslots (turn pMode hmode i hi)
  refine (loop _ (by decide) h).setSlot _ ?_
  split
  · exact has_own (by decide)
  · exact has_own (by decide)

end Alphabet

end Ebotula
