import Ebotula.Laws.InPlace

/-!
# The buffers of the mode line and of the channel record

`ChannelModeToStr` grows a string in one block: the letters of the mode, and behind them the
parameters of `k` and `l`. What stands in the block is at most the twelve letters and, for each
parameter, a blank and the parameter; with the NUL this is as many bytes as the routine has
counted, and none to spare. `ChannelDataToStr` prints a record that is two tabs and a NUL longer
than its three parts, and counts exactly this, in an `int`.
-/

set_option autoImplicit false

namespace Ebotula

open Library

/-! ## `clearspace` where the string stands -/

section Clearspace

variable {b : Block} {s : CStr} {st : CStr × Bool} {i : Nat} {c : Char}

theorem length_clearspaceStep (st : CStr × Bool) (c : Char) :
    (clearspaceStep st c).1.length ≤ st.1.length + 1 := by
  unfold clearspaceStep
  split_ifs
  · exact Nat.le_succ _
  · exact Nat.le_succ _
  · rw [List.length_append, List.length_singleton]
  · exact Nat.le_succ _

theorem InPlace.clearspaceTurn_eq (hle : st.1.length ≤ i) (hi : i < b.length)
    (hread : b.load i = some c) :
    clearspaceTurn (b.cursor st) i = some (b.cursor (clearspaceStep st c)) := by
  obtain ⟨out, flag⟩ := st
  have hroom : out.length < b.length := Nat.lt_of_le_of_lt hle hi
  have hload : (b.overwrite out).load i = some c := by
    rw [Block.load_overwrite_of_le hle, hread]
  simp only [clearspaceTurn, clearspaceStep, Block.cursor, hload, Option.bind_eq_bind,
    Option.bind_some, Block.store_overwrite hroom, Option.pure_def]
  split_ifs
  · rfl
  · rfl
  · rw [List.length_append, List.length_singleton]
  · rfl

/-- The NUL is neither a blank nor a quote, so it is taken along. -/
theorem foldl_clearspaceStep_nul (s : CStr) :
    ((s ++ ['\x00']).foldl clearspaceStep ([], false)).1 = clearspace s ++ ['\x00'] := by
  rw [List.foldl_append, clearspace]
  generalize s.foldl clearspaceStep ([], false) = st
  obtain ⟨out, flag⟩ := st
  cases flag <;> rfl

/-- A character is read for each one that is written. -/
theorem length_clearspace_le (s : CStr) : (clearspace s).length ≤ s.length := by
  have hfold (st : CStr × Bool) :
      (s.foldl clearspaceStep st).1.length ≤ st.1.length + s.length := by
    induction s generalizing st with
    | nil => exact Nat.le_refl _
    | cons c s ih =>
      have hstep := length_clearspaceStep st c
      have hrest := ih (clearspaceStep st c)
      rw [List.foldl_cons, List.length_cons]
      omega
  simpa [clearspace] using hfold ([], false)

theorem InPlace.clearspace_block (hs : b.string = some s) (hlen : s.length < 2 ^ 31 - 1) :
    clearspace b = some (b.overwrite (Ebotula.clearspace s ++ ['\x00'])) := by
  have hlength : (s ++ ['\x00']).length = s.length + 1 := List.length_append
  have hlt := Block.length_of_string hs
  have hread : ∀ i < (s ++ ['\x00']).length, b.load i = (s ++ ['\x00'])[i]? := fun i hi => by
    rw [hlength] at hi
    rcases Nat.lt_or_ge i s.length with hs' | hs'
    · rw [Block.load_of_string hs hs', List.getElem?_append_left hs']
    · obtain rfl : i = s.length := by omega
      rw [Block.load_nul hs, List.getElem?_concat_length]
  obtain ⟨hloop, -⟩ := Block.compact length_clearspaceStep
    (fun _ _ _ => InPlace.clearspaceTurn_eq) hread (by omega) false (Nat.le_of_eq hlength.symm)
  have hall : (s ++ ['\x00']).take (s.length + 1) = s ++ ['\x00'] := by
    rw [← hlength, List.take_length]
  have hturns : turns (strlenInt s + 1) = List.range (s.length + 1) := by
    rw [strlenInt_eq (by omega)]
    rfl
  have hbound : strlenInt s < 2 ^ 31 - 1 := by
    rw [strlenInt_eq (by omega)]
    omega
  have hstart : b.cursor ([], false) = { block := b, j := 0, flag := false } := rfl
  rw [hall, hstart, ← hturns] at hloop
  have hguard : (guard (strlenInt s < 2 ^ 31 - 1) : Option Unit) = some () := if_pos hbound
  rw [clearspace, hs, Option.bind_eq_bind, Option.bind_some]
  dsimp only
  rw [hguard, hloop, ← foldl_clearspaceStep_nul]
  rfl

theorem clearspace_subset (s : CStr) : clearspace s ⊆ s := by
  have hstep (st : CStr × Bool) (c : Char) : (clearspaceStep st c).1 ⊆ st.1 ++ [c] := by
    unfold clearspaceStep
    split_ifs
    · exact List.subset_append_left _ _
    · exact List.subset_append_left _ _
    · exact List.Subset.refl _
    · exact List.subset_append_left _ _
  have hfold (st : CStr × Bool) : (s.foldl clearspaceStep st).1 ⊆ st.1 ++ s := by
    induction s generalizing st with
    | nil => exact List.subset_append_left _ _
    | cons c s ih =>
      rw [List.append_cons st.1 c s]
      refine List.Subset.trans (ih _) (List.append_subset.mpr ⟨?_, ?_⟩)
      · exact List.Subset.trans (hstep st c) (List.subset_append_left _ _)
      · exact List.subset_append_right _ _
  exact hfold ([], false)

end Clearspace

/-! ## The mode line -/

/-- The fields of a mode are strings, and the letters have their room in the struct. -/
structure ChannelMode.Stored (pMode : ChannelMode) : Prop where
  pModeStr : '\x00' ∉ pMode.pModeStr
  length_le : pMode.pModeStr.length ≤ maxModes + 1
  pKeyword : ∀ k ∈ pMode.pKeyword, '\x00' ∉ k
  pLimit : ∀ l ∈ pMode.pLimit, '\x00' ∉ l

/-- A parameter behind a text, in two calls, if its letter is there. -/
def withParameter (letter : Char) (parameter : Option CStr) (s : CStr) : List CStr :=
  match parameter with
  | some parameter => if letter ∈ s then [s ++ [' '], s ++ [' '] ++ parameter] else []
  | none => []

/-- The letters of a mode, and the texts on the way to its line. -/
def modeStrings (pMode : ChannelMode) : List CStr :=
  let cleared := clearspace pMode.pModeStr
  let keyword := withParameter 'k' pMode.pKeyword cleared
  let limit := withParameter 'l' pMode.pLimit (keyword.getLastD cleared)
  pMode.pModeStr :: cleared :: (keyword ++ limit)

/-- The letters with the parameters that belong to them. -/
def builtModeStr (pMode : ChannelMode) : CStr := (modeStrings pMode).getLastD []

section ModeLine

variable {b : Block} {s t p : CStr} {c : Char} {o : Option CStr}
  {pMode : ChannelMode}

theorem withParameter_some : withParameter c (some p) s =
    if c ∈ s then [s ++ [' '], s ++ [' '] ++ p] else [] := rfl

theorem getLastD_withParameter :
    (withParameter c o s).getLastD s =
      match o with
      | some parameter => if c ∈ s then s ++ ' ' :: parameter else s
      | none => s := by
  cases o with
  | none => rfl
  | some p =>
    rw [withParameter_some]
    by_cases hletter : c ∈ s
    · simp only [if_pos hletter, List.append_assoc, List.singleton_append]
      rfl
    · simp only [if_neg hletter]
      rfl

/-- The letters are cleared, then the keyword follows, then the limit. -/
theorem builtModeStr_eq : builtModeStr pMode =
    (withParameter 'l' pMode.pLimit
      ((withParameter 'k' pMode.pKeyword (clearspace pMode.pModeStr)).getLastD
        (clearspace pMode.pModeStr))).getLastD
      ((withParameter 'k' pMode.pKeyword (clearspace pMode.pModeStr)).getLastD
        (clearspace pMode.pModeStr)) := by
  have happend (xs ys : List CStr) (d : CStr) :
      (xs ++ ys).getLastD d = ys.getLastD (xs.getLastD d) := by
    rw [List.getLastD_eq_getLast?, List.getLastD_eq_getLast?, List.getLastD_eq_getLast?,
      List.getLast?_append, Option.getD_or]
  rw [builtModeStr, modeStrings, List.getLastD_cons, List.getLastD_cons, happend]

/-- The mode line is the last of the texts, trimmed. -/
theorem channelModeToStr_eq_trim : channelModeToStr pMode = trim (builtModeStr pMode) := by
  rw [builtModeStr_eq, getLastD_withParameter, getLastD_withParameter]
  rfl

/-- Each of the texts of a parameter is longer by a blank and the parameter at most. -/
theorem length_withParameter (h : t ∈ withParameter c o s) :
    t.length ≤ s.length + 1 + (o.getD []).length := by
  cases o with
  | none => cases h
  | some parameter =>
    rw [withParameter_some] at h
    split at h
    · simp only [List.mem_cons, List.not_mem_nil, or_false] at h
      rcases h with rfl | rfl
      · rw [List.length_append, List.length_singleton]
        exact Nat.le_add_right ..
      · rw [List.length_append, List.length_append, List.length_singleton]
        exact Nat.le_refl _
    · cases h

theorem length_getLastD_withParameter :
    ((withParameter c o s).getLastD s).length ≤
      s.length + 1 + (o.getD []).length := by
  rcases List.eq_nil_or_concat (withParameter c o s) with hnil | ⟨ts, t, hlast⟩
  · rw [hnil, List.getLastD_nil]
    omega
  · rw [hlast, List.concat_eq_append, List.getLastD_concat]
    refine length_withParameter (c := c) ?_
    rw [hlast, List.concat_eq_append]
    exact List.mem_append_right _ List.mem_cons_self

theorem nul_notMem_withParameter (hs : '\x00' ∉ s) (hp : ∀ p ∈ o, '\x00' ∉ p)
    (h : t ∈ withParameter c o s) : '\x00' ∉ t := by
  cases o with
  | none => cases h
  | some parameter =>
    have hparameter := hp parameter rfl
    rw [withParameter_some] at h
    split at h
    · simp only [List.mem_cons, List.not_mem_nil, or_false] at h
      have hblank : ¬ '\x00' = ' ' := by decide
      rcases h with rfl | rfl <;>
        simp only [List.mem_append, List.mem_singleton, hs, hblank, hparameter, or_false,
          not_false_eq_true]
    · cases h

theorem nul_notMem_getLastD (hs : '\x00' ∉ s) (hp : ∀ p ∈ o, '\x00' ∉ p) :
    '\x00' ∉ (withParameter c o s).getLastD s := by
  rcases List.mem_cons.mp (List.getLastD_mem_cons (l := withParameter c o s))
    with he | hmem
  · rwa [he]
  · exact nul_notMem_withParameter hs hp hmem

/-- All the texts, with a NUL behind them, fit into the bytes that are counted. -/
theorem length_modeStrings (h : pMode.Stored) (ht : t ∈ modeStrings pMode) :
    t.length + 1 ≤ InPlace.modeBytes pMode := by
  have hletters := h.length_le
  have hcleared := length_clearspace_le pMode.pModeStr
  have hkeyword := length_getLastD_withParameter (c := 'k') (o := pMode.pKeyword)
    (s := clearspace pMode.pModeStr)
  unfold InPlace.modeBytes
  unfold modeStrings at ht
  rcases List.mem_cons.mp ht with rfl | ht
  · omega
  rcases List.mem_cons.mp ht with rfl | ht
  · omega
  rcases List.mem_append.mp ht with ht | ht
  · have := length_withParameter ht
    omega
  · have := length_withParameter ht
    omega

theorem nul_notMem_clearspace (h : '\x00' ∉ s) : '\x00' ∉ clearspace s := fun hmem =>
  h (clearspace_subset s hmem)

theorem nul_notMem_builtModeStr (h : pMode.Stored) : '\x00' ∉ builtModeStr pMode := by
  rw [builtModeStr_eq]
  exact nul_notMem_getLastD
    (nul_notMem_getLastD (nul_notMem_clearspace h.pModeStr) h.pKeyword) h.pLimit

theorem nul_notMem_modeStrings (h : pMode.Stored) (ht : t ∈ modeStrings pMode) :
    '\x00' ∉ t := by
  have hcleared := nul_notMem_clearspace h.pModeStr
  unfold modeStrings at ht
  rcases List.mem_cons.mp ht with rfl | ht
  · exact h.pModeStr
  rcases List.mem_cons.mp ht with rfl | ht
  · exact hcleared
  rcases List.mem_append.mp ht with ht | ht
  · exact nul_notMem_withParameter hcleared h.pKeyword ht
  · exact nul_notMem_withParameter (nul_notMem_getLastD hcleared h.pKeyword) h.pLimit ht

/-- A parameter is written behind the string of a block that has room for it. -/
theorem InPlace.addParameter_eq (hs : '\x00' ∉ s) (hp : ∀ p ∈ o, '\x00' ∉ p)
    (hroom : s.length + 1 + (o.getD []).length < b.length) :
    addParameter c o (b.overwrite (s ++ ['\x00'])) =
      some ((withParameter c o s).map fun t => b.overwrite (t ++ ['\x00'])) := by
  unfold addParameter withParameter
  rw [Block.string_overwrite hs]
  cases o with
  | none => rfl
  | some parameter =>
    rw [Option.getD_some] at hroom
    simp only [Option.bind_eq_bind, Option.bind_some]
    split
    · have hblank : '\x00' ∉ s ++ [' '] := by
        have hne : ¬ '\x00' = ' ' := by decide
        simp only [List.mem_append, List.mem_singleton, hs, hne, or_false, not_false_eq_true]
      have hfirst := Block.strcat_eq (b := b) (t := [' ']) hs
        (by rw [List.length_singleton]; omega)
      have hsecond := Block.strcat_eq (b := b) (t := parameter) hblank
        (by rw [List.length_append, List.length_singleton]; exact hroom)
      have hliteral : (" ".toList : CStr) = [' '] := rfl
      rw [hliteral, hfirst, Option.bind_some, hsecond]
      rfl
    · rfl

/-- In a block with the bytes that are counted, the calls leave the texts one after the other. -/
theorem InPlace.modeContents_eq (h : pMode.Stored) (hroom : modeBytes pMode ≤ b.length) :
    modeContents b pMode = some ((modeStrings pMode).map fun t =>
      (b.overwrite (pMode.pModeStr ++ ['\x00'])).overwrite (t ++ ['\x00'])) := by
  have hletters := h.length_le
  have hcleared := length_clearspace_le pMode.pModeStr
  have hnul := nul_notMem_clearspace h.pModeStr
  have hkeyword := length_getLastD_withParameter (c := 'k') (o := pMode.pKeyword)
    (s := Ebotula.clearspace pMode.pModeStr)
  have hlast (xs : List CStr) (s : CStr) (f : CStr → Block) :
      (xs.map f).getLastD (f s) = f (xs.getLastD s) := by
    rw [List.getLastD_eq_getLast?, List.getLastD_eq_getLast?, List.getLast?_map,
      Option.getD_map]
  unfold modeBytes at hroom
  have hcopied : (b.overwrite (pMode.pModeStr ++ ['\x00'])).length = b.length :=
    Block.length_overwrite (by rw [List.length_append, List.length_singleton]; omega)
  have hclear := InPlace.clearspace_block (Block.string_overwrite (b := b) h.pModeStr)
    (by rw [maxModes] at hletters; omega)
  have hself := Block.overwrite_append (b := b) (s := pMode.pModeStr ++ ['\x00']) (t := [])
  rw [List.append_nil] at hself
  have hk := addParameter_eq (b := b.overwrite (pMode.pModeStr ++ ['\x00'])) (c := 'k')
    hnul h.pKeyword (by omega)
  have hl := addParameter_eq (b := b.overwrite (pMode.pModeStr ++ ['\x00'])) (c := 'l')
    (nul_notMem_getLastD (c := 'k') hnul h.pKeyword) h.pLimit (by omega)
  rw [modeContents, Block.strcpy_eq (by omega)]
  simp only [Option.bind_eq_bind, Option.bind_some, hclear, hk, hlast, hl, Option.pure_def,
    modeStrings, List.map_cons, List.map_append, hself]

theorem builtModeStr_mem : builtModeStr pMode ∈ modeStrings pMode := by
  rw [builtModeStr, modeStrings, List.getLastD_cons]
  exact List.getLastD_mem_cons

/-- `ChannelModeToStr` with its memory, as long as an `int` can count its bytes. -/
theorem InPlace.channelModeToStr_eq (h : pMode.Stored) (hsize : modeBytes pMode < 2 ^ 31) :
    channelModeToStr pMode = some (Ebotula.channelModeToStr pMode) := by
  have hshort : (builtModeStr pMode).length < 2 ^ 31 := by
    have hbuilt := length_modeStrings h builtModeStr_mem
    omega
  have hbytes : ofInt (toInt (sizeT (modeBytes pMode))) = modeBytes pMode := by
    rw [toInt_eq hsize, ofInt_natCast (by omega)]
  have hcontents := modeContents_eq (b := List.replicate (modeBytes pMode) none) h
    (by rw [List.length_replicate])
  have hstring : (Block.overwrite (Block.overwrite (List.replicate (modeBytes pMode) none)
      (pMode.pModeStr ++ ['\x00'])) (builtModeStr pMode ++ ['\x00'])).string =
        some (builtModeStr pMode) :=
    Block.string_overwrite (nul_notMem_builtModeStr h)
  have htrim := Block.string_overwrite
    (b := (Block.overwrite (List.replicate (modeBytes pMode) none)
      (pMode.pModeStr ++ ['\x00'])).overwrite (builtModeStr pMode ++ ['\x00']))
    (s := Ebotula.trim (builtModeStr pMode)) fun hmem =>
      nul_notMem_builtModeStr h (trim_subset _ hmem)
  have hlast (f : CStr → Block) (d : Block) :
      ((modeStrings pMode).map f).getLastD d = f (builtModeStr pMode) := by
    have hhead (xs : List CStr) (s : CStr) : ((s :: xs).map f).getLastD d =
        f ((s :: xs).getLastD []) := by
      rw [List.map_cons, List.getLastD_cons, List.getLastD_cons, List.getLastD_eq_getLast?,
        List.getLastD_eq_getLast?, List.getLast?_map, Option.getD_map]
    exact hhead _ _
  simp only [channelModeToStr, hbytes, malloc_eq (by omega : modeBytes pMode < 2 ^ 63),
    Option.bind_eq_bind, Option.bind_some, hcontents, hlast, InPlace.trim_eq hstring hshort, htrim,
    channelModeToStr_eq_trim]

end ModeLine

/-! ## The record -/

section Record

variable {d : ChannelData}

theorem length_channelDataToStr : (channelDataToStr d).length + 1 =
    (channelModeToStr d.sModes).length + (d.pGreeting.getD []).length +
      (d.pTopic.getD []).length + 3 := by
  simp only [channelDataToStr, List.length_append, List.length_cons]
  omega

/-- The size in an `int` is the size of the record, up to the greatest `int`. -/
theorem recordBytes_room : (∃ block, malloc
      (InPlace.recordBytes (channelModeToStr d.sModes) d) = some block ∧
        (channelDataToStr d).length + 1 ≤ block.length) ↔
    (channelDataToStr d).length + 1 < 2 ^ 31 := by
  have hbytes : InPlace.recordBytes (channelModeToStr d.sModes) d =
      ofInt (toInt (sizeT ((channelDataToStr d).length + 1))) := by
    rw [length_channelDataToStr]
    rfl
  rw [hbytes, ← ofInt_room]
  exact malloc_room

/-- `ChannelDataToStr` with its memory, as long as an `int` can count the bytes of its blocks. -/
theorem InPlace.channelDataToStr_eq (h : d.sModes.Stored)
    (hgreeting : ∀ t ∈ d.pGreeting, '\x00' ∉ t) (htopic : ∀ t ∈ d.pTopic, '\x00' ∉ t)
    (hmode : modeBytes d.sModes < 2 ^ 31)
    (hrecord : (Ebotula.channelDataToStr d).length + 1 < 2 ^ 31) :
    channelDataToStr d = some (Ebotula.channelDataToStr d) := by
  obtain ⟨block, hblock, hfits⟩ := recordBytes_room.mpr hrecord
  have hnul (o : Option CStr) (ho : ∀ t ∈ o, '\x00' ∉ t) : '\x00' ∉ o.getD [] := by
    cases o with
    | none => exact List.not_mem_nil
    | some t => exact ho t rfl
  have hline : '\x00' ∉ Ebotula.channelModeToStr d.sModes := by
    rw [channelModeToStr_eq_trim]
    exact fun hmem => nul_notMem_builtModeStr h (trim_subset _ hmem)
  have htab : ¬ '\x00' = '\t' := by decide
  have htext : '\x00' ∉ Ebotula.channelDataToStr d := by
    simp only [Ebotula.channelDataToStr, List.mem_append, List.mem_cons, hline, htab,
      hnul _ hgreeting, hnul _ htopic, or_false, not_false_eq_true]
  have hprint : block.sprintf 0 (Ebotula.channelDataToStr d) = _ :=
    (if_pos (by omega)).trans (Block.strcpy_eq hfits)
  have hread := Block.string_overwrite (b := block) htext
  -- the format is written out, so that the two texts are the same as they stand
  rw [Ebotula.channelDataToStr] at hprint hread ⊢
  unfold channelDataToStr
  refine Option.bind_eq_some_iff.mpr ⟨_, channelModeToStr_eq h hmode, ?_⟩
  refine Option.bind_eq_some_iff.mpr ⟨block, hblock, ?_⟩
  refine Option.bind_eq_some_iff.mpr ⟨_, hprint, ?_⟩
  exact hread

/-- When the builders stay in their buffers. In as many bytes as `MAX_MODES` and 4 and those of
the parameters, the calls that build a mode line always do, and every text on the way needs no
more with its NUL. The block of the record has the bytes that are needed exactly if the record,
with its NUL, is short of 2 GiB: they are counted in an `int`. -/
theorem record_builders_fit_iff (d : ChannelData) (h : d.sModes.Stored) :
    ((∃ contents, InPlace.modeContents
          (List.replicate (InPlace.modeBytes d.sModes) none) d.sModes = some contents ∧
        ∀ b ∈ contents, ∃ s, b.string = some s ∧
          s.length + 1 ≤ maxModes + 4 + (d.sModes.pKeyword.getD []).length +
            (d.sModes.pLimit.getD []).length) ∧
      ∃ block, malloc (InPlace.recordBytes (channelModeToStr d.sModes) d) = some block ∧
        (channelDataToStr d).length + 1 ≤ block.length) ↔
    (trimmed (builtModeStr d.sModes)).length + (d.pGreeting.getD []).length +
      (d.pTopic.getD []).length + 3 < 2 ^ 31 := by
  rw [recordBytes_room, length_channelDataToStr, channelModeToStr_eq_trim, ← trim_eq_trimmed]
  refine and_iff_right ⟨_, InPlace.modeContents_eq h (by rw [List.length_replicate]), ?_⟩
  intro b hb
  obtain ⟨s, hs, rfl⟩ := List.mem_map.mp hb
  exact ⟨s, Block.string_overwrite (nul_notMem_modeStrings h hs), length_modeStrings h hs⟩

/-- A channel with a keyword and a topic. -/
def keyedChannel : ChannelData :=
  ⟨⟨"+k t", some "secret".toList, none⟩, some "Welcome".toList, none⟩

theorem stored_keyedChannel : keyedChannel.sModes.Stored where
  pModeStr := by decide
  length_le := by decide
  pKeyword := fun k hk => Option.some.inj hk ▸ by decide
  pLimit := nofun

theorem keyedChannel_fits : (∃ contents, InPlace.modeContents
      (List.replicate (InPlace.modeBytes keyedChannel.sModes) none) keyedChannel.sModes =
        some contents ∧
      ∀ b ∈ contents, ∃ s, b.string = some s ∧ s.length + 1 ≤
        maxModes + 4 + (keyedChannel.sModes.pKeyword.getD []).length +
          (keyedChannel.sModes.pLimit.getD []).length) ∧
    ∃ block, malloc (InPlace.recordBytes (channelModeToStr keyedChannel.sModes) keyedChannel) =
        some block ∧
      (channelDataToStr keyedChannel).length + 1 ≤ block.length :=
  (record_builders_fit_iff keyedChannel stored_keyedChannel).mpr (by decide)

/-- A topic of 4 GiB does not count for an `int`. -/
theorem long_topic_does_not_fit :
    ¬ ∀ d : ChannelData, d.sModes.Stored →
      ∃ block, malloc (InPlace.recordBytes (channelModeToStr d.sModes) d) = some block ∧
        (channelDataToStr d).length + 1 ≤ block.length := by
  intro hall
  obtain ⟨topic, htopic⟩ : ∃ topic : CStr, topic.length = 2 ^ 32 :=
    ⟨List.replicate (2 ^ 32) 'a', List.length_replicate⟩
  have hstored : ChannelMode.Stored ⟨"+", none, none⟩ := ⟨by decide, by decide, nofun, nofun⟩
  have hfits := hall ⟨⟨"+", none, none⟩, some topic, none⟩ hstored
  rw [recordBytes_room, length_channelDataToStr, Option.getD_some, htopic] at hfits
  omega

end Record

end Ebotula
