import Ebotula.Laws.ChannelRecord
import Ebotula.Laws.RecordBuffers

/-!
# The round trip of a channel record

A record that is built in its blocks reads back as the data it was built from, and what was read
gives the same record again. The builders count the bytes of their blocks in an `int`: a record is
built exactly if the counts of both blocks are short of 2 GiB. Whenever a text was written into a
block, it has found room there, and what a block with a lost count has room for is far shorter than
a record with such a count.
-/

set_option autoImplicit false

namespace Ebotula

open Library

/-! ## What was built has found room -/

section Room

variable {b : Block} {s : CStr} {c : Char} {o : Option CStr} {bs contents : List Block}
  {pMode : ChannelMode}

theorem InPlace.addParameter_some (hs : b.string = some s) (hp : ∀ p ∈ o, '\x00' ∉ p)
    (h : addParameter c o b = some bs) :
    (bs.getLastD b).length = b.length ∧
      (bs.getLastD b).string = some ((withParameter c o s).getLastD s) := by
  unfold addParameter at h
  rw [hs, Option.bind_eq_bind, Option.bind_some] at h
  cases o with
  | none =>
    obtain rfl := Option.some.inj h
    exact ⟨rfl, hs⟩
  | some p =>
    rw [withParameter_some]
    by_cases hletter : c ∈ s
    · rw [if_pos hletter]
      simp only [if_pos hletter] at h
      obtain ⟨blank, hblank, h⟩ := Option.bind_eq_some_iff.mp h
      obtain ⟨whole, hwhole, h⟩ := Option.bind_eq_some_iff.mp h
      obtain rfl := Option.some.inj h
      obtain ⟨hlength, hstring⟩ := Block.strcat_some hs (by decide) hblank
      obtain ⟨hlength', hstring'⟩ := Block.strcat_some hstring (hp p rfl) hwhole
      exact ⟨hlength'.trans hlength, hstring'⟩
    · rw [if_neg hletter]
      simp only [if_neg hletter] at h
      obtain rfl := Option.some.inj h
      exact ⟨rfl, hs⟩

/-- The letters with their parameters have found room in the block. -/
theorem InPlace.modeContents_room (h : pMode.Stored) (hc : modeContents b pMode = some contents) :
    (builtModeStr pMode).length < b.length := by
  have hletters := h.length_le
  have hnul := nul_notMem_clearspace h.pModeStr
  unfold modeContents at hc
  obtain ⟨copied, hcopied, hc⟩ := Option.bind_eq_some_iff.mp hc
  have hroom := Block.writeString_room hcopied
  obtain ⟨hlength, hstring⟩ := Block.writeString_some h.pModeStr hcopied
  have hclear := clearspace_block hstring (by rw [maxModes] at hletters; omega)
  obtain ⟨cleared, hcleared, hc⟩ := Option.bind_eq_some_iff.mp hc
  rw [hclear] at hcleared
  have hlength' : cleared.length = copied.length := by
    rw [← Option.some.inj hcleared, Block.length_overwrite]
    have hle := length_clearspace_le pMode.pModeStr
    rw [List.length_append, List.length_singleton]
    omega
  have hstring' : cleared.string = some (Ebotula.clearspace pMode.pModeStr) := by
    rw [← Option.some.inj hcleared]
    exact Block.string_overwrite hnul
  obtain ⟨keyword, hkeyword, hc⟩ := Option.bind_eq_some_iff.mp hc
  obtain ⟨limit, hlimit, -⟩ := Option.bind_eq_some_iff.mp hc
  obtain ⟨hlengthk, hstringk⟩ := addParameter_some hstring' h.pKeyword hkeyword
  obtain ⟨hlengthl, hstringl⟩ := addParameter_some hstringk h.pLimit hlimit
  have hfits := Block.length_of_string hstringl
  rw [← builtModeStr_eq] at hfits
  omega

/-- If a mode line was built, its block was there and had room for it. -/
theorem InPlace.channelModeToStr_room (h : pMode.Stored) {line : CStr}
    (hline : channelModeToStr pMode = some line) :
    ofInt (toInt (sizeT (modeBytes pMode))) < 2 ^ 63 ∧
      (builtModeStr pMode).length < ofInt (toInt (sizeT (modeBytes pMode))) := by
  unfold channelModeToStr at hline
  obtain ⟨block, hblock, hline⟩ := Option.bind_eq_some_iff.mp hline
  obtain ⟨contents, hcontents, -⟩ := Option.bind_eq_some_iff.mp hline
  obtain ⟨hsize, hlength⟩ := malloc_some hblock
  exact ⟨hsize, hlength ▸ modeContents_room h hcontents⟩

end Room

/-! ## Well-formed modes -/

/-- The texts of a record are strings of C. -/
structure ChannelData.Strings (d : ChannelData) : Prop where
  pKeyword : ∀ t ∈ d.sModes.pKeyword, '\x00' ∉ t
  pLimit : ∀ t ∈ d.sModes.pLimit, '\x00' ∉ t
  pTopic : ∀ t ∈ d.pTopic, '\x00' ∉ t
  pGreeting : ∀ t ∈ d.pGreeting, '\x00' ∉ t

/-- An `int` can count the bytes of the block of the mode line, and those of the record. -/
structure ChannelData.Counted (d : ChannelData) : Prop where
  modeLine : InPlace.modeBytes d.sModes < 2 ^ 31
  record : (trimmed (builtModeStr d.sModes)).length + (d.pGreeting.getD []).length +
    (d.pTopic.getD []).length + 3 < 2 ^ 31

section WellFormed

variable {m : ChannelMode} {d : ChannelData}

theorem ChannelMode.WellFormed.stored (h : m.WellFormed)
    (hkeyword : ∀ t ∈ m.pKeyword, '\x00' ∉ t) (hlimit : ∀ t ∈ m.pLimit, '\x00' ∉ t) :
    m.Stored := by
  refine ⟨fun hmem => ?_, Nat.le_of_eq h.length, hkeyword, hlimit⟩
  rw [h.modeStr_eq, modeStr, List.mem_cons] at hmem
  rcases hmem with hsign | hslot
  · exact absurd (hsign ▸ h.sign) (by decide)
  · obtain ⟨f, -, hf⟩ := List.mem_map.mp hslot
    rw [slotChar] at hf
    split at hf
    · exact absurd hf (by cases f <;> decide)
    · exact absurd hf (by decide)

/-- The keyword and the limit are in the mode line, if they are there. -/
theorem ChannelMode.WellFormed.modeBytes_le (h : m.WellFormed) :
    InPlace.modeBytes m ≤ (builtModeStr m).length + (maxModes + 4) := by
  have hargs : (m.pKeyword.getD []).length + (m.pLimit.getD []).length ≤
      (channelModeToStr m).length := by
    have hkeyword : .keyword ∉ flagsOf m.pModeStr → (m.pKeyword.getD []).length = 0 := fun hf => by
      have hnone : m.pKeyword = none :=
        Option.not_isSome_iff_eq_none.mp fun hsome => hf (mem_flagsOf.mpr (h.keyword_iff.mp hsome))
      rw [hnone]
      rfl
    have hlimit : .limit ∉ flagsOf m.pModeStr → (m.pLimit.getD []).length = 0 := fun hf => by
      have hnone : m.pLimit = none :=
        Option.not_isSome_iff_eq_none.mp fun hsome => hf (mem_flagsOf.mpr (h.limit_iff.mp hsome))
      rw [hnone]
      rfl
    rw [h.channelModeToStr_eq, modeText, flagArgs_setFlags, withArgs]
    by_cases hk : .keyword ∈ flagsOf m.pModeStr <;> by_cases hl : .limit ∈ flagsOf m.pModeStr <;>
      simp [hk, hl, hkeyword, hlimit]
    all_goals omega
  have htrim := length_trim_le (builtModeStr m)
  rw [← channelModeToStr_eq_trim] at htrim
  unfold InPlace.modeBytes
  omega

/-- A record is built exactly if an `int` can count the bytes of both blocks. -/
theorem InPlace.channelDataToStr_isSome_iff (h : d.WellFormed) (hstrings : d.Strings) :
    (∃ s, channelDataToStr d = some s) ↔ d.Counted := by
  have hstored := h.modes.stored hstrings.pKeyword hstrings.pLimit
  have hrecord : (Ebotula.channelDataToStr d).length + 1 < 2 ^ 31 ↔
      (trimmed (builtModeStr d.sModes)).length + (d.pGreeting.getD []).length +
        (d.pTopic.getD []).length + 3 < 2 ^ 31 := by
    rw [length_channelDataToStr, channelModeToStr_eq_trim, ← trim_eq_trimmed]
  constructor
  · rintro ⟨s, hs⟩
    unfold channelDataToStr at hs
    obtain ⟨line, hline, hs⟩ := Option.bind_eq_some_iff.mp hs
    obtain ⟨hsize, hroom⟩ := channelModeToStr_room hstored hline
    have hmode : modeBytes d.sModes < 2 ^ 31 := by
      have hle := h.modes.modeBytes_le
      refine lt_of_ofInt_near (d := maxModes + 4) (by decide) hsize ?_
      omega
    rw [channelModeToStr_eq hstored hmode] at hline
    obtain rfl := Option.some.inj hline
    obtain ⟨block, hblock, hs⟩ := Option.bind_eq_some_iff.mp hs
    obtain ⟨printed, hprinted, -⟩ := Option.bind_eq_some_iff.mp hs
    refine ⟨hmode, hrecord.mp (recordBytes_room.mp ⟨block, hblock, ?_⟩)⟩
    have hwritten : block.writeString 0 (Ebotula.channelDataToStr d) = some printed := by
      rw [Block.sprintf] at hprinted
      split at hprinted
      · exact hprinted
      · cases hprinted
    exact Block.writeString_room hwritten
  · intro hcounted
    exact ⟨_, channelDataToStr_eq hstored hstrings.pGreeting hstrings.pTopic hcounted.modeLine
      (hrecord.mpr hcounted.record)⟩

/-! ## The round trip -/

/-- A well-formed record that is built reads back in all its parts, and what was read is built to
the same record again; and it is built exactly if an `int` can count the bytes of its blocks. -/
theorem channelRecord_roundTrip (d : ChannelData) (h : d.WellFormed) (hstrings : d.Strings) :
    (∃ s, InPlace.channelDataToStr d = some s ∧ strToChannelData s = some d ∧
      (strToChannelData s).bind InPlace.channelDataToStr = some s) ↔ d.Counted := by
  rw [← InPlace.channelDataToStr_isSome_iff h hstrings]
  constructor
  · rintro ⟨s, hs, -⟩
    exact ⟨s, hs⟩
  · rintro ⟨s, hs⟩
    have hcounted := (InPlace.channelDataToStr_isSome_iff h hstrings).mp ⟨s, hs⟩
    have hvalue : s = channelDataToStr d := by
      have hbuilt := InPlace.channelDataToStr_eq
        (h.modes.stored hstrings.pKeyword hstrings.pLimit) hstrings.pGreeting hstrings.pTopic
        hcounted.modeLine (by
          rw [length_channelDataToStr, channelModeToStr_eq_trim, trim_eq_trimmed]
          exact hcounted.record)
      exact Option.some.inj (hs.symm.trans hbuilt)
    have hback : strToChannelData s = some d := hvalue ▸ strToChannelData_back h
    refine ⟨s, hs, hback, ?_⟩
    rw [hback, Option.bind_some]
    exact hs

end WellFormed

/-- A channel with a keyword and a topic. -/
def keywordChannel : ChannelData where
  sModes := ⟨"+k tn       ", some "secret", none⟩
  pTopic := some "What we talk about"
  pGreeting := none

theorem keywordChannel_wellFormed : keywordChannel.WellFormed where
  modes := {
    length := rfl
    sign := by decide
    slot := fun f => by cases f <;> decide
    keyword_iff := by decide
    limit_iff := by decide
    keyword := fun s hs => by
      obtain rfl := Option.some.inj hs
      exact ⟨by decide, forall_of_all (by decide)⟩
    limit := nofun }
  topic := fun s hs => by
    obtain rfl := Option.some.inj hs
    decide
  greeting := nofun

theorem channelRecord_roundTrip_keyword : ∃ s, InPlace.channelDataToStr keywordChannel = some s ∧
    strToChannelData s = some keywordChannel ∧
    (strToChannelData s).bind InPlace.channelDataToStr = some s := by
  refine (channelRecord_roundTrip keywordChannel keywordChannel_wellFormed ?_).mpr ?_
  · refine ⟨fun t ht => ?_, nofun, fun t ht => ?_, nofun⟩
    · exact Option.some.inj ht ▸ by decide
    · exact Option.some.inj ht ▸ by decide
  · exact ⟨by decide, by decide⟩

/-- A channel without modes, with a topic. -/
def topicChannel (pTopic : CStr) : ChannelData := ⟨emptyChannelMode, some pTopic, none⟩

theorem emptyChannelMode_wellFormed : emptyChannelMode.WellFormed where
  length := rfl
  sign := by decide
  slot := fun f => .inl (by cases f <;> rfl)
  keyword_iff := by decide
  limit_iff := by decide
  keyword := nofun
  limit := nofun

/-- A topic of 4 GiB makes no record. -/
theorem long_topic_makes_no_record : ¬ ∀ d : ChannelData, d.WellFormed → d.Strings →
    ∃ s, InPlace.channelDataToStr d = some s ∧ strToChannelData s = some d := by
  intro hall
  obtain ⟨topic, hlength, hletters⟩ : ∃ topic : CStr, topic.length = 2 ^ 32 ∧
      ∀ c ∈ topic, c = 'a' :=
    ⟨List.replicate (2 ^ 32) 'a', List.length_replicate, fun c => List.eq_of_mem_replicate⟩
  have hne : topic ≠ [] := fun hnil => by
    rw [hnil, List.length_nil] at hlength
    omega
  have hwellFormed : (topicChannel topic).WellFormed := by
    refine ⟨emptyChannelMode_wellFormed, fun s hs => ?_, nofun⟩
    obtain rfl := Option.some.inj hs
    exact ⟨hne, fun htab => absurd (hletters _ htab) (by decide)⟩
  have hstrings : (topicChannel topic).Strings := by
    refine ⟨nofun, nofun, fun t ht hnul => ?_, nofun⟩
    obtain rfl := Option.some.inj ht
    exact absurd (hletters _ hnul) (by decide)
  obtain ⟨s, hs, -⟩ := hall _ hwellFormed hstrings
  have hrecord := ((InPlace.channelDataToStr_isSome_iff hwellFormed hstrings).mp ⟨s, hs⟩).record
  rw [topicChannel, Option.getD_some, hlength] at hrecord
  omega

end Ebotula
