import Ebotula.Laws.ChanMode

/-!
# Channel records under concurrency

Workers that rewrite the record of one channel at the same time. Nothing holds the record
between the read of a job and its write, so a job that has read may write back what another
one has changed meanwhile. What it writes back is all of the record but the part it changes
itself. So a write does no harm as long as the record written differs from the one that is
there only in what each job that has read already overwrites anyway; and then the record
ends as it does when the jobs run one after the other.
-/

set_option autoImplicit false

namespace Ebotula

open Library

variable {G : Type} [DbLib G] {ι : Type} [DecidableEq ι]

/-! ## What a job overwrites -/

/-- The flags the merge loop of `chanmode` writes for a request. -/
def ChannelMode.Writes (sNewMode : ChannelMode) (f : Flag) : Prop :=
  strAt sNewMode.pModeStr ChanModeEnum.modType.ctorIdx ∈ ['+', '-'] ∧
    f ∈ flagsOf sNewMode.pModeStr ∧ f ≠ .invite

/-- Two modes differ in nothing but what a request writes. -/
structure ChannelMode.AgreeOutside (sNewMode a b : ChannelMode) : Prop where
  flags : ∀ f, ¬ sNewMode.Writes f → (f ∈ flagsOf a.pModeStr ↔ f ∈ flagsOf b.pModeStr)
  keyword : ¬ sNewMode.Writes .keyword → a.pKeyword = b.pKeyword
  limit : ¬ sNewMode.Writes .limit → a.pLimit = b.pLimit

/-- Two records differ in nothing but what the job overwrites. -/
def RecordJob.Agree (pParameters : Option CStr) : RecordJob → ChannelData → ChannelData → Prop
  | setTopic, a, b => a.sModes = b.sModes ∧ a.pGreeting = b.pGreeting
  | setGreeting, a, b => a.sModes = b.sModes ∧ a.pTopic = b.pTopic
  | chanmode, a, b => a.pTopic = b.pTopic ∧ a.pGreeting = b.pGreeting ∧
      ∃ sNewMode ∈ pParameters.bind strToChannelMode, sNewMode.AgreeOutside a.sModes b.sModes

theorem flagsOf_modeStr {sign : Char} {flags : Finset Flag} :
    flagsOf (modeStr sign (slotChar flags)) = flags := by
  ext f
  rw [mem_flagsOf, strAt_modeStr, slotChar_eq_letter]

/-- What is said outside of a request and what the request says make up the whole. -/
theorem SavedModes.change_congr {s t n : SavedModes} {sign : Char}
    (hsign : sign = '+' ∨ sign = '-') (hflags : ∀ f ∉ n.flags, f ∈ s.flags ↔ f ∈ t.flags)
    (hkeyword : .keyword ∉ n.flags → s.keyword = t.keyword)
    (hlimit : .limit ∉ n.flags → s.limit = t.limit) : s.change sign n = t.change sign n := by
  have add {f : Flag} {a b c : Option CStr} (hiff : a.isSome ↔ f ∈ n.flags)
      (h : f ∉ n.flags → b = c) : a.or b = a.or c := by
    cases a with
    | none => exact h fun hf => Bool.false_ne_true (hiff.mpr hf)
    | some word => rfl
  rw [change, change]
  rcases hsign with rfl | rfl
  · rw [if_pos rfl, if_pos rfl]
    ext1
    · ext f
      rw [SavedModes.add, SavedModes.add, Finset.mem_union, Finset.mem_union]
      by_cases hf : f ∈ n.flags
      · exact iff_of_true (.inr hf) (.inr hf)
      · exact or_congr_left (hflags f hf)
    · exact add n.keyword_iff hkeyword
    · exact add n.limit_iff hlimit
  · simp only [show ¬ ('-' : Char) = '+' by decide, if_false, if_true]
    ext1
    · ext f
      rw [SavedModes.remove, SavedModes.remove, Finset.mem_sdiff, Finset.mem_sdiff]
      exact and_congr_left (hflags f)
    · exact if_ctx_congr Iff.rfl (fun _ => rfl) hkeyword
    · exact if_ctx_congr Iff.rfl (fun _ => rfl) hlimit

/-- A request makes the same of modes that differ only in what it writes. -/
theorem ChannelMode.AgreeOutside.mergeModes_eq {s t n : SavedModes} {sign sign' nsign : Char}
    (h : (n.mode nsign).AgreeOutside (s.mode sign) (t.mode sign')) (hsign : sign ∈ [' ', '+', '-'])
    (hsign' : sign' ∈ [' ', '+', '-']) :
    mergeModes (s.mode sign) (n.mode nsign) = mergeModes (t.mode sign') (n.mode nsign) := by
  have hwrites (f : Flag) : (n.mode nsign).Writes f ↔ (nsign = '+' ∨ nsign = '-') ∧
      f ∈ (n.restrict Flag.all.dropLast).flags := by
    rw [Writes, SavedModes.mode, strAt_modeStr_type, flagsOf_modeStr, SavedModes.restrict,
      Finset.mem_filter, mem_dropLast_all, List.mem_cons, List.mem_singleton]
  have hflags (f : Flag) (hf : ¬ (n.mode nsign).Writes f) : f ∈ s.flags ↔ f ∈ t.flags := by
    have := h.flags f hf
    rwa [SavedModes.mode, SavedModes.mode, flagsOf_modeStr, flagsOf_modeStr] at this
  have hsame : s.change nsign (n.restrict Flag.all.dropLast) =
      t.change nsign (n.restrict Flag.all.dropLast) := by
    by_cases hn : nsign = '+' ∨ nsign = '-'
    · refine SavedModes.change_congr hn (fun f hf => hflags f ?_) (fun hf => h.keyword ?_)
        fun hf => h.limit ?_
      all_goals exact fun hw => hf ((hwrites _).mp hw).2
    · have hno (f : Flag) : ¬ (n.mode nsign).Writes f := fun hw => hn ((hwrites f).mp hw).1
      have hst : s = t :=
        SavedModes.ext (Finset.ext fun f => hflags f (hno f)) (h.keyword (hno _)) (h.limit (hno _))
      rw [hst]
  rw [mergeModes_mode hsign, mergeModes_mode hsign', hsame]

/-- What a job makes of two records that agree. -/
theorem RecordJob.Agree.update_eq {job : RecordJob} {pParameters : Option CStr}
    {record record' : CStr} {d d' : ChannelData} (h : job.Agree pParameters d d')
    (hd : strToChannelData record = some d) (hd' : strToChannelData record' = some d') :
    job.update pParameters record = job.update pParameters record' := by
  cases job with
  | setTopic =>
    simp only [update, hd, hd', Option.map_some, h.1, h.2, channelDataToStr]
  | setGreeting =>
    simp only [update, hd, hd', Option.map_some, h.1, h.2, channelDataToStr]
  | chanmode =>
    obtain ⟨htopic, hgreeting, sNewMode, hnew, hagree⟩ := h
    obtain ⟨text, rfl, htext⟩ := Option.bind_eq_some_iff.mp hnew
    obtain ⟨sModes, hs, rfl⟩ := Option.map_eq_some_iff.mp hd
    obtain ⟨sModes', hs', rfl⟩ := Option.map_eq_some_iff.mp hd'
    obtain ⟨sign, hsign, s, rfl⟩ := strToChannelMode_saved hs
    obtain ⟨sign', hsign', s', rfl⟩ := strToChannelMode_saved hs'
    obtain ⟨nsign, -, n, rfl⟩ := strToChannelMode_saved htext
    simp only [update, hd, hd', htext]
    dsimp only at htopic hgreeting hagree
    simp only [channelDataToStr, hagree.mergeModes_eq hsign hsign', htopic, hgreeting]

/-! ## Workers -/

/-- One execution of a job, with what its machine answers. -/
structure RecordWork where
  env : Env
  job : RecordJob
  pMsg : MsgItem

/-- Workers that may write the databases, over the world they share. -/
abbrev BotWorkers (ι G : Type) := Threads (quietSig.sum writeSig) ι (World G)

namespace RecordWork

/-- Every worker stands before its handler. -/
def start (works : ι → RecordWork) (w : World G) : BotWorkers ι G :=
  ⟨fun i => (works i).job.handler (works i).pMsg, w⟩

/-- One request of one worker. -/
def step (works : ι → RecordWork) : BotWorkers ι G → ι → Option (BotWorkers ι G) :=
  Threads.step fun i => perform (works i).env

/-- The handlers one after the other, each to its end. -/
def serially (works : ι → RecordWork) : List ι → World G → Option (World G) :=
  Threads.serially (fun i => perform (works i).env) fun i => (works i).job.handler (works i).pMsg

/-- When a worker writes the record, what it writes differs from the record that is there in
nothing but what each worker overwrites that has read the record and is yet to write it. -/
def Fresh (works : ι → RecordWork) (K : Key) (c : BotWorkers ι G) (i : ι) : Prop :=
  ∀ o record', c.next i = some o → (recordCell K).touch o = .write record' →
    ∀ j, j ≠ i → (recordCell K).WritesFirst (c.left j) →
      ∀ record, channelRecord K c.shared = some record →
        ∃ d d', strToChannelData record = some d ∧ strToChannelData record' = some d' ∧
          (works j).job.Agree (works j).pMsg.parameters d d'

end RecordWork

/-- Workers that set the topic, the greeting or the modes of one registered channel, in a
run in which every write is fresh: when all have ended, the record is the one that the
handlers leave when they run one after the other, in some order. -/
theorem record_not_lost [Fintype ι] {works : ι → RecordWork} {K : Key} {w : World G}
    {c : BotWorkers ι G} {es : List ι}
    (same : ∀ i, (works i).pMsg.pAccessChannel.map key = some K)
    (registered : (channelRecord K w).isSome)
    (run : Run (RecordWork.step works) (RecordWork.Fresh works K) (RecordWork.start works w) es c)
    (ended : c.Ended) : ∃ order : List ι, order.Nodup ∧ (∀ i, i ∈ order) ∧
      ∃ w', RecordWork.serially works order w = some w' ∧
        channelRecord K w' = channelRecord K c.shared := by
  obtain ⟨record₀, hrecord₀⟩ := Option.isSome_iff_exists.mp registered
  let update (i : ι) := (works i).job.update (works i).pMsg.parameters
  have transaction (i : ι) : Cell.InPhase (recordCell K) (update i)
      ((works i).job.handler (works i).pMsg) .before :=
    RecordJob.handler_inPhase (same i) (works i).job
  have indifferent (c : BotWorkers ι G) (i : ι) (fresh : RecordWork.Fresh works K c i) :
      Cell.Indifferent (recordCell K) (channelRecord K) update c i := by
    intro o record' hnext hwrite j hj hfirst record hrecord _
    obtain ⟨d, d', hd, hd', hagree⟩ := fresh o record' hnext hwrite j hj hfirst record hrecord
    exact (hagree.update_eq hd hd').symm
  exact Cell.serializable (fun i => recordCell_lawful K (works i).env) transaction hrecord₀
    (run.mono indifferent) ended

/-! ## A topic and a greeting -/

/-- One worker sets the topic of `#c`, the other one its greeting. -/
def topicAndGreeting : Bool → RecordWork
  | false => ⟨calmEnv, .setTopic, rootItem "!topic #c A"⟩
  | true => ⟨calmEnv, .setGreeting, rootItem "!greeting #c B"⟩

theorem topicAndGreeting_same (i : Bool) :
    (topicAndGreeting i).pMsg.pAccessChannel.map key = some (key "#c") := by
  cases i <;> decide +kernel

/-- While one of two workers runs and the other is not about to write, every write is fresh. -/
theorem fresh_of_alone {works : Bool → RecordWork} {K : Key} {c c' : BotWorkers Bool G}
    {es : List Bool} {i : Bool} (idle : ¬ (recordCell K).WritesFirst (c.left (!i)))
    (h : Run.steps (RecordWork.step works) (fun _ e => e == i) c es = some c') :
    Run (RecordWork.step works) (RecordWork.Fresh works K) c es c' ∧
      c'.left (!i) = c.left (!i) := by
  have hne : (!i) ≠ i := by cases i <;> decide
  have keep (c₁ : BotWorkers Bool G) (e : Bool) (c₂ : BotWorkers Bool G)
      (hc₁ : c₁.left (!i) = c.left (!i)) (he : (e == i) = true)
      (hstep : RecordWork.step works c₁ e = some c₂) : c₂.left (!i) = c.left (!i) := by
    obtain rfl := beq_iff_eq.mp he
    obtain ⟨o, k, r, w, -, -, rfl⟩ := Threads.step_cases hstep
    exact (Function.update_of_ne hne _ _).trans hc₁
  have run := Run.of_steps h
  refine ⟨run.weaken keep (fun c₁ e hc₁ he => ?_) rfl, run.invariant keep rfl⟩
  obtain rfl := beq_iff_eq.mp he
  intro o record' _ _ j hj hfirst
  obtain rfl : j = !e := by cases j <;> cases e <;> first | rfl | exact absurd rfl hj
  exact absurd (hc₁ ▸ hfirst) idle

/-- The greeting after the topic: both are in the record. -/
theorem record_not_lost_topicAndGreeting : ∃ c : BotWorkers Bool Gdbm, c.Ended ∧
    channelRecord (key "#c") c.shared = some "\tA\tB".toList ∧
    ∃ order : List Bool, order.Nodup ∧ (∀ i, i ∈ order) ∧
      ∃ w', RecordWork.serially topicAndGreeting order channelBot = some w' ∧
        channelRecord (key "#c") w' = channelRecord (key "#c") c.shared := by
  let start : BotWorkers Bool Gdbm := RecordWork.start topicAndGreeting channelBot
  have computed : ((Run.steps (RecordWork.step topicAndGreeting) (fun _ e => e == false) start
      (.replicate 5 false)).bind fun c => (Run.steps (RecordWork.step topicAndGreeting)
        (fun _ e => e == true) c (.replicate 4 true)).map fun c' =>
          ((c.next false).isSome, (c'.next true).isSome, channelRecord (key "#c") c'.shared)) =
      some (false, false, some "\tA\tB".toList) := by
    decide +kernel
  obtain ⟨c₁, hc₁, hrest⟩ := Option.bind_eq_some_iff.mp computed
  obtain ⟨c, hc, hfacts⟩ := Option.map_eq_some_iff.mp hrest
  simp only [Prod.mk.injEq] at hfacts
  obtain ⟨hfalse, htrue, hrecord⟩ := hfacts
  have idle₁ : ¬ (recordCell (key "#c")).WritesFirst (start.left !false) :=
    (RecordJob.handler_inPhase (topicAndGreeting_same true) .setGreeting).not_writesFirst
  obtain ⟨run₁, -⟩ := fresh_of_alone idle₁ hc₁
  have hended₁ : c₁.left false = .ret () :=
    Threads.ended_of_next hfalse
  have idle₂ : ¬ (recordCell (key "#c")).WritesFirst (c₁.left !true) := by
    rw [Bool.not_true, hended₁]
    exact nofun
  obtain ⟨run₂, hleft₂⟩ := fresh_of_alone idle₂ hc
  have hended : c.Ended := fun i => by
    cases i
    · exact hleft₂.trans hended₁
    · exact Threads.ended_of_next htrue
  exact ⟨c, hended, hrecord,
    record_not_lost topicAndGreeting_same (by decide +kernel) (run₁.append run₂) hended⟩

theorem bool_order {order : List Bool} (nodup : order.Nodup) (all : ∀ i, i ∈ order) :
    order = [false, true] ∨ order = [true, false] := by
  have hlength : order.length ≤ 2 := nodup.length_le_card
  match order with
  | [] => exact absurd (all true) List.not_mem_nil
  | [a] =>
    have hfalse := List.mem_singleton.mp (all false)
    have htrue := List.mem_singleton.mp (all true)
    exact absurd (hfalse.trans htrue.symm) (by decide)
  | [a, b] =>
    cases a <;> cases b <;>
      first | exact .inl rfl | exact .inr rfl | exact absurd nodup (by decide)
  | a :: b :: e :: l => exact absurd hlength (by simp)

/-- Both read the empty record, and the greeting is written last: the topic is not in the
record, as it is after either order of the two. -/
theorem record_lost_topicAndGreeting : ∃ (c : BotWorkers Bool Gdbm) (es : List Bool),
    Run (RecordWork.step topicAndGreeting) (fun _ _ => True)
      (RecordWork.start topicAndGreeting channelBot) es c ∧ c.Ended ∧
    ∀ order : List Bool, order.Nodup → (∀ i, i ∈ order) →
      ∀ w', RecordWork.serially topicAndGreeting order channelBot = some w' →
        channelRecord (key "#c") w' ≠ channelRecord (key "#c") c.shared := by
  have computed : ((Run.steps (RecordWork.step topicAndGreeting) (fun _ _ => true)
      (RecordWork.start topicAndGreeting channelBot)
      [false, true, true, false, false, false, false, true, true]).map fun c =>
        ((c.next false).isSome, (c.next true).isSome, channelRecord (key "#c") c.shared)) =
      some (false, false, some "\t\tB".toList) := by
    decide +kernel
  have serial : ∀ order ∈ [[false, true], [true, false]],
      (RecordWork.serially topicAndGreeting order channelBot).map (channelRecord (key "#c")) =
        some (some "\tA\tB".toList) := by
    decide +kernel
  obtain ⟨c, hc, hfacts⟩ := Option.map_eq_some_iff.mp computed
  simp only [Prod.mk.injEq] at hfacts
  obtain ⟨hfalse, htrue, hrecord⟩ := hfacts
  refine ⟨c, _, (Run.of_steps hc).mono fun _ _ _ => trivial, fun i => ?_, ?_⟩
  · cases i
    · exact Threads.ended_of_next hfalse
    · exact Threads.ended_of_next htrue
  · intro order nodup all w' hw' hsame
    have hboth := serial order (by
      rcases bool_order nodup all with rfl | rfl <;> decide)
    rw [hw', Option.map_some, hsame, hrecord] at hboth
    exact absurd hboth (by decide)

end Ebotula
