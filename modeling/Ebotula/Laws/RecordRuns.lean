import Ebotula.Laws.ModeArguments
import Ebotula.Laws.RecordChange

/-!
# Channel records in runs of the bot

The texts the commands are given are trimmed, so a record that the bot has written is one that
reads back, and the record that a command makes of it is one again. So is every record, in every
run; each command changes the part of it that it is there for, and nothing else.
-/

set_option autoImplicit false

namespace Ebotula

open Library

variable {G : Type} [DbLib G] {w w' : World G} {env : Env} {pMsg : MsgItem} {e : Event}

/-! ## Records that read back -/

/-- A record as the bot writes them. -/
def IsCanonical (record : CStr) : Prop :=
  ∃ d : ChannelData, d.WellFormed ∧ record = channelDataToStr d

/-- Every record on the channel list is one. -/
def RecordsCanonical (w : World G) : Prop :=
  ∀ K, ∀ record ∈ channelRecord K w, IsCanonical record

/-- What a job makes of the parts of a record. -/
def RecordJob.change (pParameters : Option CStr) : RecordJob → ChannelData → Option ChannelData
  | setTopic, d => some { d with pTopic := pParameters }
  | setGreeting, d => some { d with pGreeting := pParameters }
  | chanmode, d =>
    match pParameters with
    | none => some d
    | some pParameters =>
      (strToChannelMode pParameters).map fun sNewMode =>
        { d with sModes := mergeModes d.sModes sNewMode }

/-- The part of a record that a job is there for, as the extractors read it. -/
def RecordJob.reads : RecordJob → CStr → Option CStr
  | setTopic, record => getTopic record
  | setGreeting, record => getGreeting record
  | chanmode, record => some (getChannelMode record)

/-- The same part of what is written. -/
def RecordJob.part : RecordJob → ChannelData → Option CStr
  | setTopic, d => d.pTopic
  | setGreeting, d => d.pGreeting
  | chanmode, d => some (channelModeToStr d.sModes)

section Canonical

variable {record record' text : CStr} {d d' : ChannelData} {job other : RecordJob}
  {pParameters : Option CStr}

theorem reads_channelDataToStr (h : d.WellFormed) :
    job.reads (channelDataToStr d) = job.part d := by
  obtain ⟨htopic, htopic'⟩ := text_or_none h.topic
  obtain ⟨hgreeting, hgreeting'⟩ := text_or_none h.greeting
  cases job with
  | setTopic =>
    rw [RecordJob.reads, channelDataToStr, getTopic_record h.modes.tab_notMem htopic, htopic']
    rfl
  | setGreeting =>
    rw [RecordJob.reads, channelDataToStr, getGreeting_record hgreeting, hgreeting']
    rfl
  | chanmode =>
    rw [RecordJob.reads, channelDataToStr, getChannelMode_record h.modes.tab_notMem]
    rfl

theorem IsCanonical.tabs (h : IsCanonical record) : record.count '\t' = 2 := by
  obtain ⟨d, hd, rfl⟩ := h
  have hmodes := List.count_eq_zero.mpr hd.modes.tab_notMem
  have htopic := List.count_eq_zero.mpr (text_or_none hd.topic).1
  have hgreeting := List.count_eq_zero.mpr (text_or_none hd.greeting).1
  rw [channelDataToStr, List.count_append, List.count_append, List.count_cons_self,
    List.count_cons_self, hmodes, htopic, hgreeting]

theorem IsCanonical.fixed (h : IsCanonical record) :
    (strToChannelData record).map channelDataToStr = some record := by
  obtain ⟨d, hd, rfl⟩ := h
  rw [strToChannelData_back hd, Option.map_some]

/-- Between decoding and encoding a job changes the parts. -/
theorem update_channelDataToStr (h : d.WellFormed) :
    job.update pParameters (channelDataToStr d) =
      (job.change pParameters d).map channelDataToStr := by
  have hback := strToChannelData_back h
  cases job with
  | setTopic => rw [RecordJob.update, hback]; rfl
  | setGreeting => rw [RecordJob.update, hback]; rfl
  | chanmode =>
    cases pParameters with
    | none => rfl
    | some text =>
      simp only [RecordJob.update, RecordJob.change, hback]
      cases strToChannelMode text <;> rfl

/-- A merge of well-formed modes is well formed. -/
theorem mergeModes_wellFormed {m n : ChannelMode} (hm : m.WellFormed)
    (hn : strToChannelMode text = some n)
    (hwords : (∀ word ∈ n.pKeyword, IsWord word) ∧ ∀ word ∈ n.pLimit, IsWord word) :
    (mergeModes m n).WellFormed := by
  obtain ⟨sign, hsign, s, rfl⟩ := strToChannelMode_saved hm.strToChannelMode
  obtain ⟨nsign, -, t, rfl⟩ := strToChannelMode_saved hn
  have hrestrict : (∀ word ∈ (t.restrict Flag.all.dropLast).keyword, IsWord word) ∧
      ∀ word ∈ (t.restrict Flag.all.dropLast).limit, IsWord word := hwords
  have hchanged := SavedModes.change_words nsign ⟨hm.keyword, hm.limit⟩ hrestrict
  rw [mergeModes_mode hsign]
  refine SavedModes.mode_wellFormed ?_ hchanged.1 hchanged.2
  rw [signOf]
  split <;> decide

/-- The parameters of a command keep a record well formed. -/
theorem change_wellFormed (h : d.WellFormed) (hchange : job.change pMsg.parameters d = some d') :
    d'.WellFormed := by
  have hdelivered : ∀ s ∈ pMsg.parameters, s ≠ [] ∧ '\t' ∉ s := fun s hs =>
    (MsgItem.parameters_trimmed hs).imp_right IsTrimmed.no_tab
  cases job with
  | setTopic =>
    cases hchange
    exact ⟨h.modes, hdelivered, h.greeting⟩
  | setGreeting =>
    cases hchange
    exact ⟨h.modes, h.topic, hdelivered⟩
  | chanmode =>
    cases hparameters : pMsg.parameters with
    | none =>
      rw [hparameters] at hchange
      cases hchange
      exact h
    | some text =>
      rw [hparameters] at hchange
      obtain ⟨n, hn, rfl⟩ := Option.map_eq_some_iff.mp hchange
      obtain ⟨hne, htrim⟩ := MsgItem.parameters_trimmed hparameters
      exact ⟨mergeModes_wellFormed h.modes hn (strToChannelMode_words hne htrim hn), h.topic,
        h.greeting⟩

/-- A job changes no part but its own. -/
theorem change_part (hchange : job.change pParameters d = some d') (hne : other ≠ job) :
    other.part d' = other.part d := by
  cases job with
  | setTopic =>
    cases hchange
    cases other <;> first | rfl | exact absurd rfl hne
  | setGreeting =>
    cases hchange
    cases other <;> first | rfl | exact absurd rfl hne
  | chanmode =>
    cases pParameters with
    | none =>
      cases hchange
      rfl
    | some text =>
      obtain ⟨n, -, rfl⟩ := Option.map_eq_some_iff.mp hchange
      cases other <;> first | rfl | exact absurd rfl hne

/-- What a job writes for a record that reads back, reads back and differs in one part. -/
theorem update_canonical (h : IsCanonical record)
    (hupdate : job.update pMsg.parameters record = some record') :
    IsCanonical record' ∧ ∀ other ≠ job, other.reads record' = other.reads record := by
  obtain ⟨d, hd, rfl⟩ := h
  rw [update_channelDataToStr hd] at hupdate
  obtain ⟨d', hchange, rfl⟩ := Option.map_eq_some_iff.mp hupdate
  have hd' := change_wellFormed hd hchange
  refine ⟨⟨d', hd', rfl⟩, fun other hne => ?_⟩
  rw [reads_channelDataToStr hd', reads_channelDataToStr hd, change_part hchange hne]

end Canonical

/-! ## Runs -/

/-- No channel is on the list. -/
def NoRecords (w : World G) : Prop := ∀ K, channelRecord K w = none

theorem NoRecords.canonical (h : NoRecords w) : RecordsCanonical w := fun K record hrecord => by
  rw [h K] at hrecord
  cases hrecord

theorem newChannel_canonical : IsCanonical ['\t', '\t'] :=
  ⟨newChannel, newChannel_wellFormed, by decide +kernel⟩

/-- One event leaves every record one that reads back. -/
theorem RecordChange.canonical {K : Key} {record record' : Option CStr}
    (h : RecordChange K e record record') (hrecord : ∀ s ∈ record, IsCanonical s) :
    ∀ s ∈ record', IsCanonical s := by
  cases h with
  | same => exact hrecord
  | added =>
    intro s hs
    exact Option.some.inj hs ▸ newChannel_canonical
  | removed => exact nofun
  | rewritten _ hupdate =>
    intro s hs
    exact Option.some.inj hs ▸ (update_canonical (hrecord _ rfl) hupdate).1

/-- So does a run. -/
theorem RecordsCanonical.run {ok : World G → Event → Prop} {es : List Event}
    (h : RecordsCanonical w) (run : Run step ok w es w') : RecordsCanonical w' :=
  run.invariant (I := RecordsCanonical)
    (fun _ _ _ h _ hstep K => (step_record hstep K).canonical (h K)) h

/-- In every run from an empty channel list on, the mode field of every record is read within the
array of arguments; and a request is read within it exactly if its first word takes no more
arguments than there are and no more than two. -/
theorem mode_arguments_in_bounds_iff {es : List Event} (start : NoRecords w)
    (run : Run step (fun _ _ => True) w es w') :
    (∀ K record, channelRecord K w' = some record → ArgvInBounds (getChannelMode record)) ∧
      ∀ pMsg : MsgItem, ∀ text ∈ pMsg.parameters, ArgvInBounds text ↔ PartsGiven text := by
  refine ⟨fun K record hrecord => ?_, fun _ _ _ => argvInBounds_iff⟩
  have hfixed := (start.canonical.run run K record hrecord).fixed
  rw [argvInBounds_iff_isSome]
  obtain ⟨d, hd, -⟩ := Option.map_eq_some_iff.mp hfixed
  obtain ⟨m, hm, -⟩ := Option.map_eq_some_iff.mp hd
  rw [hm, Option.isSome_some]

/-- A channel with a keyword, and a request with a keyword and a limit. -/
theorem mode_arguments_in_bounds_key : ∃ es w', Run step (fun _ _ => True) freshBot es w' ∧
    channelRecord (key "#c") w' = some "+k secret\t\t".toList ∧
    ArgvInBounds (getChannelMode "+k secret\t\t") ∧
    (rootItem "!chanmode #c +kl other 5").parameters = some "+kl other 5".toList ∧
    ArgvInBounds "+kl other 5" := by
  have computed : (receiveAll (fun _ _ => true) calmEnv freshBot
      [":root!r@h PRIVMSG ebotula :!hello", ":root!r@h PRIVMSG ebotula :!addchannel #c",
        ":root!r@h PRIVMSG ebotula :!chanmode #c +k secret"]).map (channelRecord (key "#c")) =
      some (some "+k secret\t\t".toList) := by
    decide +kernel
  have hparameters : (rootItem "!chanmode #c +kl other 5").parameters =
      some "+kl other 5".toList := by decide +kernel
  obtain ⟨w', hw, hrecord⟩ := Option.map_eq_some_iff.mp computed
  obtain ⟨es, run⟩ := run_of_receiveAll hw
  have run : Run step (fun _ _ => True) freshBot es w' := run.mono fun _ _ _ => trivial
  have bounds := mode_arguments_in_bounds_iff (fun _ => rfl) run
  exact ⟨es, w', run, hrecord, bounds.1 _ _ hrecord, hparameters,
    (bounds.2 _ _ hparameters).mpr (by decide +kernel)⟩

/-- A `k` without a word reads a NULL, and a third letter behind the array. -/
theorem mode_arguments_missing :
    (rootItem "!chanmode #c +k").parameters = some "+k".toList ∧ ¬ ArgvInBounds "+k" ∧
      ((chanmode (rootItem "!chanmode #c +k")).run (perform calmEnv) channelBot).isNone = true ∧
    (rootItem "!chanmode #c +klk a 5 b").parameters = some "+klk a 5 b".toList ∧
      ¬ ArgvInBounds "+klk a 5 b" := by
  refine ⟨by decide +kernel, ?_, by decide +kernel, by decide +kernel, ?_⟩
  · rw [argvInBounds_iff]
    decide +kernel
  · rw [argvInBounds_iff]
    decide +kernel

/-! ## The four commands of a record -/

section Ends

attribute [local irreducible] Prog.Calls

theorem run_talk {p : Quiet Unit} (h : Talks p) :
    ∃ w', (p.lift : Bot Unit).run (perform env) w = some ((), w') := by
  obtain ⟨⟨⟨⟩, w'⟩, hrun⟩ := h.total.run env w
  exact ⟨w', hrun⟩

/-- Without a channel on the list a job has an answer, and that is all. -/
theorem job_unlisted (env : Env) (job : RecordJob)
    (h : ∀ pChannel, pMsg.pAccessChannel = some pChannel →
      channelRecord (key pChannel) w = none) :
    ∃ w', (job.handler pMsg).run (perform env) w = some ((), w') := by
  have noChannel : Talks (answerNoChannel pMsg) := talks_answer [] (by decide +kernel) rfl
  have unlisted {format : CStr} {args : List FmtArg} {pChannel : CStr}
      {q : CStr → Bot Unit} (w : World G) (hrecord : channelRecord (key pChannel) w = none)
      (htalk : Talks (answer pMsg format args)) :
      ∃ w', ((getDb .channel (some pChannel)).lift >>= fun r =>
        match r with
        | none => (answer pMsg format args).lift
        | some record => q record : Bot Unit).run (perform env) w = some ((), w') := by
    have hnone : w.db.getDb .channel (some pChannel) = none := hrecord
    rw [Prog.run_bind, run_perform_lift, run_getDb, hnone, Option.bind_some]
    exact run_talk htalk
  cases hchannel : pMsg.pAccessChannel with
  | none =>
    cases job <;> simp only [RecordJob.handler, setTopic, setGreeting, chanmode, hchannel] <;>
      exact run_talk noChannel
  | some pChannel =>
    have hrecord := h pChannel hchannel
    cases job with
    | setTopic =>
      simp only [RecordJob.handler, setTopic, hchannel, Prog.liftM_eq]
      exact unlisted w hrecord (talks_answer [] (by decide +kernel) rfl)
    | setGreeting =>
      simp only [RecordJob.handler, setGreeting, hchannel, Prog.liftM_eq]
      rw [Prog.run_bind, run_perform_lift]
      exact unlisted (w.logging _) hrecord (talks_answer [.str none] (by decide +kernel) rfl)
    | chanmode =>
      simp only [RecordJob.handler, chanmode, hchannel, Prog.liftM_eq]
      cases pMsg.parameters with
      | none => exact run_talk (talks_answer [] (by decide +kernel) rfl)
      | some pParameters =>
        exact unlisted w hrecord (talks_answer [.str none] (by decide +kernel) rfl)

theorem total_addChannel (pMsg : MsgItem) : Total (addChannel pMsg) := by
  have noChannel : Talks (answerNoChannel pMsg) := talks_answer [] (by decide +kernel) rfl
  have told {format pChannel : CStr} (hformat : Formats format [.str none]) :
      Talks (answer pMsg format [.str pChannel]) := talks_answer [.str none] hformat rfl
  unfold addChannel
  simp only [Prog.liftM_eq]
  cases pMsg.pAccessChannel with
  | none => exact noChannel.total
  | some pAccessChannel =>
    refine .ite noChannel.total (.bind (total_request trivial) fun _ => .ite ?_ ?_)
    · exact (told (by decide +kernel)).total
    · refine .bind total_logger fun _ => .bind (calls_addDb trivial) fun _ => ?_
      refine .bind (told (by decide +kernel)).total fun _ => ?_
      refine .bind (talks_sendCommand [.str none] (by decide +kernel) rfl).total fun _ => ?_
      exact (told (by decide +kernel)).total

end Ends

section Commands

variable {K : Key} {job : RecordJob} {r r' : Option CStr}

/-- A job changes the record of its channel, if it is on the list, and no other. -/
theorem RecordChange.of_job (h : RecordChange K e r r') (he : e = .command env job.cmd pMsg) :
    r' = r ∨ ∃ record record', pMsg.pAccessChannel.map key = some K ∧ r = some record ∧
      r' = some record' ∧ job.update pMsg.parameters record = some record' := by
  cases h with
  | same => exact .inl rfl
  | added =>
    injection he with _ hid
    cases job <;> cases hid
  | removed =>
    injection he with _ hid
    cases job <;> cases hid
  | @rewritten _ _ job' _ _ hchannel hupdate =>
    injection he with _ hid hmsg
    obtain rfl : job' = job := by cases job' <;> cases job <;> first | rfl | cases hid
    subst hmsg
    exact .inr ⟨_, _, hchannel, rfl, rfl, hupdate⟩

/-- `!addchannel` changes no record that is on the list. -/
theorem RecordChange.of_addChannel {record : CStr} (h : RecordChange K e (some record) r')
    (he : e = .command env .addChannel pMsg) : r' = some record := by
  cases h with
  | same => rfl
  | removed =>
    injection he with _ hid
    cases hid
  | @rewritten _ _ job' =>
    injection he with _ hid
    cases job' <;> cases hid

/-- The letters of the line have their parts, if it is a mode line. -/
def RecordJob.Fits (job : RecordJob) (pMsg : MsgItem) : Prop :=
  job = .chanmode → ∀ text ∈ pMsg.parameters, PartsGiven text

theorem RecordJob.Fits.change (h : job.Fits pMsg) (d : ChannelData) :
    (job.change pMsg.parameters d).isSome = true := by
  cases job with
  | setTopic => rfl
  | setGreeting => rfl
  | chanmode =>
    cases hparameters : pMsg.parameters with
    | none => rfl
    | some text =>
      simp only [RecordJob.change, Option.isSome_map]
      exact strToChannelMode_isSome.mpr (h rfl text hparameters)

theorem step_of_handler (hrun : (job.handler pMsg).run (perform env) w = some ((), w')) :
    step w (.command env job.cmd pMsg) = some w' := by
  cases job <;> exact congrArg (Option.map Prod.snd) hrun

/-- On a listed channel a job whose letters have their parts writes what it is to write. -/
theorem RecordJob.Fits.updates (env : Env) {record : CStr} (hfits : job.Fits pMsg)
    (hchannel : pMsg.pAccessChannel.map key = some K) (hrecord : channelRecord K w = some record)
    (canonical : IsCanonical record) :
    ∃ w' record', step w (.command env job.cmd pMsg) = some w' ∧
      channelRecord K w' = some record' ∧ job.update pMsg.parameters record = some record' := by
  obtain ⟨d, hd, rfl⟩ := canonical
  obtain ⟨d', hd'⟩ := Option.isSome_iff_exists.mp (hfits.change d)
  have hupdate : job.update pMsg.parameters (channelDataToStr d) = some (channelDataToStr d') := by
    rw [update_channelDataToStr hd, hd', Option.map_some]
  obtain ⟨⟨⟩, w', hrun, hrecord'⟩ := (RecordJob.handler_inPhase hchannel job).run_ends
    (recordCell_lawful K env) hrecord hupdate
  exact ⟨w', _, step_of_handler hrun, hrecord', hupdate⟩

/-- A job whose letters have their parts is handled to its end. -/
theorem RecordsCanonical.job_ends (canonical : RecordsCanonical w) (hfits : job.Fits pMsg) :
    ∃ w', step w (.command env job.cmd pMsg) = some w' := by
  by_cases hlisted : ∃ K record, pMsg.pAccessChannel.map key = some K ∧
      channelRecord K w = some record
  · obtain ⟨K, record, hchannel, hrecord⟩ := hlisted
    obtain ⟨w', -, hstep, -⟩ := hfits.updates env hchannel hrecord (canonical K record hrecord)
    exact ⟨w', hstep⟩
  · have unlisted (pChannel : CStr) (hchannel : pMsg.pAccessChannel = some pChannel) :
        channelRecord (key pChannel) w = none := by
      by_contra hrecord
      obtain ⟨record, hrecord⟩ := Option.ne_none_iff_exists'.mp hrecord
      exact hlisted ⟨_, record, congrArg (Option.map key) hchannel, hrecord⟩
    obtain ⟨w', hrun⟩ := job_unlisted env job unlisted
    exact ⟨w', step_of_handler hrun⟩

/-- The event replaces the text of this job in the record of the channel, or takes the channel
off the list. -/
def Event.Overwrites (job : RecordJob) (K : Key) : Event → Prop
  | .command _ id pMsg =>
    (id = job.cmd ∨ id = .rmChannel) ∧ pMsg.pAccessChannel.map key = some K
  | _ => False

/-- Any other event leaves that text as it is. -/
theorem RecordChange.reads {record : CStr} (h : RecordChange K e (some record) r')
    (canonical : IsCanonical record) (hother : ¬ e.Overwrites job K) :
    ∃ record', r' = some record' ∧ IsCanonical record' ∧
      job.reads record' = job.reads record := by
  cases h with
  | same => exact ⟨record, rfl, canonical, rfl⟩
  | removed hchannel => exact absurd ⟨.inr rfl, hchannel⟩ hother
  | @rewritten _ _ job' _ record' hchannel hupdate =>
    obtain ⟨canonical', hreads⟩ := update_canonical canonical hupdate
    refine ⟨record', rfl, canonical', hreads job fun hjob => hother ?_⟩
    exact ⟨.inl (hjob ▸ rfl), hchannel⟩

/-- A topic or a greeting that a job has just set is the one it was given. -/
theorem update_reads {record record' : CStr} (canonical : IsCanonical record)
    (htext : job ≠ .chanmode) (hupdate : job.update pMsg.parameters record = some record') :
    job.reads record' = pMsg.parameters := by
  obtain ⟨d, hd, rfl⟩ := canonical
  rw [update_channelDataToStr hd] at hupdate
  obtain ⟨d', hchange, rfl⟩ := Option.map_eq_some_iff.mp hupdate
  rw [reads_channelDataToStr (change_wellFormed hd hchange)]
  cases job with
  | setTopic =>
    cases hchange
    rfl
  | setGreeting =>
    cases hchange
    rfl
  | chanmode => exact absurd rfl htext

end Commands

/-- In every run from an empty channel list on, every record has two tabs and is what decoding and
encoding it gives. Each of the commands is handled to its end, if the letters of a mode line have
their parts; it changes nothing of a record but the part it is there for. And a topic or greeting
that was set last is read back as it was delivered. -/
theorem channel_records_canonical {es : List Event} (start : NoRecords w)
    (run : Run step (fun _ _ => True) w es w') :
    (∀ K record, channelRecord K w' = some record → record.count '\t' = 2 ∧
      (strToChannelData record).map channelDataToStr = some record) ∧
    (∀ env (job : RecordJob) (pMsg : MsgItem), job.Fits pMsg →
      ∃ w'', step w' (.command env job.cmd pMsg) = some w'' ∧
        ∀ K record, channelRecord K w' = some record →
          ∃ record', channelRecord K w'' = some record' ∧
            (pMsg.pAccessChannel.map key ≠ some K → record' = record) ∧
            ∀ other ≠ job, other.reads record' = other.reads record) ∧
    (∀ env (pMsg : MsgItem), ∃ w'', step w' (.command env .addChannel pMsg) = some w'' ∧
      ∀ K record, channelRecord K w' = some record → channelRecord K w'' = some record) ∧
    ∀ env (job : RecordJob) (pMsg : MsgItem) K record w₁ es₁ w₂, job ≠ .chanmode →
      pMsg.pAccessChannel.map key = some K → channelRecord K w' = some record →
      step w' (.command env job.cmd pMsg) = some w₁ →
      Run step (fun _ e => ¬ e.Overwrites job K) w₁ es₁ w₂ →
      ∃ record', channelRecord K w₂ = some record' ∧ job.reads record' = pMsg.parameters := by
  have canonical := start.canonical.run run
  refine ⟨fun K record hrecord => ?_, fun env job pMsg hfits => ?_, fun env pMsg => ?_, ?_⟩
  · exact ⟨(canonical K record hrecord).tabs, (canonical K record hrecord).fixed⟩
  · obtain ⟨w'', hstep⟩ := canonical.job_ends hfits
    refine ⟨w'', hstep, fun K record hrecord => ?_⟩
    rcases (step_record hstep K).of_job rfl with hsame | ⟨s, s', hchannel, hs, hs', hupdate⟩
    · exact ⟨record, hsame.trans hrecord, fun _ => rfl, fun _ _ => rfl⟩
    · obtain rfl := Option.some.inj (hrecord.symm.trans hs)
      exact ⟨s', hs', fun hne => absurd hchannel hne,
        (update_canonical (canonical K record hrecord) hupdate).2⟩
  · obtain ⟨⟨⟨⟩, w''⟩, hrun⟩ := (total_addChannel pMsg).run env w'
    have hstep : step w' (.command env .addChannel pMsg) = some w'' :=
      congrArg (Option.map Prod.snd) hrun
    refine ⟨w'', hstep, fun K record hrecord => ?_⟩
    have hchange := step_record hstep K
    rw [hrecord] at hchange
    exact hchange.of_addChannel rfl
  · intro env job pMsg K record w₁ es₁ w₂ htext hchannel hrecord hstep run₁
    have hfits : job.Fits pMsg := fun h => absurd h htext
    obtain ⟨w₁', record', hstep', hrecord', hupdate⟩ :=
      hfits.updates env hchannel hrecord (canonical K record hrecord)
    obtain rfl := Option.some.inj (hstep.symm.trans hstep')
    have hset := update_reads (canonical K record hrecord) htext hupdate
    -- what comes later leaves the text as it is
    have hlast := run₁.invariant (I := fun w => ∃ s, channelRecord K w = some s ∧
      IsCanonical s ∧ job.reads s = pMsg.parameters) ?_ ⟨record', hrecord', ?_, hset⟩
    · exact hlast.imp fun _ h => ⟨h.1, h.2.2⟩
    · rintro w e w' ⟨s, hs, hcanonical, hreads⟩ hother hstep
      have hchange := step_record hstep K
      rw [hs] at hchange
      obtain ⟨s', hs', hcanonical', hsame⟩ := hchange.reads hcanonical hother
      exact ⟨s', hs', hcanonical', hsame.trans hreads⟩
    · exact (update_canonical (canonical K record hrecord) hupdate).1

/-- A line that sets a topic. -/
def newsItem : MsgItem := rootItem "!topic #c news  of the day "

/-- The topic is set on a new channel. -/
theorem channel_records_canonical_topic : ∃ es w w₁ record',
    Run step (fun _ _ => True) freshBot es w ∧
    step w (.command calmEnv .setTopic newsItem) = some w₁ ∧
    channelRecord (key "#c") w₁ = some record' ∧
    getTopic record' = some "news of the day".toList ∧ record'.count '\t' = 2 := by
  have computed : (receiveAll (fun _ _ => true) calmEnv freshBot
      [":root!r@h PRIVMSG ebotula :!hello", ":root!r@h PRIVMSG ebotula :!addchannel #c"]).map
      (channelRecord (key "#c")) = some (some "\t\t".toList) := by
    decide +kernel
  have hitem : newsItem.pAccessChannel.map key = some (key "#c") ∧
      newsItem.parameters = some "news of the day".toList := by decide +kernel
  obtain ⟨w, hw, hrecord⟩ := Option.map_eq_some_iff.mp computed
  obtain ⟨es, run⟩ := run_of_receiveAll hw
  have run : Run step (fun _ _ => True) freshBot es w := run.mono fun _ _ _ => trivial
  obtain ⟨-, ends, -, last⟩ := channel_records_canonical (fun _ => rfl) run
  obtain ⟨w₁, hstep, -⟩ := ends calmEnv .setTopic newsItem nofun
  obtain ⟨record', hrecord', hreads⟩ :=
    last calmEnv .setTopic newsItem _ _ w₁ [] w₁ nofun hitem.1 hrecord hstep (.nil w₁)
  have run₁ : Run step (fun _ _ => True) freshBot (es ++ [_]) w₁ :=
    run.append (.cons trivial hstep (.nil w₁))
  obtain ⟨canonical, -⟩ := channel_records_canonical (fun _ => rfl) run₁
  exact ⟨es, w, w₁, record', run, hstep, hrecord', hreads.trans hitem.2,
    (canonical _ _ hrecord').1⟩

end Ebotula
