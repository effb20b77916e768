import Ebotula.Laws.Effects
import Ebotula.Laws.Requests
import Ebotula.Library.Transaction

/-!
# The commands that rewrite a channel record

`!topic`, `!greeting` and `!chanmode` all go the same way: read the record of the channel,
decode it, change one part and write the whole back. Each is a transaction on the record
(`handler_inPhase`), so what it makes of the record can be said once (`update`), and the
rules of `Library.Transaction` tell how it runs alone and beside others.
-/

set_option autoImplicit false

namespace Ebotula

open Library

variable {G : Type} [DbLib G]

/-- The commands that rewrite a channel record. -/
inductive RecordJob
  | setTopic | setGreeting | chanmode
  deriving DecidableEq, Repr

namespace RecordJob

def handler : RecordJob → MsgItem → Bot Unit
  | setTopic => Ebotula.setTopic
  | setGreeting => Ebotula.setGreeting
  | chanmode => Ebotula.chanmode

/-- What a job with these parameters writes for the record it reads, where the texts can be
decoded. -/
def update (pParameters : Option CStr) : RecordJob → CStr → Option CStr
  | setTopic, record =>
    (strToChannelData record).map fun d => channelDataToStr { d with pTopic := pParameters }
  | setGreeting, record =>
    (strToChannelData record).map fun d => channelDataToStr { d with pGreeting := pParameters }
  | chanmode, record =>
    match pParameters with
    | none => some record
    | some pParameters =>
      match strToChannelData record, strToChannelMode pParameters with
      | some d, some sNewMode =>
        some (channelDataToStr { d with sModes := mergeModes d.sModes sNewMode })
      | _, _ => none

end RecordJob

/-! ## What a job leaves of the databases -/

/-- All is as it was, or the record of the channel is rewritten. -/
inductive RecordJob.Outcome (job : RecordJob) (pMsg : MsgItem) (dbs : Databases G) :
    Databases G → Prop
  | untouched : Outcome job pMsg dbs dbs
  | rewritten {pChannel record record' : CStr} (hchannel : pMsg.pAccessChannel = some pChannel)
      (hrecord : dbs.getDb .channel (some pChannel) = some record)
      (hupdate : job.update pMsg.parameters record = some record') :
      Outcome job pMsg dbs (dbs.replaceDb .channel (some pChannel) (some record')).2

section Outcome

variable {env : Env} {w : World G} {pMsg : MsgItem}

theorem RecordJob.Outcome.of_eq {job : RecordJob} {dbs dbs' : Databases G} (h : dbs' = dbs) :
    job.Outcome pMsg dbs dbs' := h ▸ .untouched

theorem wp_setGreeting_outcome : (setGreeting pMsg).wp (perform env)
    (fun _ w' => RecordJob.setGreeting.Outcome pMsg w.db w'.db) w := by
  unfold setGreeting
  cases hchannel : pMsg.pAccessChannel with
  | none => exact wp_lift_quiet fun _ _ h => .of_eq h
  | some pAccessChannel =>
    simp only [Prog.wp_bind, Prog.liftM_eq, wp_perform_lift]
    refine wp_quiet fun _ w₁ h₁ => ?_
    rw [wp_getDb, h₁]
    cases hrecord : w.db.getDb .channel (some pAccessChannel) with
    | none => exact wp_lift_quiet fun _ _ h => .of_eq (h.trans h₁)
    | some pChannelSet =>
      dsimp only
      cases hdata : strToChannelData pChannelSet with
      | none => exact wp_lift_quiet fun _ _ h => .of_eq (h.trans h₁)
      | some sChannelData =>
        have hupdate : RecordJob.setGreeting.update pMsg.parameters pChannelSet =
            some (channelDataToStr { sChannelData with pGreeting := pMsg.parameters }) := by
          rw [RecordJob.update, hdata, Option.map_some]
        simp only [Prog.wp_bind, Prog.wp_ite, wp_perform_lift, wp_replaceDb, h₁]
        refine ⟨fun _ => wp_quiet fun _ _ h => ?_, fun _ => wp_quiet fun _ _ h => ?_⟩ <;>
          exact h ▸ .rewritten hchannel hrecord hupdate

theorem wp_setTopic_outcome : (setTopic pMsg).wp (perform env)
    (fun _ w' => RecordJob.setTopic.Outcome pMsg w.db w'.db) w := by
  unfold setTopic
  cases hchannel : pMsg.pAccessChannel with
  | none => exact wp_lift_quiet fun _ _ h => .of_eq h
  | some pAccessChannel =>
    simp only [Prog.wp_bind, Prog.liftM_eq, wp_perform_lift, wp_getDb]
    cases hrecord : w.db.getDb .channel (some pAccessChannel) with
    | none => exact wp_lift_quiet fun _ _ h => .of_eq h
    | some pChannelSet =>
      simp only [Prog.wp_bind, wp_perform_lift]
      refine wp_quiet fun _ w₁ h₁ => ?_
      cases hdata : strToChannelData pChannelSet with
      | none => exact wp_lift_quiet fun _ _ h => .of_eq (h.trans h₁)
      | some sChannelData =>
        have hupdate : RecordJob.setTopic.update pMsg.parameters pChannelSet =
            some (channelDataToStr { sChannelData with pTopic := pMsg.parameters }) := by
          rw [RecordJob.update, hdata, Option.map_some]
        simp only [Prog.wp_bind, Prog.wp_ite, wp_perform_lift, wp_replaceDb, h₁]
        refine wp_quiet fun _ w₂ h₂ => ⟨fun _ => wp_quiet fun _ _ h => ?_,
          fun _ => wp_quiet fun _ _ h => ?_⟩ <;>
          exact (h.trans h₂) ▸ .rewritten hchannel hrecord hupdate

theorem wp_chanmode_outcome : (chanmode pMsg).wp (perform env)
    (fun _ w' => RecordJob.chanmode.Outcome pMsg w.db w'.db) w := by
  unfold chanmode
  cases hchannel : pMsg.pAccessChannel with
  | none => exact wp_lift_quiet fun _ _ h => .of_eq h
  | some pAccessChannel =>
    cases hparameters : pMsg.parameters with
    | none => exact wp_lift_quiet fun _ _ h => .of_eq h
    | some pParameters =>
      simp only [Prog.wp_bind, Prog.liftM_eq, wp_perform_lift, wp_getDb]
      cases hrecord : w.db.getDb .channel (some pAccessChannel) with
      | none => exact wp_lift_quiet fun _ _ h => .of_eq h
      | some pChannelSet =>
        dsimp only
        cases hdata : strToChannelData pChannelSet with
        | none => exact wp_lift_quiet fun _ _ h => .of_eq h
        | some sChannelData =>
          cases hmode : strToChannelMode pParameters with
          | none => exact wp_lift_quiet fun _ _ h => .of_eq h
          | some sNewMode =>
            have hupdate : RecordJob.chanmode.update pMsg.parameters pChannelSet =
                some (channelDataToStr
                  { sChannelData with sModes := mergeModes sChannelData.sModes sNewMode }) := by
              simp only [RecordJob.update, hparameters, hdata, hmode]
            simp only [Prog.wp_bind, wp_perform_lift, wp_replaceDb]
            refine wp_quiet fun _ w₁ h₁ => wp_quiet fun _ w₂ h₂ => ?_
            refine wp_quiet fun _ w₃ h₃ => wp_quiet fun _ w₄ h₄ => ?_
            rw [h₄, h₃, h₂, h₁]
            exact .rewritten hchannel hrecord hupdate

end Outcome

/-! ## The record as a cell -/

/-- The record of one channel. Only `replace_db` of this record counts as a write; the
jobs make no other. -/
def recordCell (K : Key) : Cell (quietSig.sum writeSig) CStr where
  touch
    | .inl (.getDb .channel (some pChannel)) => if key pChannel = K then .read else .other
    | .inl .crash => .stuck
    | .inl (.insertNextCallback ..) | .inl (.removeCallback _) | .inl (.searchCallback ..)
    | .inl .unwrittenPointer => .wild
    | .inl _ => .other
    | .inr (.replaceDb .channel (some pChannel) (some record)) =>
      if key pChannel = K then .write record else .wild
    | .inr _ => .wild
  seen
    | .inl (.getDb _ _), r => r
    | _, _ => none

/-- The record of a channel in a world. -/
def channelRecord (K : Key) (w : World G) : Option CStr := w.db.fetch .channel K

theorem recordCell_read {K : Key} {pChannel : CStr} (h : key pChannel = K) :
    (recordCell K).touch (.inl (.getDb .channel (some pChannel))) = .read := if_pos h

theorem recordCell_write {K : Key} {pChannel record : CStr} (h : key pChannel = K) :
    (recordCell K).touch (.inr (.replaceDb .channel (some pChannel) (some record))) =
      .write record := if_pos h

theorem recordCell_lawful (K : Key) (env : Env) :
    (recordCell K).Lawful (channelRecord K) (perform (G := G) env) where
  does o w r w' record hrun hrecord := by
    cases o with
    | inl o =>
      have hdb : channelRecord K w' = some record := by
        rw [channelRecord, performQuiet_db hrun]
        exact hrecord
      cases o with
      | getDb db k =>
        obtain ⟨rfl, rfl⟩ := Prod.mk.inj (Option.some.inj hrun)
        cases k with
        | none => cases db <;> exact hdb
        | some pChannel =>
          cases db
          case channel =>
            by_cases hk : key pChannel = K
            · rw [recordCell_read hk]
              exact ⟨hk ▸ hrecord, hdb⟩
            · rw [show (recordCell K).touch (.inl (.getDb .channel (some pChannel))) = .other from
                if_neg hk]
              exact hdb
          all_goals exact hdb
      | crash => cases hrun
      | insertNextCallback | removeCallback | searchCallback | unwrittenPointer => trivial
      | _ => exact hdb
    | inr o =>
      cases o with
      | replaceDb db k value =>
        cases k with
        | none => cases db <;> trivial
        | some pChannel =>
          cases value with
          | none => cases db <;> trivial
          | some value =>
            cases db
            case channel =>
              by_cases hk : key pChannel = K
              · subst hk
                rw [recordCell_write rfl]
                cases hrun
                have hthere : (w.db.fetch .channel (key pChannel)).isSome :=
                  Option.isSome_iff_exists.mpr ⟨record, hrecord⟩
                simp only [channelRecord, DbWrite.apply, Databases.replaceDb_some, hthere,
                  if_true, Databases.fetch_write, Function.update_self,
                  Databases.storedValue_of_ne (show DatabaseID.channel ≠ .user from by decide)]
              · rw [show (recordCell K).touch (.inr (.replaceDb .channel (some pChannel)
                  (some value))) = .wild from if_neg hk]
                trivial
            all_goals trivial
      | _ => trivial
  answers o w hstuck hwild := by
    cases o with
    | inl o =>
      cases o with
      | crash => exact absurd rfl hstuck
      | insertNextCallback | removeCallback | searchCallback | unwrittenPointer =>
        exact absurd rfl hwild
      | _ => exact ⟨_, rfl⟩
    | inr o => exact ⟨_, rfl⟩

theorem Talks.other {α : Type} {K : Key} {p : Quiet α} (h : Talks p) :
    Prog.Calls (fun o => (recordCell K).touch o = .other) (p.lift : Bot α) :=
  .lift (h.mono fun o ho => by cases o <;> first | rfl | exact ho.elim)

/-! ## The jobs as transactions -/

section Transactions

-- the programs are taken apart by the rules below, and never unfolded into requests
attribute [local irreducible] Prog.Calls Cell.InPhase

variable {K : Key} {pMsg : MsgItem} {pChannel : CStr} {f : CStr → Option CStr}

/-- Talk before something else of the job. -/
theorem inPhase_talk {α : Type} {p : Quiet α} {q : α → Bot Unit} {ph : Phase CStr}
    (h : Talks p) (hq : ∀ a, Cell.InPhase (recordCell K) f (q a) ph) :
    Cell.InPhase (recordCell K) f (p.lift >>= q) ph := .bind h.other hq

theorem inPhase_read {q : Option CStr → Bot Unit} (hkey : key pChannel = K)
    (hq : ∀ record, Cell.InPhase (recordCell K) f (q (some record)) (.read record)) :
    Cell.InPhase (recordCell K) f ((getDb .channel (some pChannel)).lift >>= q) .before := by
  refine Cell.InPhase.read (S := quietSig.sum writeSig) (recordCell_read hkey) ?_
  intro r record hr
  obtain rfl : r = some record := hr
  exact hq record

theorem inPhase_write {q : Bool → Bot Unit} {record record' : CStr} (hkey : key pChannel = K)
    (hf : f record = some record') (hq : ∀ r, Cell.InPhase (recordCell K) f (q r) .done) :
    Cell.InPhase (recordCell K) f
      (replaceDb .channel (some pChannel) (some record') >>= q) (.read record) :=
  Cell.InPhase.write (S := quietSig.sum writeSig) (recordCell_write hkey) hf hq

theorem inPhase_crash {record : CStr} (hf : f record = none) :
    Cell.InPhase (recordCell K) f ((crash : Quiet Unit).lift : Bot Unit) (.read record) :=
  Cell.InPhase.stuck (S := quietSig.sum writeSig) (o := Sum.inl Op.crash) rfl hf

theorem inPhase_done {p : Quiet Unit} (h : Talks p) :
    Cell.InPhase (recordCell K) f (p.lift : Bot Unit) .done := .done h.other

theorem inPhase_idle {p : Quiet Unit} (h : Talks p) (hf : ∀ record, f record = some record) :
    Cell.InPhase (recordCell K) f (p.lift : Bot Unit) .before := .idle h.other hf

theorem setTopic_inPhase (hchannel : pMsg.pAccessChannel = some pChannel)
    (hkey : key pChannel = K) : Cell.InPhase (recordCell K)
      (RecordJob.setTopic.update pMsg.parameters) (setTopic pMsg) .before := by
  unfold setTopic
  rw [hchannel]
  simp only [Prog.liftM_eq]
  refine inPhase_read hkey fun record => ?_
  dsimp only
  refine inPhase_talk talks_logger fun _ => ?_
  cases hdata : strToChannelData record with
  | none => exact inPhase_crash (by simp only [RecordJob.update, hdata, Option.map_none])
  | some d =>
    refine inPhase_write hkey (by simp only [RecordJob.update, hdata, Option.map_some]) fun _ => ?_
    refine inPhase_talk talks_topic fun _ => ?_
    split
    · exact inPhase_done (talks_answer [.str none] (by decide +kernel) rfl)
    · exact inPhase_done (talks_answer [.str none] (by decide +kernel) rfl)

theorem setGreeting_inPhase (hchannel : pMsg.pAccessChannel = some pChannel)
    (hkey : key pChannel = K) : Cell.InPhase (recordCell K)
      (RecordJob.setGreeting.update pMsg.parameters) (setGreeting pMsg) .before := by
  unfold setGreeting
  rw [hchannel]
  simp only [Prog.liftM_eq]
  refine inPhase_talk talks_logger fun _ => ?_
  refine inPhase_read hkey fun record => ?_
  dsimp only
  cases hdata : strToChannelData record with
  | none => exact inPhase_crash (by simp only [RecordJob.update, hdata, Option.map_none])
  | some d =>
    refine inPhase_write hkey (by simp only [RecordJob.update, hdata, Option.map_some]) fun _ => ?_
    split
    · exact inPhase_done (talks_answer [.str none] (by decide +kernel) rfl)
    · exact inPhase_done (talks_answer [.str none] (by decide +kernel) rfl)

theorem chanmode_inPhase (hchannel : pMsg.pAccessChannel = some pChannel)
    (hkey : key pChannel = K) : Cell.InPhase (recordCell K)
      (RecordJob.chanmode.update pMsg.parameters) (chanmode pMsg) .before := by
  unfold chanmode
  rw [hchannel]
  simp only [Prog.liftM_eq]
  cases pMsg.parameters with
  | none =>
    have htalks : Talks (answerNoParameters pMsg) := talks_answer [] (by decide +kernel) rfl
    exact inPhase_idle htalks fun _ => rfl
  | some pParameters =>
    refine inPhase_read hkey fun record => ?_
    dsimp only
    split
    · next d sNewMode hdata hmode =>
      refine inPhase_talk talks_logger fun _ => inPhase_talk talks_logger fun _ => ?_
      refine inPhase_write hkey (by simp only [RecordJob.update, hdata, hmode]) fun _ => ?_
      exact inPhase_talk talks_logger fun _ => inPhase_done talks_mode
    · next h =>
      refine inPhase_crash ?_
      rw [RecordJob.update]
      split
      · next d sNewMode hdata hmode => exact (h d sNewMode hdata hmode).elim
      · rfl

/-- Every job is a transaction on the record of its channel. -/
theorem RecordJob.handler_inPhase {K : Key} {pMsg : MsgItem}
    (h : pMsg.pAccessChannel.map key = some K) (job : RecordJob) :
    Cell.InPhase (recordCell K) (job.update pMsg.parameters) (job.handler pMsg) .before := by
  obtain ⟨pChannel, hchannel, hkey⟩ := Option.map_eq_some_iff.mp h
  unfold RecordJob.handler
  cases job
  · exact setTopic_inPhase hchannel hkey
  · exact setGreeting_inPhase hchannel hkey
  · exact chanmode_inPhase hchannel hkey

end Transactions

end Ebotula
