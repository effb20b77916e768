import Ebotula.Laws.Handlers

/-!
# What an event makes of a channel record

Five commands write the channel list: `!addchannel` puts a record on it, `!rmchannel` takes
one off, and `!topic`, `!greeting` and `!chanmode` rewrite one. `RecordChange` lists what an
event can make of one record, and `step_record` says that the list is complete.
-/

set_option autoImplicit false

namespace Ebotula

open Library

variable {G : Type} [DbLib G] {w w' : World G} {env : Env} {pMsg : MsgItem} {e : Event}

/-! ## The commands that write no record -/

section OffRecords

-- the programs are taken apart by the rules for `Calls`, and never unfolded into requests
attribute [local irreducible] Prog.Calls

/-- A request that writes no channel record. -/
def OffRecords : (quietSig.sum writeSig).Op → Prop
  | .inl _ => True
  | .inr o => o.db ≠ .channel

/-- A routine that writes no channel record. -/
abbrev KeepsRecords {α : Type} (p : Bot α) : Prop := p.Calls OffRecords

variable {α β : Type} {pLogin : CStr} {pNetmask : Option CStr} {db : DatabaseID}
  {k value : Option CStr}

theorem keepsRecords_lift (p : Quiet α) : KeepsRecords p.lift :=
  .lift ((Prog.Calls.any p).mono fun _ _ => trivial)

theorem keepsRecords_talk {p : Quiet α} {q : α → Bot β} (h : ∀ a, KeepsRecords (q a)) :
    KeepsRecords (p.lift >>= q) := .bind (keepsRecords_lift p) h

theorem keepsRecords_delDb (h : db ≠ .channel) : KeepsRecords (delDb db k) :=
  Prog.Calls.request (S := quietSig.sum writeSig) (o := .inr (.delDb db k)) h

theorem keepsRecords_logOn : KeepsRecords (logOn pNetmask pLogin) := by
  refine .bind ?_ fun _ => ?_
  · unfold bindSession
    simp only [Prog.liftM_eq]
    refine keepsRecords_talk fun _ => .ite ?_ ?_
    · refine keepsRecords_talk fun pOldNetmask => ?_
      cases pOldNetmask with
      | none => exact .pure ()
      | some pOldNetmask =>
        refine .bind (keepsRecords_delDb (by rintro ⟨⟩)) fun _ => ?_
        refine .bind (calls_addDb (by rintro ⟨⟩)) fun _ => ?_
        exact .bind (calls_replaceDb (by rintro ⟨⟩)) fun _ => .pure ()
    · refine .bind (calls_addDb (by rintro ⟨⟩)) fun _ => ?_
      exact .bind (calls_addDb (by rintro ⟨⟩)) fun _ => .pure ()
  · unfold stampLogin
    simp only [Prog.liftM_eq]
    refine keepsRecords_talk fun _ => keepsRecords_talk fun _ => keepsRecords_talk fun _ => ?_
    refine .ite ?_ ?_
    · exact .bind (calls_replaceDb (by rintro ⟨⟩)) fun _ => keepsRecords_lift _
    · exact .bind (calls_addDb (by rintro ⟨⟩)) fun _ => keepsRecords_lift _

theorem keepsRecords_logOut : KeepsRecords (logOut pLogin) := by
  unfold logOut
  simp only [Prog.liftM_eq]
  refine keepsRecords_talk fun pNetmask => ?_
  cases pNetmask with
  | none => exact .pure ()
  | some pNetmask =>
    refine .bind (keepsRecords_delDb (by rintro ⟨⟩)) fun _ => ?_
    refine .bind (keepsRecords_delDb (by rintro ⟨⟩)) fun _ => ?_
    exact keepsRecords_lift _

theorem keepsRecords_rmAccessRights : KeepsRecords (rmAccessRights pLogin) := by
  unfold rmAccessRights
  simp only [Prog.liftM_eq]
  refine keepsRecords_talk fun _ => .bind (keepsRecords_delDb nofun) fun _ => ?_
  exact keepsRecords_talk fun _ => .forEach fun _ =>
    .bind (keepsRecords_delDb nofun) fun _ => .pure ()

theorem keepsRecords_rmAccount : KeepsRecords (rmAccount pLogin) := by
  unfold rmAccount
  simp only [Prog.liftM_eq]
  refine keepsRecords_talk fun _ => .bind keepsRecords_logOut fun _ => ?_
  refine .bind keepsRecords_rmAccessRights fun _ => ?_
  exact .bind (keepsRecords_delDb nofun) fun _ => .bind (keepsRecords_delDb nofun) fun _ => .pure ()

theorem keepsRecords_hello : KeepsRecords (hello pMsg) := by
  have master : KeepsRecords (helloMaster pMsg) := by
    unfold helloMaster
    simp only [Prog.liftM_eq]
    refine keepsRecords_talk fun _ => .ite ?_ ?_
    · exact .bind (calls_addDb nofun) fun _ => .ite (keepsRecords_lift _) (keepsRecords_lift _)
    · exact .bind (calls_replaceDb nofun) fun _ =>
        .ite (keepsRecords_lift _) (keepsRecords_lift _)
  have last {c : Prop} [Decidable c] : KeepsRecords (if c then helloMaster pMsg else pure ()) :=
    .ite master (.pure ())
  unfold hello
  simp only [Prog.liftM_eq]
  refine keepsRecords_talk fun _ => .ite (keepsRecords_lift _) ?_
  refine keepsRecords_talk fun _ => .bind (calls_addDb nofun) fun _ => .ite ?_ ?_
  · refine .bind keepsRecords_logOn fun _ => ?_
    exact keepsRecords_talk fun _ => keepsRecords_talk fun _ => keepsRecords_talk fun _ => last
  · exact keepsRecords_talk fun _ => last

theorem keepsRecords_ident : KeepsRecords (ident pMsg) := by
  unfold ident
  simp only [Prog.liftM_eq]
  refine keepsRecords_talk fun _ => keepsRecords_talk fun _ => .ite (keepsRecords_lift _) ?_
  cases pMsg.parameters with
  | none => exact keepsRecords_lift _
  | some pParameter =>
    have checked : KeepsRecords (do
        logger .debug "Look for the account %s" [.str (strtokBuf ' ' pParameter)]
        if ← checkDb .user (some (strtokBuf ' ' pParameter))
            (some (((cutFirst ' ' pParameter).map Prod.snd).getD [])) then
          logger .debug "User %s found" [.str (strtokBuf ' ' pParameter)]
          logOn pMsg.pNetmask (strtokBuf ' ' pParameter)
          answer pMsg "You're now identified." []
          identChannels pMsg (strtokBuf ' ' pParameter)
        else answer pMsg "Invalid password" [] : Bot Unit) := by
      simp only [Prog.liftM_eq]
      refine keepsRecords_talk fun _ => keepsRecords_talk fun _ => .ite ?_ (keepsRecords_lift _)
      refine keepsRecords_talk fun _ => .bind keepsRecords_logOn fun _ => ?_
      exact keepsRecords_talk fun _ => keepsRecords_lift _
    exact .ite (keepsRecords_talk fun _ => checked) checked

theorem keepsRecords_password : KeepsRecords (password pMsg) := by
  unfold password
  simp only [Prog.liftM_eq]
  refine keepsRecords_talk fun pLogin => ?_
  cases pLogin with
  | none => exact .pure ()
  | some pLogin =>
    have stored : KeepsRecords (do
        let _ ← replaceDb .user (some pLogin) (some (pMsg.parameters.getD []))
        answer pMsg "Password is changed." [] : Bot Unit) :=
      .bind (calls_replaceDb (by rintro ⟨⟩)) fun _ => keepsRecords_lift _
    refine keepsRecords_talk fun _ => .ite ?_ (.pure ())
    exact .ite (keepsRecords_talk fun _ => stored) stored

theorem keepsRecords_logoff : KeepsRecords (logoff pMsg) := by
  unfold logoff
  simp only [Prog.liftM_eq]
  refine keepsRecords_talk fun pLogin => ?_
  cases pLogin with
  | none => exact .pure ()
  | some pLogin =>
    exact .bind keepsRecords_logOut fun _ => .ite (keepsRecords_lift _) (.pure ())

theorem keepsRecords_hNickChange : KeepsRecords (hNickChange pMsg) := by
  unfold hNickChange
  simp only [Prog.liftM_eq]
  cases pMsg.pNetmask with
  | none => exact .pure ()
  | some pNetmask =>
    refine keepsRecords_talk fun pLogin => ?_
    cases pLogin with
    | none => exact .pure ()
    | some pLogin =>
      dsimp only
      cases cutLast ' ' pMsg.pRawLine with
      | none => exact keepsRecords_lift _
      | some cut =>
        refine .ite ?_ (.pure ())
        cases cutFirst '!' pNetmask with
        | none => exact keepsRecords_lift _
        | some userHost =>
          refine .bind keepsRecords_logOut fun _ => .bind keepsRecords_logOn fun _ => ?_
          exact keepsRecords_lift _

theorem keepsRecords_rmaccount : KeepsRecords (rmaccount pMsg) := by
  unfold rmaccount
  simp only [Prog.liftM_eq]
  cases pMsg.parameters with
  | none => exact keepsRecords_lift _
  | some pParameter =>
    refine keepsRecords_talk fun _ => .ite ?_ (keepsRecords_lift _)
    refine .bind keepsRecords_rmAccount fun _ => keepsRecords_talk fun _ => ?_
    exact keepsRecords_talk fun _ => keepsRecords_lift _

theorem keepsRecords_accountmodeApply {pAccessChannel : CStr} {oldmod : Option CStr}
    {mod0 mod1 : Char} :
    KeepsRecords (accountmodeApply pAccessChannel pLogin oldmod mod0 mod1) := by
  have clean : KeepsRecords (accountmodeClean pLogin oldmod mod1) := by
    unfold accountmodeClean
    simp only [Prog.liftM_eq]
    refine keepsRecords_talk fun _ => .ite (.ite ?_ (.pure ())) (.ite ?_ (.pure ()))
    · exact .bind (keepsRecords_delDb nofun) fun _ => .pure ()
    · exact keepsRecords_rmAccessRights
  have write {pKey mod : CStr} : KeepsRecords (accountmodeWrite pKey mod) := by
    unfold accountmodeWrite
    simp only [Prog.liftM_eq]
    refine .ite (keepsRecords_talk fun _ => ?_) (keepsRecords_talk fun _ => ?_)
    · refine .bind (calls_addDb nofun) fun _ => .ite ?_ (.pure ())
      exact .bind (calls_replaceDb nofun) fun _ => .pure ()
    · exact .bind (keepsRecords_delDb nofun) fun _ => .pure ()
  unfold accountmodeApply
  simp only [Prog.liftM_eq]
  refine keepsRecords_talk fun _ => .bind clean fun _ => .bind write fun _ => ?_
  exact keepsRecords_lift _

theorem keepsRecords_accountmode : KeepsRecords (accountmode pMsg) := by
  have switch {pAccessChannel pLogin pPos : CStr} {oldmod : Option CStr} :
      KeepsRecords (accountmodeSwitch pMsg pAccessChannel pLogin oldmod pPos) := by
    unfold accountmodeSwitch
    simp only [Prog.liftM_eq]
    have apply (mod1 : Char) : KeepsRecords (accountmodeApply pAccessChannel pLogin oldmod
        (strAt pPos 0) mod1 >>= fun _ =>
          (answer pMsg "The user mode of the account %s is changed." [.str pLogin]).lift) :=
      .bind keepsRecords_accountmodeApply fun _ => keepsRecords_lift _
    refine .ite (.pure ()) ?_
    split
    · exact apply _
    · exact apply _
    · exact .ite (keepsRecords_talk fun _ => keepsRecords_talk fun _ => apply _) (apply _)
    · exact keepsRecords_lift _
  have target {pAccessChannel pLogin pPos : CStr} :
      KeepsRecords (accountmodeTarget pMsg pAccessChannel pLogin pPos) := by
    unfold accountmodeTarget
    simp only [Prog.liftM_eq]
    refine keepsRecords_talk fun oldmod => ?_
    cases oldmod with
    | some oldmod => exact keepsRecords_talk fun _ => switch
    | none =>
      refine keepsRecords_talk fun _ => .ite (keepsRecords_lift _) ?_
      exact keepsRecords_talk fun _ => switch
  unfold accountmode
  simp only [Prog.liftM_eq]
  cases pMsg.pAccessChannel with
  | none => exact keepsRecords_lift _
  | some pAccessChannel =>
    refine keepsRecords_talk fun accesslogin => ?_
    cases accesslogin with
    | none => exact .pure ()
    | some accesslogin =>
      refine keepsRecords_talk fun _ => .ite (keepsRecords_lift _) ?_
      cases pMsg.parameters with
      | none => exact keepsRecords_lift _
      | some pParameter =>
        refine keepsRecords_talk fun _ => ?_
        cases cutFirst ' ' pParameter with
        | none => exact keepsRecords_lift _
        | some cut =>
          obtain ⟨pLogin, pPos⟩ := cut
          refine keepsRecords_talk fun _ => .ite (keepsRecords_lift _) ?_
          exact .ite (keepsRecords_lift _) target

theorem keepsRecords_rmDeadLogins {lCheckTime : Int} : KeepsRecords (rmDeadLogins lCheckTime) := by
  unfold rmDeadLogins
  simp only [Prog.liftM_eq]
  refine keepsRecords_talk fun _ => .forEach fun pLogin => ?_
  unfold rmDeadLogin
  simp only [Prog.liftM_eq]
  refine keepsRecords_talk fun pTime => ?_
  cases pTime with
  | none => exact .pure ()
  | some pTime =>
    refine keepsRecords_talk fun _ => .ite (.ite ?_ (.pure ())) (.pure ())
    exact .bind keepsRecords_logOut fun _ => keepsRecords_lift _

theorem keepsRecords_rmDeadAccounts {lCheckTime : Int} :
    KeepsRecords (rmDeadAccounts lCheckTime) := by
  unfold rmDeadAccounts
  simp only [Prog.liftM_eq]
  refine keepsRecords_talk fun _ => .forEach fun pLogin => ?_
  unfold rmDeadAccount
  simp only [Prog.liftM_eq]
  refine keepsRecords_talk fun pTime => ?_
  cases pTime with
  | none => exact .pure ()
  | some pTime =>
    exact .ite (.bind keepsRecords_rmAccount fun _ => keepsRecords_lift _) (.pure ())

end OffRecords

/-- What such a routine leaves of the channel list: all of it. -/
theorem KeepsRecords.wp {α : Type} {p : Bot α} (h : KeepsRecords p) :
    p.wp (perform env) (fun _ w' => w'.db.fetch .channel = w.db.fetch .channel) w := by
  refine Prog.Calls.keeps (f := fun w : World G => w.db.fetch .channel) h ?_ w
  intro o ho w₁ r w₂ hr
  cases o with
  | inl o => exact congrArg (Databases.fetch · .channel) (performQuiet_db hr)
  | inr o =>
    cases hr
    funext K
    dsimp only
    rcases o.apply_cases w₁.db with heq | ⟨s, -, ⟨value, heq⟩ | ⟨-, heq⟩⟩
    · rw [heq]
    · rw [heq, Databases.fetch, Databases.write_other (Ne.symm ho), Databases.fetch]
    · rw [heq, Databases.fetch, Databases.erase_other (Ne.symm ho), Databases.fetch]

/-! ## The commands that do -/

/-- The command of a job. -/
def RecordJob.cmd : RecordJob → Cmd
  | setTopic => .setTopic
  | setGreeting => .setGreating
  | chanmode => .chanMode

/-- What an event can make of the record of one channel. -/
inductive RecordChange (K : Key) : Event → Option CStr → Option CStr → Prop
  | same {e : Event} {record : Option CStr} : RecordChange K e record record
  | added {env : Env} {pMsg : MsgItem} (hchannel : pMsg.pAccessChannel.map key = some K) :
      RecordChange K (.command env .addChannel pMsg) none (some ['\t', '\t'])
  | removed {env : Env} {pMsg : MsgItem} {record : Option CStr}
      (hchannel : pMsg.pAccessChannel.map key = some K) :
      RecordChange K (.command env .rmChannel pMsg) record none
  | rewritten {env : Env} {pMsg : MsgItem} {job : RecordJob} {record record' : CStr}
      (hchannel : pMsg.pAccessChannel.map key = some K)
      (hupdate : job.update pMsg.parameters record = some record') :
      RecordChange K (.command env job.cmd pMsg) (some record) (some record')

theorem RecordChange.of_eq {K : Key} {dbs dbs' : Databases G}
    (h : dbs'.fetch .channel = dbs.fetch .channel) :
    RecordChange K e (dbs.fetch .channel K) (dbs'.fetch .channel K) := h ▸ .same

theorem RecordChange.of_outcome {K : Key} {dbs dbs' : Databases G} {job : RecordJob}
    (h : job.Outcome pMsg dbs dbs') :
    RecordChange K (.command env job.cmd pMsg) (dbs.fetch .channel K) (dbs'.fetch .channel K) := by
  cases h with
  | untouched => exact .same
  | @rewritten pChannel record record' hchannel hrecord hupdate =>
    have hthere : dbs.fetch .channel (key pChannel) = some record := hrecord
    have hchannel' : DatabaseID.channel ≠ .user := nofun
    rw [Databases.fetch_replaceDb_of_held record' hchannel' (by rw [hthere, Option.isSome_some]),
      Function.update_apply]
    split
    · next hK =>
      subst hK
      rw [hthere]
      exact .rewritten (congrArg (Option.map key) hchannel) hupdate
    · exact .same

theorem wp_addChannel_record (K : Key) : (addChannel pMsg).wp (perform env)
    (fun _ w' => RecordChange K (.command env .addChannel pMsg) (channelRecord K w)
      (channelRecord K w')) w := by
  unfold addChannel
  cases hchannel : pMsg.pAccessChannel with
  | none => exact wp_lift_quiet fun _ _ h => .of_eq (congrArg (Databases.fetch · .channel) h)
  | some pAccessChannel =>
    simp only [Prog.wp_ite, Prog.wp_bind, Prog.liftM_eq, wp_perform_lift, wp_existDb, wp_addDb,
      Databases.existDb_some]
    refine ⟨fun _ => wp_quiet fun _ _ h => ?_, fun _ => ⟨fun _ => ?_, fun hfree => ?_⟩⟩
    · exact .of_eq (congrArg (Databases.fetch · .channel) h)
    · exact wp_quiet fun _ _ h => .of_eq (congrArg (Databases.fetch · .channel) h)
    · have hnone := Option.not_isSome_iff_eq_none.mp hfree
      have hchannel' : DatabaseID.channel ≠ .user := by decide
      refine wp_quiet fun _ w₁ h₁ => wp_quiet fun _ w₂ h₂ => ?_
      refine wp_quiet fun _ w₃ h₃ => wp_quiet fun _ w₄ h₄ => ?_
      rw [channelRecord, channelRecord, h₄, h₃, h₂, h₁,
        Databases.fetch_addDb_of_free _ hchannel' hnone, Function.update_apply]
      split
      · next hK =>
        subst hK
        rw [hnone]
        exact .added (congrArg (Option.map key) hchannel)
      · exact .same

theorem wp_rmChannel_record (K : Key) : (rmChannel pMsg).wp (perform env)
    (fun _ w' => RecordChange K (.command env .rmChannel pMsg) (channelRecord K w)
      (channelRecord K w')) w := by
  unfold rmChannel
  cases hchannel : pMsg.pAccessChannel with
  | none => exact wp_lift_quiet fun _ _ h => .of_eq (congrArg (Databases.fetch · .channel) h)
  | some pAccessChannel =>
    simp only [Prog.wp_ite, Prog.wp_bind, Prog.liftM_eq, wp_perform_lift, wp_delDb]
    refine wp_quiet fun _ w₁ h₁ => ?_
    have removed {w₂ : World G}
        (h₂ : w₂.db = (w₁.db.delDb .channel (some pAccessChannel)).2) :
        RecordChange K (.command env .rmChannel pMsg) (channelRecord K w)
          (channelRecord K w₂) := by
      rw [channelRecord, channelRecord, h₂, h₁, Databases.fetch_delDb, Function.update_apply]
      split
      · next hK => exact .removed (hK ▸ congrArg (Option.map key) hchannel)
      · exact .same
    refine ⟨fun _ => ?_, fun _ => ?_⟩ <;>
      exact wp_quiet fun _ w₂ h₂ => wp_quiet fun _ w₃ h₃ => wp_quiet fun _ w₄ h₄ =>
        removed ((h₄.trans h₃).trans h₂)

/-- What one event makes of a record is one of these. -/
theorem step_record (h : step w e = some w') (K : Key) :
    RecordChange K e (channelRecord K w) (channelRecord K w') := by
  obtain ⟨⟨a, w₁⟩, hrun, rfl⟩ := Option.map_eq_some_iff.mp h
  have same {p : Bot Unit} (hp : KeepsRecords p) (hrun : p.run (perform e.env) w = some (a, w₁)) :
      RecordChange K e (channelRecord K w) (channelRecord K w₁) := .of_eq (hp.wp a w₁ hrun)
  have outcome {env : Env} {pMsg : MsgItem} {job : RecordJob} (he : e = .command env job.cmd pMsg)
      (hout : job.Outcome pMsg w.db w₁.db) :
      RecordChange K e (channelRecord K w) (channelRecord K w₁) := he ▸ .of_outcome hout
  cases e with
  | deadLogins env lCheckTime => exact same keepsRecords_rmDeadLogins hrun
  | deadAccounts env lCheckTime => exact same keepsRecords_rmDeadAccounts hrun
  | command env id pMsg =>
    cases id
    case hello => exact same keepsRecords_hello hrun
    case ident => exact same keepsRecords_ident hrun
    case pass => exact same keepsRecords_password hrun
    case logoff => exact same keepsRecords_logoff hrun
    case onQuit => exact same keepsRecords_logoff hrun
    case onNickChg => exact same keepsRecords_hNickChange hrun
    case accountMode => exact same keepsRecords_accountmode hrun
    case rmUser => exact same keepsRecords_rmaccount hrun
    case addChannel => exact wp_addChannel_record K a w₁ hrun
    case rmChannel => exact wp_rmChannel_record K a w₁ hrun
    case setGreating => exact outcome rfl (wp_setGreeting_outcome a w₁ hrun)
    case setTopic => exact outcome rfl (wp_setTopic_outcome a w₁ hrun)
    case chanMode => exact outcome rfl (wp_chanmode_outcome a w₁ hrun)
    -- what is left is typed `Quiet`
    all_goals exact same (keepsRecords_lift _) hrun

end Ebotula
