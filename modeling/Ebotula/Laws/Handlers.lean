import Ebotula.Laws.AccountMode
import Ebotula.Laws.RecordUpdates

/-!
# The list of changes is complete

One lemma for each handler that can write, in the order of `command.c`: whatever the
world is and whatever the machine answers, what the handler leaves is a `Change`. The
routines that are typed `Quiet` need none. `step_change` puts them together.
-/

set_option autoImplicit false

namespace Ebotula

open Library

variable {G : Type} [DbLib G] {env : Env} {pMsg : MsgItem} {w : World G} {e : Event}

/-! ## Accounts and sessions -/

theorem wp_helloMaster {pNick : CStr} {Q : Unit → World G → Prop}
    (hnick : pMsg.pCallingNick = some pNick)
    (h : ∀ w', SameExcept [.access] w.db w'.db →
      w'.db.fetch .access = Function.update (w.db.fetch .access) (key pNick) (some ['m']) →
      Q () w') :
    (helloMaster pMsg).wp (perform env) Q w := by
  -- the two writes differ in nothing: each is made where the other would fail
  have told {w₁ : World G} (same : SameExcept [.access] w.db w₁.db)
      (hacc : w₁.db.fetch .access =
        Function.update (w.db.fetch .access) (key pNick) (some ['m'])) (q : Quiet Unit) :
      q.wp (performQuiet env) Q w₁ :=
    wp_quiet fun _ w₂ h₂ => h w₂ (h₂ ▸ same) (h₂ ▸ hacc)
  simp only [helloMaster, hnick, Prog.wp_bind, Prog.liftM_eq, wp_perform_lift, wp_existDb,
    Prog.wp_ite, wp_addDb, wp_replaceDb, Databases.existDb_some]
  refine ⟨fun hno => ?_, fun hyes => ?_⟩
  · rw [Bool.not_eq_true', Option.isSome_eq_false_iff, Option.isNone_iff_eq_none] at hno
    have hacc := Databases.fetch_addDb_of_free ['m'] (by decide) hno
    exact ⟨fun _ => told Databases.same_addDb hacc _, fun _ => told Databases.same_addDb hacc _⟩
  · rw [Bool.not_eq_true', Bool.not_eq_false] at hyes
    have hacc := Databases.fetch_replaceDb_of_held ['m'] (by decide) hyes
    exact ⟨fun _ => told Databases.same_replaceDb hacc _,
      fun _ => told Databases.same_replaceDb hacc _⟩

/-- A quiet step that is taken in one case only. -/
theorem wp_answerIf {c : Prop} {q : Quiet Unit} {Q : Unit → World G → Prop}
    (h : ∀ w', w'.db = w.db → Q () w') : (c → q.wp (performQuiet env) Q w) ∧ (¬ c → Q () w) :=
  ⟨fun _ => wp_quiet fun _ => h, fun _ => h w rfl⟩

theorem wp_helloMaster_none {Q : Unit → World G → Prop} (hnick : pMsg.pCallingNick = none)
    (h : ∀ w', w'.db = w.db → Q () w') : (helloMaster pMsg).wp (perform env) Q w := by
  simp only [helloMaster, hnick, Prog.wp_bind, Prog.liftM_eq, wp_perform_lift, wp_existDb,
    Prog.wp_ite, wp_addDb, wp_replaceDb, Databases.addDb_none_left, Databases.replaceDb_none_left]
  exact ⟨fun _ => ⟨fun _ => wp_quiet fun _ => h, fun _ => wp_quiet fun _ => h⟩,
    fun _ => ⟨fun _ => wp_quiet fun _ => h, fun _ => wp_quiet fun _ => h⟩⟩

theorem wp_password :
    (password pMsg).wp (perform env) (fun _ w' => Change w.db e w'.db) w := by
  simp only [password, Prog.wp_bind, Prog.liftM_eq, wp_perform_lift, wp_getDb]
  cases w.db.getDb .nickToUser pMsg.pNetmask with
  | none => exact (Prog.wp_pure () _ _).mpr .unchanged
  | some pLogin =>
    have replaced {w₁ : World G} (h₁ : w₁.db = w.db) {dbs' : Databases G} (h : dbs' =
        (w₁.db.replaceDb .user (some pLogin) (some (pMsg.parameters.getD []))).2) :
        Change w.db e dbs' := by
      subst h
      rw [h₁]
      exact .password Databases.same_replaceDb Databases.isSome_replaceDb
    simp only [Prog.wp_bind, wp_perform_lift]
    refine wp_quiet fun _ w₁ h₁ => ?_
    simp only [Prog.wp_ite, Prog.wp_bind, wp_perform_lift, wp_replaceDb, Prog.wp_pure]
    refine ⟨fun _ => ⟨fun _ => ?_, fun _ => ?_⟩, fun _ => .of_eq h₁⟩
    · exact wp_quiet fun _ w₂ h₂ => wp_quiet fun _ w₃ h₃ => replaced (h₂.trans h₁) h₃
    · exact wp_quiet fun _ w₂ h₂ => replaced h₁ h₂

theorem wp_logoff (hevent : e.Removes) :
    (logoff pMsg).wp (perform env) (fun _ w' => Change w.db e w'.db) w := by
  simp only [logoff, Prog.wp_bind, Prog.liftM_eq, wp_perform_lift, wp_getDb]
  cases w.db.getDb .nickToUser pMsg.pNetmask with
  | none => exact (Prog.wp_pure () _ _).mpr .unchanged
  | some pLogin =>
    rw [Prog.wp_bind]
    refine wp_logOut fun w₁ same hs => ?_
    have ended : Change w.db e w₁.db := .removals hevent (.single (.logOut pLogin same hs))
    simp only [Prog.wp_ite, wp_perform_lift, Prog.wp_pure]
    exact ⟨fun _ => wp_quiet fun _ w₂ h₂ => h₂ ▸ ended, fun _ => ended⟩

theorem wp_ident :
    (ident pMsg).wp (perform env) (fun _ w' => Change w.db (.command env .ident pMsg) w'.db)
      w := by
  simp only [ident, Prog.wp_bind, Prog.liftM_eq, wp_perform_lift]
  refine wp_quiet fun _ w₁ h₁ => ?_
  simp only [wp_existDb, Prog.wp_ite, wp_perform_lift, h₁]
  refine ⟨fun _ => wp_quiet fun _ w₂ h₂ => .of_eq (h₂.trans h₁), fun hguest => ?_⟩
  cases hp : pMsg.parameters with
  | none => exact wp_lift_quiet fun _ w₂ h₂ => .of_eq (h₂.trans h₁)
  | some pParameter =>
    simp only [Prog.wp_ite, Prog.wp_bind, wp_perform_lift, wp_checkDb]
    refine wp_answerIf fun w₂ h₂ => wp_quiet fun _ w₃ h₃ => ⟨fun hcheck => ?_, fun _ => ?_⟩
    · refine wp_quiet fun _ w₄ h₄ => wp_logOn fun w₅ same hs => ?_
      refine wp_quiet fun _ w₆ h₆ => wp_quiet fun _ w₇ h₇ => ?_
      rw [h₄, h₃, h₂, h₁] at same hs
      rw [h₃, h₂, h₁] at hcheck
      rw [h₇, h₆]
      refine .ident (by rw [MsgItem.identLogin, hp, Option.map_some]) ?_ ?_ same hs
      · rwa [Databases.existDb_eq, Option.not_isSome_iff_eq_none] at hguest
      · rwa [MsgItem.identPassword, hp, Option.bind_some]
    · exact wp_quiet fun _ w₄ h₄ => .of_eq (((h₄.trans h₃).trans h₂).trans h₁)

theorem wp_hello :
    (hello pMsg).wp (perform env) (fun _ w' => Change w.db (.command env .hello pMsg) w'.db)
      w := by
  simp only [hello, Prog.wp_bind, Prog.liftM_eq, wp_perform_lift]
  refine wp_quiet fun _ w₁ h₁ => ?_
  simp only [Prog.wp_ite, Prog.wp_bind, wp_perform_lift, wp_listDb, wp_addDb, h₁]
  refine ⟨fun _ => wp_quiet fun _ w₂ h₂ => .of_eq (h₂.trans h₁), fun hlevel => ?_⟩
  cases hnick : pMsg.pCallingNick with
  | none =>
    simp only [Databases.addDb_none_left, Bool.false_eq_true, false_implies, not_false_eq_true,
      true_and, forall_const]
    refine wp_quiet fun _ w₂ h₂ => ⟨fun _ => wp_helloMaster_none hnick fun w₃ h₃ => ?_, fun _ => ?_⟩
    · exact .of_eq (h₃.trans h₂)
    · exact (Prog.wp_pure () _ _).mpr (.of_eq h₂)
  | some pNick =>
    rw [Databases.addDb_some]
    cases huser : w.db.fetch .user (key pNick) with
    | some _ =>
      -- a list that has a login is not empty
      have hlist : (w.db.listDb .user).isEmpty = false :=
        List.isEmpty_eq_false_iff_exists_mem.mpr ⟨_, Databases.val_mem_listDb (by rw [huser]; rfl)⟩
      simp only [Option.isSome_some, if_true, hlist, Bool.false_eq_true, false_implies,
        not_false_eq_true, true_and, forall_const, Prog.wp_pure]
      exact wp_quiet fun _ w₂ h₂ => .of_eq h₂
    | none =>
      simp only [Option.isSome_none, Bool.false_eq_true, if_false, forall_const,
        not_true_eq_false, false_implies, and_true, Option.getD_some, Prog.wp_pure]
      have same₁ : SameExcept [.user] w.db
          (w.db.write .user (key pNick) (Databases.storedValue G .user [])) :=
        fun _ hd => Databases.write_other fun e => hd (e ▸ List.mem_singleton_self _)
      refine wp_logOn fun w₂ same₂ hs₂ => ?_
      refine wp_quiet fun _ w₃ h₃ => wp_quiet fun _ w₄ h₄ => wp_quiet fun _ w₅ h₅ => ?_
      rw [← h₃, ← h₄, ← h₅] at same₂ hs₂
      rw [same₁.sessions (by decide) (by decide)] at hs₂
      have same : SameExcept (.user :: .access :: .timelog :: sessionDbs) w.db w₅.db :=
        (same₁.mono (by decide)).trans (same₂.mono (by decide))
      have huser₅ : w₅.db.fetch .user = Function.update (w.db.fetch .user) (key pNick)
          (some (Databases.storedValue G .user [])) := by
        rw [same₂.fetch (by decide), Databases.fetch_write]
      have hacc₅ : w₅.db.fetch .access = w.db.fetch .access := by
        rw [same₂.fetch (by decide), same₁.fetch (by decide)]
      refine ⟨fun hempty => wp_helloMaster hnick fun w₆ same₆ hacc₆ => ?_, fun hempty => ?_⟩
      · exact .hello hnick hlevel huser (same.trans (same₆.mono (by decide)))
          ((same₆.fetch (by decide)).trans huser₅)
          ((same₆.sessions (by decide) (by decide)).trans hs₂)
          (by rw [hacc₆, hacc₅, if_pos hempty])
      · exact .hello hnick hlevel huser same huser₅ hs₂ (hacc₅.trans (if_neg hempty).symm)

theorem wp_hNickChange :
    (hNickChange pMsg).wp (perform env)
      (fun _ w' => Change w.db (.command env .onNickChg pMsg) w'.db) w := by
  unfold hNickChange
  cases hmask : pMsg.pNetmask with
  | none => exact (Prog.wp_pure () _ _).mpr .unchanged
  | some pNetmask =>
    simp only [Prog.wp_bind, Prog.liftM_eq, wp_perform_lift, wp_getDb]
    cases hlogin : w.db.getDb .nickToUser (some pNetmask) with
    | none => exact (Prog.wp_pure () _ _).mpr .unchanged
    | some pLogin =>
      cases hword : cutLast ' ' pMsg.pRawLine with
      | none => exact wp_lift_quiet fun _ _ h => .of_eq h
      | some split =>
        obtain ⟨before, word⟩ := split
        simp only [Prog.wp_ite, Prog.wp_pure]
        refine ⟨fun hlen => ?_, fun _ => .unchanged⟩
        cases hhost : cutFirst '!' pNetmask with
        | none => exact wp_lift_quiet fun _ _ h => .of_eq h
        | some cut =>
          obtain ⟨nick, userHost⟩ := cut
          simp only [Prog.wp_bind, wp_perform_lift]
          refine wp_logOut fun w₁ same₁ hs₁ => wp_logOn fun w₂ same₂ hs₂ => ?_
          refine wp_quiet fun _ w₃ h₃ => ?_
          rw [h₃]
          refine .nickChange ?_ (hmask ▸ hlogin) ((same₁.mono (by decide)).trans same₂)
            (hs₁ ▸ hs₂)
          simp only [MsgItem.newNetmask, hmask, hword, hhost, Option.bind_eq_bind,
            Option.bind_some, if_pos hlen]

/-! ## Channels -/

theorem wp_addChannel : (addChannel pMsg).wp (perform env)
    (fun _ w' => Change w.db (.command env .addChannel pMsg) w'.db) w := by
  unfold addChannel
  cases hchan : pMsg.pAccessChannel with
  | none => exact wp_lift_quiet fun _ _ h => .of_eq h
  | some pAccessChannel =>
    simp only [Prog.wp_ite, Prog.wp_bind, Prog.liftM_eq, wp_perform_lift, wp_existDb, wp_addDb,
      Databases.existDb_some]
    refine ⟨fun _ => wp_quiet fun _ _ h => .of_eq h, fun _ => ⟨fun _ => ?_, fun hfree => ?_⟩⟩
    · exact wp_quiet fun _ _ h => .of_eq h
    · refine wp_quiet fun _ w₁ h₁ => ?_
      refine wp_quiet fun _ w₂ h₂ => wp_quiet fun _ w₃ h₃ => wp_quiet fun _ w₄ h₄ => ?_
      have hrecord : (w.db.addDb .channel (some pAccessChannel) (some "\t\t".toList)).2.fetch
          .channel = _ := Databases.fetch_addDb
      rw [if_neg hfree] at hrecord
      rw [h₄, h₃, h₂, h₁]
      exact .addChannel hchan Databases.same_addDb hrecord

theorem wp_rmChannel : (rmChannel pMsg).wp (perform env)
    (fun _ w' => Change w.db (.command env .rmChannel pMsg) w'.db) w := by
  unfold rmChannel
  cases hchan : pMsg.pAccessChannel with
  | none => exact wp_lift_quiet fun _ _ h => .of_eq h
  | some pAccessChannel =>
    simp only [Prog.wp_ite, Prog.wp_bind, Prog.liftM_eq, wp_perform_lift, wp_delDb]
    refine wp_quiet fun _ w₁ h₁ => ?_
    have removed {w₂ : World G} (h₂ : w₂.db = (w₁.db.delDb .channel (some pAccessChannel)).2)
        : Change w.db (.command env .rmChannel pMsg) w₂.db := by
      rw [h₂, h₁]
      exact .rmChannel hchan Databases.same_delDb Databases.fetch_delDb
    refine ⟨fun _ => ?_, fun _ => ?_⟩ <;>
      exact wp_quiet fun _ w₂ h₂ => wp_quiet fun _ w₃ h₃ => wp_quiet fun _ w₄ h₄ =>
        removed ((h₄.trans h₃).trans h₂)

/-- The record of a channel is overwritten by one that is there. -/
theorem Change.of_outcome {dbs dbs' : Databases G} {job : RecordJob}
    (h : job.Outcome pMsg dbs dbs') : Change dbs e dbs' := by
  cases h with
  | untouched => exact .unchanged
  | rewritten => exact .record Databases.same_replaceDb Databases.isSome_replaceDb

theorem wp_setGreeting :
    (setGreeting pMsg).wp (perform env) (fun _ w' => Change w.db e w'.db) w :=
  Prog.wp_mono wp_setGreeting_outcome fun _ _ => .of_outcome

theorem wp_setTopic :
    (setTopic pMsg).wp (perform env) (fun _ w' => Change w.db e w'.db) w :=
  Prog.wp_mono wp_setTopic_outcome fun _ _ => .of_outcome

theorem wp_chanmode :
    (chanmode pMsg).wp (perform env) (fun _ w' => Change w.db e w'.db) w :=
  Prog.wp_mono wp_chanmode_outcome fun _ _ => .of_outcome

/-! ## Removals -/

theorem wp_rmaccount (hevent : e.Removes) :
    (rmaccount pMsg).wp (perform env) (fun _ w' => Change w.db e w'.db) w := by
  unfold rmaccount
  cases pMsg.parameters with
  | none => exact wp_lift_quiet fun _ _ h => .of_eq h
  | some pParameter =>
    simp only [Prog.wp_bind, Prog.wp_ite, Prog.liftM_eq, wp_perform_lift, wp_existDb]
    refine ⟨fun _ => ?_, fun _ => wp_quiet fun _ _ h => .of_eq h⟩
    refine wp_rmAccount fun w₁ same hs hacc huser => ?_
    refine wp_quiet fun _ w₂ h₂ => wp_quiet fun _ w₃ h₃ => wp_quiet fun _ w₄ h₄ => ?_
    rw [h₄, h₃, h₂]
    exact .removals hevent (.single (.account _ same hs hacc huser))

theorem wp_rmDeadLogin {lCheckTime : Int} {pLogin : CStr} {dbs : Databases G}
    (h : Removals dbs w.db) : (rmDeadLogin lCheckTime pLogin).wp (perform env)
      (fun _ w' => Removals dbs w'.db) w := by
  simp only [rmDeadLogin, Prog.wp_bind, Prog.liftM_eq, wp_perform_lift, wp_getDb]
  cases w.db.getDb .timelog (some pLogin) with
  | none => exact (Prog.wp_pure () _ _).mpr h
  | some pTime =>
    simp only [Prog.wp_bind, Prog.wp_ite, wp_perform_lift, wp_existDb, Prog.wp_pure]
    refine ⟨fun _ => ⟨fun _ => ?_, fun _ => h⟩, fun _ => h⟩
    refine wp_logOut fun w₁ same hs => wp_quiet fun _ w₂ h₂ => ?_
    exact h₂ ▸ h.tail (.logOut pLogin same hs)

theorem wp_rmDeadAccount {lCheckTime : Int} {pLogin : CStr} {dbs : Databases G}
    (h : Removals dbs w.db) : (rmDeadAccount lCheckTime pLogin).wp (perform env)
      (fun _ w' => Removals dbs w'.db) w := by
  simp only [rmDeadAccount, Prog.wp_bind, Prog.liftM_eq, wp_perform_lift, wp_getDb]
  cases w.db.getDb .timelog (some pLogin) with
  | none => exact (Prog.wp_pure () _ _).mpr h
  | some pTime =>
    simp only [Prog.wp_bind, Prog.wp_ite, wp_perform_lift, Prog.wp_pure]
    refine ⟨fun _ => ?_, fun _ => h⟩
    refine wp_rmAccount fun w₁ same hs hacc huser => wp_quiet fun _ w₂ h₂ => ?_
    exact h₂ ▸ h.tail (.account pLogin same hs hacc huser)

/-- A sweep is the removals of its turns, one after the other. -/
theorem wp_sweep {body : CStr → Bot Unit} {d : DatabaseID} (hevent : e.Removes)
    (turn : ∀ (w₁ : World G) (pLogin : CStr), Removals w.db w₁.db →
      (body pLogin).wp (perform env) (fun _ w' => Removals w.db w'.db) w₁) :
    ((do Prog.forEach body (← listDb d)) : Bot Unit).wp (perform env)
      (fun _ w' => Change w.db e w'.db) w := by
  simp only [Prog.wp_bind, Prog.liftM_eq, wp_perform_lift, wp_listDb]
  refine Prog.wp_mono ?_ fun _ w' (h : Removals w.db w'.db) => .removals hevent h
  exact Prog.wp_forEach (fun pLogin _ w₁ h => turn w₁ pLogin h) w .refl

theorem wp_rmDeadLogins {lCheckTime : Int} (hevent : e.Removes) :
    (rmDeadLogins lCheckTime).wp (perform env) (fun _ w' => Change w.db e w'.db) w :=
  wp_sweep hevent fun _ _ => wp_rmDeadLogin

theorem wp_rmDeadAccounts {lCheckTime : Int} (hevent : e.Removes) :
    (rmDeadAccounts lCheckTime).wp (perform env) (fun _ w' => Change w.db e w'.db) w :=
  wp_sweep hevent fun _ _ => wp_rmDeadAccount

/-! ## Every event -/

theorem wp_program (e : Event) (w : World G) :
    e.program.wp (perform e.env) (fun _ w' => Change w.db e w'.db) w := by
  cases e with
  | deadLogins env lCheckTime => exact wp_rmDeadLogins trivial
  | deadAccounts env lCheckTime => exact wp_rmDeadAccounts trivial
  | command env id pMsg =>
    cases id
    case hello => exact wp_hello
    case ident => exact wp_ident
    case pass => exact wp_password
    case logoff => exact wp_logoff (.inl rfl)
    case onQuit => exact wp_logoff (.inr (.inl rfl))
    case onNickChg => exact wp_hNickChange
    case addChannel => exact wp_addChannel
    case rmChannel => exact wp_rmChannel
    case setGreating => exact wp_setGreeting
    case setTopic => exact wp_setTopic
    case chanMode => exact wp_chanmode
    case accountMode => exact wp_accountmode
    case rmUser => exact wp_rmaccount (.inr (.inr rfl))
    -- what is left is typed `Quiet`
    all_goals exact wp_lift_quiet fun _ _ h => .of_eq h

/-- The list is complete: an execution leaves the databases by one of its entries. -/
theorem step_change {w w' : World G} {e : Event} (h : step w e = some w') :
    Change w.db e w'.db := by
  obtain ⟨⟨a, w₁⟩, hrun, rfl⟩ := Option.map_eq_some_iff.mp h
  exact wp_program e w a w₁ hrun

end Ebotula
