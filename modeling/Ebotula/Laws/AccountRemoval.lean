import Ebotula.Laws.Sending
import Ebotula.Laws.Sessions

/-!
# The modes of a removed account

`!rmaccount` is meant to take an account out of the databases and the modes away from whoever is
logged in with it. But the modes are taken from the netmask that the session leads to, and the
session ends with the account: when `rmaccount` looks for the netmask it is gone. So no mode is
taken away, in any state.
-/

set_option autoImplicit false

namespace Ebotula

open Library

variable {G : Type} [DbLib G] {env : Env} {w w' : World G} {pMsg : MsgItem}
  {pParameter pLogin : CStr}

/-! ## The account leaves the databases -/

section Calls

attribute [local irreducible] Prog.Calls

theorem silent_rmAccessRights : (rmAccessRights pLogin).Calls Silent := by
  unfold rmAccessRights
  simp only [Prog.liftM_eq]
  refine .bind silent_logger fun _ => .bind (silent_write _) fun _ => ?_
  refine .bind (silent_request nofun) fun _ => .forEach fun _ => ?_
  exact .bind (silent_write _) fun _ => .pure ()

theorem silent_rmAccount : (rmAccount pLogin).Calls Silent := by
  unfold rmAccount
  simp only [Prog.liftM_eq]
  refine .bind silent_logger fun _ => .bind silent_logOut fun _ => ?_
  refine .bind silent_rmAccessRights fun _ => .bind (silent_write _) fun _ => ?_
  exact .bind (silent_write _) fun _ => .pure ()

theorem total_rmaccountModes : Total (rmaccountModes pLogin).lift := by
  refine Prog.Calls.lift (S := quietSig) (T := writeSig) ?_
  unfold rmaccountModes
  refine .bind (.request (S := quietSig) trivial) fun pNetmask => ?_
  cases pNetmask with
  | none => exact .pure ()
  | some pNetmask =>
    dsimp only
    cases getNickname pNetmask with
    | none => exact .pure ()
    | some rmnick =>
      refine .bind (.request (S := quietSig) trivial) fun _ => .forEach fun _ => ?_
      exact .bind talks_mode.answered fun _ => talks_mode.answered

theorem total_rmaccount (pMsg : MsgItem) : Total (rmaccount pMsg) := by
  unfold rmaccount
  simp only [Prog.liftM_eq]
  cases pMsg.parameters with
  | none => exact (talks_answer [] (by decide +kernel) rfl).total
  | some pParameter =>
    refine .bind (total_request trivial) fun _ => .ite ?_ ?_
    · refine .bind (total_rmAccount _) fun _ => .bind total_rmaccountModes fun _ => ?_
      exact .bind (talks_answer [] (by decide +kernel) rfl).total fun _ => total_logger
    · exact (talks_answer [.str none] (by decide +kernel) rfl).total

end Calls

/-- The last thing `rmAccount` does. -/
theorem wp_rmAccount_timelog : (rmAccount pLogin).wp (perform env)
    (fun _ w' => w'.db.fetch .timelog (key pLogin) = none) w := by
  have last (w₁ : World G) : (do
      let _ ← delDb .timelog (some pLogin) : Bot Unit).wp (perform env)
      (fun _ w' => w'.db.fetch .timelog (key pLogin) = none) w₁ := by
    simp only [Prog.wp_bind, wp_delDb, Prog.wp_pure, Databases.fetch_delDb, Function.update_self]
  simp only [rmAccount, Prog.wp_bind]
  exact fun _ w₁ _ _ w₂ _ _ w₃ _ _ w₄ _ => (Prog.wp_bind _ _ _ _).mp (last w₄)

/-- What the removal of an account comes to. -/
structure AccountRemoved (w w' : World G) (u : Key) : Prop where
  user : w'.db.fetch .user u = none
  timelog : w'.db.fetch .timelog u = none
  sessions : w'.db.sessions = w.db.sessions.unbind u
  sent : w'.sent = w.sent

theorem wp_rmAccount_removed :
    (rmAccount pLogin).wp (perform env) (fun _ w' => AccountRemoved w w' (key pLogin)) w := by
  have removed : (rmAccount pLogin).wp (perform env) (fun _ w' =>
      w'.db.sessions = w.db.sessions.unbind (key pLogin) ∧
        w'.db.fetch .user (key pLogin) = none) w :=
    wp_rmAccount fun _ _ hsessions _ huser => ⟨hsessions, by rw [huser, Function.update_self]⟩
  have all := Prog.wp_and removed (Prog.wp_and wp_rmAccount_timelog (wp_silent silent_rmAccount))
  exact Prog.wp_mono all fun _ w' ⟨⟨hsessions, huser⟩, htimelog, hsent⟩ =>
    ⟨huser, htimelog, hsessions, hsent⟩

/-- Without a session no mode is taken away. -/
theorem issues_rmaccountModes (hsession : w.db.fetch .userToNick (key pLogin) = none) :
    Issues env "MODE " (rmaccountModes pLogin) w [] := by
  unfold rmaccountModes
  refine issues_getDb ?_
  rw [Databases.getDb_some, hsession]
  exact .pure

/-- `rmaccount` takes the account out of the databases, and no mode away. -/
theorem wp_rmaccount_account (hparameter : pMsg.parameters = some pParameter)
    (haccount : (w.db.fetch .user (key (strtokBuf ' ' pParameter))).isSome) :
    (rmaccount pMsg).wp (perform env) (fun _ w' => ∃ w₁,
      AccountRemoved w w₁ (key (strtokBuf ' ' pParameter)) ∧ w'.db = w₁.db ∧
        w'.issued "MODE " = w.issued "MODE ") w := by
  unfold rmaccount
  rw [hparameter]
  simp only [Prog.wp_bind, Prog.wp_ite, Prog.liftM_eq, wp_perform_lift, wp_existDb,
    Databases.existDb_some, haccount, forall_const, not_true_eq_false, false_implies, and_true]
  refine Prog.wp_mono wp_rmAccount_removed fun _ w₁ removed => ?_
  have hgone : w₁.db.fetch .userToNick (key (strtokBuf ' ' pParameter)) = none := by
    rw [← Option.map_eq_none_iff (f := key), ← Databases.sessions_fwd, removed.sessions]
    exact Function.update_self ..
  have talk (w' : World G) : Issues env "MODE " (answer pMsg "The account is removed" []) w' [] :=
    issues_answer noTalk_mode [] (by decide +kernel) rfl
  refine Issues.wp_nil "MODE " (issues_rmaccountModes hgone) fun w₂ h₂ i₂ => ?_
  refine Issues.wp_nil "MODE " (talk w₂) fun w₃ h₃ i₃ => ?_
  refine Issues.wp_nil "MODE " issues_logger fun w₄ h₄ i₄ => ?_
  refine ⟨w₁, removed, by rw [h₄, h₃, h₂], ?_⟩
  rw [i₄, i₃, i₂, World.issued, removed.sent, ← World.issued]

/-! ## Where the modes are taken away too -/

/-- The account is out of the databases and of the sessions, and the user of its netmask has lost
both modes in every channel. -/
structure AccountRevoked (w w' : World G) (u : Key) (pNetmask : CStr) : Prop where
  user : w'.db.fetch .user u = none
  timelog : w'.db.fetch .timelog u = none
  userToNick : w'.db.fetch .userToNick u = none
  nickToUser : ∀ m pLogin, w'.db.fetch .nickToUser m = some pLogin → key pLogin ≠ u
  modes : ∃ lines, w'.issued "MODE " = w.issued "MODE " ++ lines ∧
    ∀ rmnick ∈ getNickname pNetmask, ∀ c ∈ w.db.listDb .channel,
      modeLine c "-o" rmnick ∈ lines ∧ modeLine c "-v" rmnick ∈ lines

/-- The removal of an account with a session is all it should be exactly where no channel is
registered, and no other netmask leads to the account. -/
theorem rmaccount_revokes_iff {pNetmask rmnick : CStr}
    (hparameter : pMsg.parameters = some pParameter)
    (haccount : (w.db.fetch .user (key (strtokBuf ' ' pParameter))).isSome)
    (hsession : w.db.fetch .userToNick (key (strtokBuf ' ' pParameter)) = some pNetmask)
    (hnick : getNickname pNetmask = some rmnick) :
    (∃ w', (rmaccount pMsg).run (perform env) w = some ((), w') ∧
      AccountRevoked w w' (key (strtokBuf ' ' pParameter)) pNetmask) ↔
    w.db.listDb .channel = [] ∧ ∀ m pLogin, w.db.fetch .nickToUser m = some pLogin →
      key pLogin = key (strtokBuf ' ' pParameter) → m = key pNetmask := by
  obtain ⟨⟨⟨⟩, w'⟩, hrun⟩ := (total_rmaccount pMsg).run env w
  obtain ⟨w₁, removed, hdb, hissued⟩ := wp_rmaccount_account hparameter haccount () w' hrun
  have hfwd : w.db.sessions.fwd (key (strtokBuf ' ' pParameter)) = some (key pNetmask) := by
    rw [Databases.sessions_fwd, hsession, Option.map_some]
  -- the netmasks of the account that are left
  have hleft (m : Key) : (w'.db.fetch .nickToUser m).map key =
      if m = key pNetmask then none else (w.db.fetch .nickToUser m).map key := by
    rw [hdb, ← Databases.sessions_bwd, removed.sessions]
    show w.db.sessions.release _ m = _
    rw [Paired.release_of_some hfwd, Function.update_apply, Databases.sessions_bwd]
  have hgone : w'.db.fetch .userToNick (key (strtokBuf ' ' pParameter)) = none := by
    rw [← Option.map_eq_none_iff (f := key), ← Databases.sessions_fwd, hdb, removed.sessions]
    exact Function.update_self ..
  constructor
  · rintro ⟨w'', hrun', revoked⟩
    cases hrun.symm.trans hrun'
    refine ⟨List.eq_nil_iff_forall_not_mem.mpr fun c hc => ?_, fun m pLogin hm howner => ?_⟩
    · obtain ⟨lines, hlines, hmodes⟩ := revoked.modes
      rw [hissued] at hlines
      obtain rfl := List.self_eq_append_right.mp hlines
      cases (hmodes rmnick hnick c hc).1
    · by_contra hother
      have hm' := hleft m
      rw [if_neg hother, hm, Option.map_some] at hm'
      obtain ⟨pLogin', hm', howner'⟩ := Option.map_eq_some_iff.mp hm'
      exact revoked.nickToUser m pLogin' hm' (howner'.trans howner)
  · rintro ⟨hchannels, hunique⟩
    refine ⟨w', hrun, hdb ▸ removed.user, hdb ▸ removed.timelog, hgone,
      fun m pLogin hm howner => ?_, [], by rw [hissued, List.append_nil], ?_⟩
    · have hm' := hleft m
      rw [hm, Option.map_some, howner] at hm'
      split at hm'
      · cases hm'
      · next hother =>
        obtain ⟨pLogin', hm₀, howner'⟩ := Option.map_eq_some_iff.mp hm'.symm
        exact hother (hunique m pLogin' hm₀ howner')
    · rw [hchannels]
      exact fun _ _ _ hc => absurd hc List.not_mem_nil

/-- A line that removes the account of `alice`. -/
def removeAlice : MsgItem := rootItem "!rmaccount alice"

theorem removeAlice_parameters : removeAlice.parameters = some "alice" := by decide +kernel

/-- Without a channel the removal is complete. -/
theorem rmaccount_revokes_alice : ∃ es w w', Run step (fun _ _ => True) freshBot es w ∧
    w.db.fetch .userToNick (key "alice") = some "alice!a@h".toList ∧
    (rmaccount removeAlice).run (perform calmEnv) w = some ((), w') ∧
    AccountRevoked w w' (key "alice") "alice!a@h" := by
  have computed : (receiveAll (fun _ _ => true) calmEnv freshBot
      [":root!r@h PRIVMSG ebotula :!hello", ":alice!a@h PRIVMSG ebotula :!hello"]).map
      (fun w => (w.db.fetch .userToNick (key "alice"), (w.db.fetch .user (key "alice")).isSome,
        w.db.listDb .channel)) = some (some "alice!a@h".toList, true, []) := by
    decide +kernel
  obtain ⟨w, hw, hfacts⟩ := Option.map_eq_some_iff.mp computed
  obtain ⟨hsession, haccount, hchannels⟩ := Prod.mk.inj hfacts |>.imp_right Prod.mk.inj
  obtain ⟨es, run⟩ := run_of_receiveAll hw
  have run : Run step (fun _ _ => True) freshBot es w := run.mono fun _ _ _ => trivial
  have owned := freshBot_noSessions.owned_run run
  have hnick : getNickname "alice!a@h" = some "alice" := by decide +kernel
  have hunique : ∀ m pLogin, w.db.fetch .nickToUser m = some pLogin →
      key pLogin = key (strtokBuf ' ' "alice") → m = key "alice!a@h" := by
    intro m pLogin hm howner
    have hfwd := owned.backed (key pLogin) m (by rw [Databases.sessions_bwd, hm, Option.map_some])
    rw [howner, Databases.sessions_fwd] at hfwd
    exact (Option.some.inj (hfwd.symm.trans (congrArg (Option.map key) hsession)))
  obtain ⟨w', hrun, revoked⟩ := (rmaccount_revokes_iff removeAlice_parameters haccount hsession
    hnick).mpr ⟨hchannels, hunique⟩
  exact ⟨es, w, w', run, hsession, hrun, revoked⟩

/-- With a channel the operator of it stays one. -/
theorem removed_account_keeps_modes : ∃ es w, Run step (fun _ _ => True) freshBot es w ∧
    w.db.fetch .userToNick (key "alice") = some "alice!a@h".toList ∧
    (w.db.fetch .user (key "alice")).isSome = true ∧ w.db.listDb .channel = ["#c".toList] ∧
    ¬ ∃ w', (rmaccount removeAlice).run (perform calmEnv) w = some ((), w') ∧
      AccountRevoked w w' (key "alice") "alice!a@h" := by
  have computed : (receiveAll (fun _ _ => true) calmEnv freshBot ownedChannel).map
      (fun w => (w.db.fetch .userToNick (key "alice"), (w.db.fetch .user (key "alice")).isSome,
        w.db.listDb .channel)) = some (some "alice!a@h".toList, true, ["#c".toList]) := by
    decide +kernel
  obtain ⟨w, hw, hfacts⟩ := Option.map_eq_some_iff.mp computed
  obtain ⟨hsession, haccount, hchannels⟩ := Prod.mk.inj hfacts |>.imp_right Prod.mk.inj
  obtain ⟨es, run⟩ := run_of_receiveAll hw
  refine ⟨es, w, run.mono fun _ _ _ => trivial, hsession, haccount, hchannels, ?_⟩
  rintro ⟨w', hrun, revoked⟩
  obtain ⟨w₁, removed, hdb, hissued⟩ :=
    wp_rmaccount_account removeAlice_parameters haccount () w' hrun
  obtain ⟨lines, hlines, hmodes⟩ := revoked.modes
  rw [hissued] at hlines
  obtain rfl := List.self_eq_append_right.mp hlines
  have hnick : getNickname "alice!a@h" = some "alice" := by decide +kernel
  cases (hmodes _ hnick "#c" (hchannels ▸ List.mem_singleton_self _)).1

end Ebotula
