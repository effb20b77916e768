import Ebotula.Laws.LogOn
import Ebotula.Laws.Rights

/-!
# The two sweeps over old accounts

`rmDeadAccounts` and `rmDeadLogins` go through a list of logins that was made before the first
removal. A removal takes the records of one account out of five files, so the law of one removal
is stated for a set of accounts (`Removed`), and the sweep is one removal after another
(`Removed.trans`): what a turn takes away does not change which accounts are old.

The rights are kept under a login that is followed by a channel, and `rmAccessRights` deletes by
such keys. It takes what belongs to an account exactly as far as a key says whose it is.
-/

set_option autoImplicit false

namespace Ebotula

open Library

variable {G : Type} [DbLib G] {env : Env} {w : World G} {Q : Unit → World G → Prop}
  {R R' : Key → Prop} {dbs dbs' dbs'' : Databases G} {t : Int}

/-! ## The records of a set of accounts -/

/-- The netmask leads to an account of the set. -/
def Databases.LeadsInto (dbs : Databases G) (R : Key → Prop) (m : Key) : Prop :=
  ∃ u, R u ∧ (dbs.fetch .nickToUser m).map key = some u

/-- The key under which `rmAccessRights` looks for a right of the account: the login itself, or
with a channel behind it. -/
def Databases.RightOf (dbs : Databases G) (u k : Key) : Prop :=
  k = u ∨ ∃ pChannel ∈ dbs.listDb .channel, k = u ++ key pChannel

/-- The sessions of a set of accounts have ended, and nobody else's. -/
structure LoggedOut (R : Key → Prop) (dbs dbs' : Databases G) : Prop where
  userToNick : Drops R (dbs.fetch .userToNick) (dbs'.fetch .userToNick)
  nickToUser : Drops (dbs.LeadsInto R) (dbs.fetch .nickToUser) (dbs'.fetch .nickToUser)

/-- A set of accounts has been removed, with their sessions, times and rights, and nothing
else. -/
structure Removed (R : Key → Prop) (dbs dbs' : Databases G) : Prop extends
    LoggedOut R dbs dbs' where
  same : SameExcept (.user :: .access :: .timelog :: sessionDbs) dbs dbs'
  user : Drops R (dbs.fetch .user) (dbs'.fetch .user)
  timelog : Drops R (dbs.fetch .timelog) (dbs'.fetch .timelog)
  access : Drops (fun k => ∃ u, R u ∧ dbs.RightOf u k) (dbs.fetch .access) (dbs'.fetch .access)

namespace LoggedOut

theorem nothing (h : ∀ u, ¬ R u) : LoggedOut R dbs dbs :=
  ⟨.nothing h, .nothing fun _ ⟨u, hu, _⟩ => h u hu⟩

/-- Accounts that are not logged in have no session to lose. -/
theorem noSession (inverse : dbs.sessions.Inverse)
    (h : ∀ u, R u → dbs.fetch .userToNick u = none) : LoggedOut R dbs dbs := by
  refine ⟨⟨h, fun _ _ => rfl⟩, ⟨fun m ⟨u, hu, hlead⟩ => ?_, fun _ _ => rfl⟩⟩
  have hfwd := (inverse u m).mpr hlead
  rw [Databases.sessions_fwd, h u hu] at hfwd
  cases hfwd

theorem congr (h : LoggedOut R dbs dbs') (hR : ∀ u, R u ↔ R' u) : LoggedOut R' dbs dbs' := by
  obtain rfl : R = R' := funext fun u => propext (hR u)
  exact h

/-- The tables invert each other as before. -/
theorem inverse (h : LoggedOut R dbs dbs') (inverse : dbs.sessions.Inverse) :
    dbs'.sessions.Inverse := by
  intro u m
  have hback := inverse u m
  simp only [Databases.sessions_fwd, Databases.sessions_bwd, Option.map_eq_some_iff,
    h.userToNick.eq_some_iff, h.nickToUser.eq_some_iff] at hback ⊢
  -- both sides lose the pair exactly if `u` is in the set
  refine ⟨fun ⟨s, ⟨hu, hs⟩, hm⟩ => ?_, fun ⟨s, ⟨hm, hs⟩, hu⟩ => ?_⟩
  · obtain ⟨s', hs', hu'⟩ := hback.mp ⟨s, hs, hm⟩
    refine ⟨s', ⟨fun ⟨v, hv, hlead⟩ => hu ?_, hs'⟩, hu'⟩
    rw [hs', Option.map_some, hu', Option.some.injEq] at hlead
    exact hlead ▸ hv
  · obtain ⟨s', hs', hm'⟩ := hback.mpr ⟨s, hs, hu⟩
    refine ⟨s', ⟨fun hv => hm ⟨u, hv, ?_⟩, hs'⟩, hm'⟩
    rw [hs, Option.map_some, hu]

theorem trans (h : LoggedOut R dbs dbs') (h' : LoggedOut R' dbs' dbs'') :
    LoggedOut (fun u => R u ∨ R' u) dbs dbs'' := by
  refine ⟨h.userToNick.trans h'.userToNick, (h.nickToUser.trans h'.nickToUser).congr ?_⟩
  intro m pLogin hm
  have hkey (S : Key → Prop) : dbs.LeadsInto S m ↔ S (key pLogin) := by
    rw [Databases.LeadsInto, hm, Option.map_some]
    exact ⟨fun ⟨u, hu, heq⟩ => Option.some.inj heq ▸ hu, fun hu => ⟨_, hu, rfl⟩⟩
  rw [hkey, hkey]
  by_cases hR : R (key pLogin)
  · exact iff_of_true (.inl hR) (.inl hR)
  · have hkept := h.nickToUser.kept m (mt (hkey R).mp hR)
    rw [or_iff_right hR, or_iff_right hR, ← hkey R', Databases.LeadsInto, hkept,
      Databases.LeadsInto]

end LoggedOut

namespace Removed

theorem nothing (h : ∀ u, ¬ R u) : Removed R dbs dbs :=
  ⟨.nothing h, .refl, .nothing h, .nothing h, .nothing fun _ ⟨u, hu, _⟩ => h u hu⟩

theorem congr (h : Removed R dbs dbs') (hR : ∀ u, R u ↔ R' u) : Removed R' dbs dbs' := by
  obtain rfl : R = R' := funext fun u => propext (hR u)
  exact h

theorem trans (h : Removed R dbs dbs') (h' : Removed R' dbs' dbs'') :
    Removed (fun u => R u ∨ R' u) dbs dbs'' := by
  refine ⟨h.toLoggedOut.trans h'.toLoggedOut, h.same.trans h'.same, h.user.trans h'.user,
    h.timelog.trans h'.timelog, (h.access.trans h'.access).congr fun k _ _ => ?_⟩
  have hright (u : Key) : dbs'.RightOf u k ↔ dbs.RightOf u k := by
    rw [Databases.RightOf, h.same.listDb (by decide), Databases.RightOf]
  simp only [hright, or_and_right, exists_or]

end Removed

/-! ## One account -/

theorem wp_logOut_loggedOut {pLogin : CStr} (inverse : w.db.sessions.Inverse)
    (h : ∀ w', SameExcept sessionDbs w.db w'.db →
      LoggedOut (· = key pLogin) w.db w'.db → Q () w') :
    (logOut pLogin).wp (perform env) Q w := by
  refine wp_logOut_records fun w' same hfwd hbwd => h w' same ⟨hfwd ▸ .update, ?_⟩
  have hleads (m : Key) : w.db.LeadsInto (· = key pLogin) m ↔
      (w.db.fetch .nickToUser m).map key = some (key pLogin) := exists_eq_left
  rw [hbwd]
  refine ⟨fun m hm => ?_, fun m hm => ?_⟩
  · rw [Databases.releasedNicks_apply inverse, if_pos ((hleads m).mp hm)]
  · rw [Databases.releasedNicks_apply inverse, if_neg (mt (hleads m).mpr hm)]

theorem mem_rightKeys {channels : List CStr} {pLogin : CStr} {k : Key} :
    k ∈ rightKeys channels pLogin ↔
      k = key pLogin ∨ ∃ pChannel ∈ channels, k = key pLogin ++ key pChannel := by
  simp only [rightKeys, List.mem_cons, List.mem_map, key_append, eq_comm]

theorem drops_dropKeys {ks : List Key} {f : Key → Option CStr} :
    Drops (· ∈ ks) f (dropKeys ks f) :=
  ⟨fun _ hk => dropKeys_of_mem hk, fun _ hk => if_neg hk⟩

/-- `rmAccount` removes the one account. -/
theorem wp_rmAccount_drops {pLogin : CStr} (inverse : w.db.sessions.Inverse)
    (h : ∀ w', Removed (· = key pLogin) w.db w'.db → Q () w') :
    (rmAccount pLogin).wp (perform env) Q w := by
  simp only [rmAccount, Prog.wp_bind, Prog.liftM_eq, wp_perform_lift]
  refine wp_quiet fun _ w₁ h₁ => ?_
  rw [← h₁] at inverse
  refine wp_logOut_loggedOut inverse fun w₂ same₂ out => ?_
  refine wp_rmAccessRights fun w₃ same₃ hacc => ?_
  rw [h₁] at same₂ out
  rw [same₂.listDb (by decide), same₂.fetch (by decide)] at hacc
  simp only [wp_delDb, Prog.wp_pure]
  have same₄ : SameExcept [.user] w₃.db (w₃.db.delDb .user (some pLogin)).2 :=
    Databases.same_delDb
  have same₅ : SameExcept [.timelog] _
      ((w₃.db.delDb .user (some pLogin)).2.delDb .timelog (some pLogin)).2 :=
    Databases.same_delDb
  have same₆ : SameExcept [.user, .access, .timelog] _ _ :=
    (same₃.mono (by decide)).trans ((same₄.mono (by decide)).trans (same₅.mono (by decide)))
  refine h _ ⟨⟨?_, ?_⟩, ?_, ?_, ?_, ?_⟩
  · rw [same₆.fetch (by decide)]
    exact out.userToNick
  · rw [same₆.fetch (by decide)]
    exact out.nickToUser
  · exact (same₂.mono (by decide)).trans (same₆.mono (by decide))
  · rw [same₅.fetch (by decide), Databases.fetch_delDb, same₃.fetch (by decide),
      same₂.fetch (by decide)]
    exact .update
  · rw [Databases.fetch_delDb, same₄.fetch (by decide), same₃.fetch (by decide),
      same₂.fetch (by decide)]
    exact .update
  · rw [same₅.fetch (by decide), same₄.fetch (by decide), hacc]
    refine drops_dropKeys.congr fun k _ _ => ?_
    rw [mem_rightKeys, exists_eq_left]
    rfl

/-! ## The sweeps -/

/-- The account has a time stamp below the limit. -/
def Databases.Expired (dbs : Databases G) (t : Int) (u : Key) : Prop :=
  ∃ pTime, dbs.fetch .timelog u = some pTime ∧ atol pTime < t

/-- A removal makes nobody old and nobody young. -/
theorem Removed.expired_iff (h : Removed R dbs dbs') (u : Key) :
    dbs'.Expired t u ↔ ¬ R u ∧ dbs.Expired t u := by
  simp only [Databases.Expired, h.timelog.eq_some_iff, and_assoc, exists_and_left]

/-- A turn of `rmDeadAccounts` removes its account if it is old. -/
theorem wp_rmDeadAccount_expired {pLogin : CStr} (inverse : w.db.sessions.Inverse)
    (h : ∀ w', Removed (fun u => u = key pLogin ∧ w.db.Expired t u) w.db w'.db → Q () w') :
    (rmDeadAccount t pLogin).wp (perform env) Q w := by
  simp only [rmDeadAccount, Prog.wp_bind, Prog.liftM_eq, wp_perform_lift, wp_getDb,
    Databases.getDb_some]
  cases htime : w.db.fetch .timelog (key pLogin) with
  | none =>
    refine (Prog.wp_pure () _ _).mpr (h w (.nothing ?_))
    rintro _ ⟨rfl, pTime, hsome, -⟩
    rw [htime] at hsome
    cases hsome
  | some pTime =>
    have hold : w.db.Expired t (key pLogin) ↔ atol pTime < t := by
      simp only [Databases.Expired, htime, Option.some.injEq, exists_eq_left']
    refine (Prog.wp_ite _ _ _ _).mpr ⟨fun hlt => ?_, fun hle => ?_⟩
    · rw [Prog.wp_bind]
      refine wp_rmAccount_drops inverse fun w₁ removed => wp_lift_quiet fun _ w₂ h₂ => ?_
      refine h w₂ (h₂ ▸ removed.congr fun u => ⟨fun hu => ⟨hu, ?_⟩, And.left⟩)
      rw [hu]
      exact hold.mpr hlt
    · refine (Prog.wp_pure () _ _).mpr (h w (.nothing ?_))
      rintro _ ⟨rfl, hexpired⟩
      exact hle (hold.mp hexpired)

/-- The loop of `rmDeadAccounts`, over any list of logins. -/
theorem wp_rmDeadAccounts_loop {logins : List CStr} (inverse : w.db.sessions.Inverse)
    (h : ∀ w', Removed (fun u => (∃ s ∈ logins, u = key s) ∧ w.db.Expired t u) w.db w'.db →
      Q () w') :
    (Prog.forEach (rmDeadAccount t) logins).wp (perform env) Q w := by
  induction logins generalizing w with
  | nil =>
    refine (Prog.wp_pure () _ _).mpr (h w (.nothing ?_))
    rintro _ ⟨⟨_, hs, _⟩, _⟩
    exact List.not_mem_nil hs
  | cons s logins ih =>
    rw [Prog.forEach, Prog.wp_bind]
    refine wp_rmDeadAccount_expired inverse fun w₁ removed => ?_
    refine ih (removed.inverse inverse) fun w₂ removed₂ => h w₂ ?_
    refine (removed.trans removed₂).congr fun u => ?_
    simp only [removed.expired_iff, List.mem_cons, exists_eq_or_imp]
    by_cases hs : u = key s ∧ w.db.Expired t u
    · exact iff_of_true (.inl hs) ⟨.inl hs.1, hs.2⟩
    · rw [or_iff_right hs, and_iff_right hs]
      exact ⟨fun h => ⟨.inr h.1, h.2⟩, fun h => ⟨h.1.resolve_left fun heq => hs ⟨heq, h.2⟩, h.2⟩⟩

/-- Every account with a time stamp is on the list of `rmDeadAccounts`. -/
theorem Databases.Expired.listed {u : Key} (h : dbs.Expired t u) :
    ∃ s ∈ dbs.listDb .timelog, u = key s := by
  obtain ⟨pTime, htime, -⟩ := h
  exact ⟨u.val, Databases.val_mem_listDb (by rw [htime, Option.isSome_some]), (key_val u).symm⟩

theorem wp_rmDeadAccounts_removed (inverse : w.db.sessions.Inverse)
    (h : ∀ w', Removed (w.db.Expired t) w.db w'.db → Q () w') :
    (rmDeadAccounts t).wp (perform env) Q w := by
  refine (Prog.wp_bind _ _ _ w).mpr ?_
  rw [Prog.liftM_eq, wp_perform_lift, wp_listDb]
  refine wp_rmDeadAccounts_loop inverse fun w' removed => h w' (removed.congr fun u => ?_)
  exact and_iff_right_of_imp Databases.Expired.listed

/-- The account is one that `rmDeadLogins` comes across, with a time stamp below the limit. -/
def Databases.ExpiredLogin (dbs : Databases G) (t : Int) (u : Key) : Prop :=
  (∃ s ∈ dbs.listDb .user, u = key s) ∧ dbs.Expired t u

/-- A turn of `rmDeadLogins` logs its account out if it is old. -/
theorem wp_rmDeadLogin_expired {pLogin : CStr} (inverse : w.db.sessions.Inverse)
    (h : ∀ w', SameExcept sessionDbs w.db w'.db →
      LoggedOut (fun u => u = key pLogin ∧ w.db.Expired t u) w.db w'.db → Q () w') :
    (rmDeadLogin t pLogin).wp (perform env) Q w := by
  simp only [rmDeadLogin, Prog.wp_bind, Prog.liftM_eq, wp_perform_lift, wp_getDb,
    Databases.getDb_some]
  cases htime : w.db.fetch .timelog (key pLogin) with
  | none =>
    refine (Prog.wp_pure () _ _).mpr (h w .refl (.nothing ?_))
    rintro _ ⟨rfl, pTime, hsome, -⟩
    rw [htime] at hsome
    cases hsome
  | some pTime =>
    have hold : w.db.Expired t (key pLogin) ↔ atol pTime < t := by
      simp only [Databases.Expired, htime, Option.some.injEq, exists_eq_left']
    simp only [Prog.wp_bind, wp_perform_lift, wp_existDb, Databases.existDb_some, Prog.wp_ite]
    refine ⟨fun _ => ⟨fun hlt => ?_, fun hle => ?_⟩, fun hout => ?_⟩
    · refine wp_logOut_loggedOut inverse fun w₁ same out => wp_quiet fun _ w₂ h₂ => ?_
      refine h w₂ (h₂ ▸ same) (h₂ ▸ out.congr fun u => ⟨fun hu => ⟨hu, ?_⟩, And.left⟩)
      rw [hu]
      exact hold.mpr hlt
    · refine (Prog.wp_pure () _ _).mpr (h w .refl (.nothing ?_))
      rintro _ ⟨rfl, hexpired⟩
      exact hle (hold.mp hexpired)
    · -- who is not logged in has no session to lose
      refine (Prog.wp_pure () _ _).mpr (h w .refl (.noSession inverse ?_))
      rintro u ⟨rfl, -⟩
      exact Option.not_isSome_iff_eq_none.mp hout

/-- The loop of `rmDeadLogins`, over any list of logins. -/
theorem wp_rmDeadLogins_loop {logins : List CStr} (inverse : w.db.sessions.Inverse)
    (h : ∀ w', SameExcept sessionDbs w.db w'.db →
      LoggedOut (fun u => (∃ s ∈ logins, u = key s) ∧ w.db.Expired t u) w.db w'.db → Q () w') :
    (Prog.forEach (rmDeadLogin t) logins).wp (perform env) Q w := by
  induction logins generalizing w with
  | nil =>
    refine (Prog.wp_pure () _ _).mpr (h w .refl (.nothing ?_))
    exact fun _ ⟨⟨_, hs, _⟩, _⟩ => List.not_mem_nil hs
  | cons s logins ih =>
    rw [Prog.forEach, Prog.wp_bind]
    refine wp_rmDeadLogin_expired inverse fun w₁ same out => ?_
    refine ih (out.inverse inverse) fun w₂ same₂ out₂ => h w₂ (same.trans same₂) ?_
    refine (out.trans out₂).congr fun u => ?_
    have hexpired : w₁.db.Expired t u ↔ w.db.Expired t u := by
      rw [Databases.Expired, same.fetch (by decide), Databases.Expired]
    simp only [hexpired, List.mem_cons, exists_eq_or_imp]
    exact or_and_right.symm

theorem wp_rmDeadLogins_loggedOut (inverse : w.db.sessions.Inverse)
    (h : ∀ w', SameExcept sessionDbs w.db w'.db →
      LoggedOut (w.db.ExpiredLogin t) w.db w'.db → Q () w') :
    (rmDeadLogins t).wp (perform env) Q w := by
  refine (Prog.wp_bind _ _ _ w).mpr ?_
  rw [Prog.liftM_eq, wp_perform_lift, wp_listDb]
  exact wp_rmDeadLogins_loop inverse h

section Total

attribute [local irreducible] Prog.Calls

theorem total_rmDeadAccounts : Total (rmDeadAccounts t) := by
  unfold rmDeadAccounts
  simp only [Prog.liftM_eq]
  refine .bind (total_request trivial) fun _ => .forEach fun pLogin => ?_
  unfold rmDeadAccount
  simp only [Prog.liftM_eq]
  refine .bind (total_request trivial) fun (pTime : Option CStr) => ?_
  cases pTime with
  | none => exact .pure ()
  | some pTime => exact .ite (.bind (total_rmAccount pLogin) fun _ => total_logger) (.pure ())

theorem total_rmDeadLogins : Total (rmDeadLogins t) := by
  unfold rmDeadLogins
  simp only [Prog.liftM_eq]
  refine .bind (total_request trivial) fun _ => .forEach fun pLogin => ?_
  unfold rmDeadLogin
  simp only [Prog.liftM_eq]
  refine .bind (total_request trivial) fun (pTime : Option CStr) => ?_
  cases pTime with
  | none => exact .pure ()
  | some pTime =>
    refine .bind (total_request trivial) fun _ => .ite (.ite ?_ (.pure ())) (.pure ())
    exact .bind (total_logOut pLogin) fun _ => total_logger

end Total

/-- The names by which an expired account could be taken for another: none has a `#`, and all
channels start with one. -/
structure Databases.TellsApart (dbs : Databases G) (t : Int) : Prop where
  nick : ∀ u, dbs.Expired t u → u.IsNick
  channel : ∀ pChannel ∈ dbs.listDb .channel, (key pChannel).IsChannel

/-- Where names can be told apart, the right of another account is not one of an expired one. -/
theorem Removed.access_kept {v k : Key} (removed : Removed (dbs.Expired t) dbs dbs')
    (names : dbs.TellsApart t) (hv : ¬ dbs.Expired t v) (nick : v.IsNick)
    (hk : k.BelongsTo v) : dbs'.fetch .access k = dbs.fetch .access k := by
  refine removed.access.kept k fun ⟨u, hu, hright⟩ => hv ?_
  have belongs : k.BelongsTo u := by
    rcases hright with rfl | ⟨pChannel, hlist, rfl⟩
    · exact .inl rfl
    · exact .inr ⟨_, names.channel pChannel hlist, rfl⟩
  rwa [Key.BelongsTo.unique nick (names.nick u hu) hk belongs]

/-- With mutually inverse session tables both sweeps come to their end. `rmDeadAccounts` leaves
every record of a session, an account or a time as it is that is not of an account with a time
below the limit, and none that is. Of the rights it takes those under the login of such an
account, alone or with a channel behind it; where names can be told apart, none of another
account. `rmDeadLogins` ends the sessions of the accounts with a time below the limit and
changes nothing else. -/
theorem sweeps_exact (env : Env) (w : World G) (t : Int) (inverse : w.db.sessions.Inverse) :
    (∃ w', (rmDeadAccounts t).run (perform env) w = some ((), w') ∧
      Removed (w.db.Expired t) w.db w'.db ∧
      (w.db.TellsApart t → ∀ v k, ¬ w.db.Expired t v → v.IsNick → k.BelongsTo v →
        w'.db.fetch .access k = w.db.fetch .access k)) ∧
    ∃ w', (rmDeadLogins t).run (perform env) w = some ((), w') ∧
      SameExcept sessionDbs w.db w'.db ∧ LoggedOut (w.db.ExpiredLogin t) w.db w'.db := by
  constructor
  · obtain ⟨⟨⟨⟩, w'⟩, hrun⟩ := (total_rmDeadAccounts (t := t)).run env w
    have removed : Removed (w.db.Expired t) w.db w'.db :=
      wp_rmDeadAccounts_removed (Q := fun _ w' => Removed (w.db.Expired t) w.db w'.db) inverse
        (fun _ removed => removed) () w' hrun
    exact ⟨w', hrun, removed, fun names v k hv nick hk => removed.access_kept names hv nick hk⟩
  · obtain ⟨⟨⟨⟩, w'⟩, hrun⟩ := (total_rmDeadLogins (t := t)).run env w
    refine ⟨w', hrun, wp_rmDeadLogins_loggedOut (Q := fun _ w' => SameExcept sessionDbs w.db w'.db ∧
      LoggedOut (w.db.ExpiredLogin t) w.db w'.db) inverse ?_ () w' hrun⟩
    exact fun _ same out => ⟨same, out⟩

/-- A session that ends with its account, which is as old as its login. -/
theorem sweeps_exact_hello :
    ∃ w w' : World Gdbm, w.db.fetch .userToNick (key "alice") = some "alice!a@h".toList ∧
      (rmDeadAccounts (calmEnv.now + 1)).run (perform calmEnv) w = some ((), w') ∧
      w'.db.fetch .userToNick (key "alice") = none ∧
      w'.db.fetch .nickToUser (key "alice!a@h") = none := by
  have computed : (receiveAll (fun w e => e.undisputed w.db) calmEnv freshBot
      [":alice!a@h PRIVMSG ebotula :!hello"]).map
      (fun w => (w.db.fetch .userToNick (key "alice"), w.db.fetch .nickToUser (key "alice!a@h"),
        w.db.fetch .timelog (key "alice"))) =
      some (some "alice!a@h".toList, some "alice".toList, some (sprintLong calmEnv.now)) := by
    decide +kernel
  obtain ⟨w, hw, hrecords⟩ := Option.map_eq_some_iff.mp computed
  obtain ⟨hnetmask, hlogin, htime⟩ := Prod.mk.inj hrecords |>.imp_right Prod.mk.inj
  obtain ⟨es, run⟩ := run_of_receiveAll hw
  have hexpired : w.db.Expired (calmEnv.now + 1) (key "alice") := ⟨_, htime, by decide⟩
  obtain ⟨⟨w', hrun, removed, -⟩, -⟩ := sweeps_exact calmEnv w (calmEnv.now + 1)
    (freshBot_noSessions.inverse_run run)
  refine ⟨w, w', hnetmask, hrun, removed.userToNick.gone _ hexpired, ?_⟩
  exact removed.nickToUser.gone _ ⟨_, hexpired, by rw [hlogin, Option.map_some]⟩

/-- Two accounts, one of which is named like the right of the other in a channel. -/
def confusedBot : World Gdbm :=
  { freshBot with
    db := ((((freshBot.db.write .timelog (key "bob") "0").write .timelog (key "bob#c") "9").write
      .user (key "bob#c") "x").write .channel (key "#c") "").write .access (key "bob#c") "+m" }

/-- A name with a `#` in it can lose its right to the removal of another account: the two logins
are different, and the key of the one is that of the other in a channel. -/
theorem sweep_takes_other_right :
    ¬ ∀ (w : World Gdbm) (t : Int), w.db.sessions.Inverse →
      ∀ w', (rmDeadAccounts t).run (perform calmEnv) w = some ((), w') →
      ∀ v, (w.db.fetch .user v).isSome → ¬ w.db.Expired t v →
        w'.db.fetch .access v = w.db.fetch .access v := by
  intro claim
  have inverse : confusedBot.db.sessions.Inverse :=
    Databases.NoSessions.inverse ⟨fun _ => rfl, fun _ => rfl⟩
  obtain ⟨⟨⟨⟩, w'⟩, hrun⟩ := (total_rmDeadAccounts (t := 5)).run calmEnv confusedBot
  have computed : ((rmDeadAccounts 5).run (perform calmEnv) confusedBot).map
      (fun r => r.2.db.fetch .access (key "bob#c")) = some none := by
    decide +kernel
  rw [hrun, Option.map_some, Option.some.injEq] at computed
  have hkept := claim confusedBot 5 inverse w' hrun (key "bob#c") (by decide +kernel) ?_
  · rw [computed] at hkept
    revert hkept
    decide +kernel
  · rintro ⟨pTime, htime, hlt⟩
    have hnine : confusedBot.db.fetch .timelog (key "bob#c") = some "9".toList := by
      decide +kernel
    rw [hnine] at htime
    obtain rfl := Option.some.inj htime
    revert hlt
    decide

end Ebotula
