import Ebotula.Laws.Authorization
import Ebotula.Laws.Handlers
import Ebotula.Laws.Requests

/-!
# Sessions over whole runs

A session is kept twice, from the login to the netmask and back. Two laws about runs
are derived here from the list of changes.

The stronger one, that the two tables invert each other, holds as long as no event
takes a netmask away from another account (`Event.undisputed`): `add_db` refuses the
netmask that is taken, but the answer is ignored and the login's own entry is written
all the same. The weaker one, that every netmask resolves to an account that is there
and leads back to it, holds in every run. It is what `rmAccount` relies on, which only
deletes the netmask it finds from the login.
-/

set_option autoImplicit false

namespace Ebotula

open Library

variable {G : Type} [DbLib G] {env : Env} {pMsg : MsgItem} {w w' : World G} {e : Event}

/-! ## What each change makes of the sessions -/

/-- The removals of accounts and sessions unbind logins, and nothing else. -/
theorem Removals.sessions_keep {P : Paired Key Key → Prop} {dbs dbs' : Databases G}
    (h : Removals dbs dbs') (unbind : ∀ (p : Paired Key Key) u, P p → P (p.unbind u))
    (start : P dbs.sessions) : P dbs'.sessions := by
  induction h with
  | refl => exact start
  | tail _ removal ih =>
    cases removal with
    | logOut pLogin same hsessions => exact hsessions ▸ unbind _ _ ih
    | account pLogin same hsessions haccess huser => exact hsessions ▸ unbind _ _ ih

/-- The session an event asks for: the login, and the netmask it is to lead to. -/
def Event.newSession (dbs : Databases G) : Event → Option (CStr × Option CStr)
  | .command _ .ident pMsg => do
    let pLogin ← pMsg.identLogin
    if !dbs.existDb .nickToUser pMsg.pNetmask &&
        dbs.checkDb .user (some pLogin) (some pMsg.identPassword) then
      some (pLogin, pMsg.pNetmask)
    else none
  | .command _ .hello pMsg => do
    let pNick ← pMsg.pCallingNick
    if ¬ .loggedLevel < pMsg.userLevel ∧ dbs.existDb .user (some pNick) = false then
      some (pNick, pMsg.pNetmask)
    else none
  | .command _ .onNickChg pMsg => do
    let pLogin ← dbs.getDb .nickToUser pMsg.pNetmask
    let pNew ← pMsg.newNetmask
    some (pLogin, some pNew)
  | _ => none

/-- Nobody else is logged in under the netmask an event binds; and an event without a
netmask is for a login without a session. -/
def Event.undisputed (dbs : Databases G) (e : Event) : Bool :=
  match e.newSession dbs with
  | none => true
  | some (pLogin, some pNetmask) =>
    (dbs.getDb .nickToUser (some pNetmask)).all fun owner => key owner = key pLogin
  | some (pLogin, none) => (dbs.getDb .userToNick (some pLogin)).isNone

theorem Event.undisputed_some {pLogin pNetmask owner : CStr}
    (h : e.undisputed w.db = true) (hsession : e.newSession w.db = some (pLogin, some pNetmask))
    (howner : w.db.getDb .nickToUser (some pNetmask) = some owner) : key owner = key pLogin := by
  rw [undisputed, hsession] at h
  simp only [howner, Option.all_some, decide_eq_true_eq] at h
  exact h

theorem Event.undisputed_none {pLogin : CStr}
    (h : e.undisputed w.db = true) (hsession : e.newSession w.db = some (pLogin, none)) :
    w.db.fetch .userToNick (key pLogin) = none := by
  rw [undisputed, hsession] at h
  exact Option.isNone_iff_eq_none.mp h

theorem Event.undisputed_rebind {pLogin : CStr} {pNetmask : Option CStr}
    (h : e.undisputed w.db = true) (hsession : e.newSession w.db = some (pLogin, pNetmask))
    (inverse : w.db.sessions.Inverse) :
    (w.db.sessions.rebind (key pLogin) (pNetmask.map key)).Inverse := by
  refine inverse.rebind (fun b hb x hx => ?_) fun hnone => ?_
  · obtain ⟨m, rfl, rfl⟩ := Option.map_eq_some_iff.mp hb
    obtain ⟨owner, howner, rfl⟩ := Option.map_eq_some_iff.mp hx
    exact undisputed_some h hsession howner
  · rw [Option.map_eq_none_iff] at hnone
    subst hnone
    rw [Databases.sessions_fwd, Option.map_eq_none_iff]
    exact undisputed_none h hsession

theorem Change.sessions_inverse {dbs' : Databases G} (h : Change w.db e dbs')
    (free : e.undisputed w.db = true) (inverse : w.db.sessions.Inverse) :
    dbs'.sessions.Inverse := by
  cases h with
  | unchanged => exact inverse
  | removals _ removed => exact removed.sessions_keep (fun _ u hp => hp.unbind u) inverse
  | password same | record same | addChannel _ same | rmChannel _ same =>
    exact same.sessions (by decide) (by decide) ▸ inverse
  | accountmode _ _ _ _ _ _ _ same => exact same.sessions (by decide) (by decide) ▸ inverse
  | ident hlogin hguest hcheck same hsessions =>
    refine hsessions ▸ Event.undisputed_rebind free ?_ inverse
    simp only [Event.newSession, hlogin, Option.bind_eq_bind, Option.bind_some,
      Databases.existDb_eq, hguest, Option.isSome_none, Bool.not_false, hcheck, Bool.and_self,
      if_true]
  | hello hnick hlevel hfree same huser hsessions haccess =>
    refine hsessions ▸ Event.undisputed_rebind free ?_ inverse
    simp only [Event.newSession, hnick, Option.bind_eq_bind, Option.bind_some, hlevel,
      not_false_eq_true, Databases.existDb_some, hfree, Option.isSome_none, and_self, if_true]
  | @nickChange _ env pMsg pLogin pNew hnew hlogin same hsessions =>
    have hsession : Event.newSession w.db (.command env .onNickChg pMsg) =
        some (pLogin, some pNew) := by
      simp only [Event.newSession, hlogin, hnew, Option.bind_eq_bind, Option.bind_some]
    refine hsessions ▸ (inverse.unbind _).rebind (fun b hb x hx => ?_) fun hnone => by cases hnone
    cases hb
    obtain ⟨hbwd, -⟩ := Paired.release_eq_some.mp hx
    obtain ⟨owner, howner, rfl⟩ := Option.map_eq_some_iff.mp hbwd
    exact Event.undisputed_some free hsession howner

/-- No session is kept at all. -/
structure Databases.NoSessions (dbs : Databases G) : Prop where
  userToNick : ∀ k, dbs.fetch .userToNick k = none
  nickToUser : ∀ k, dbs.fetch .nickToUser k = none

theorem Databases.NoSessions.inverse {dbs : Databases G} (h : dbs.NoSessions) :
    dbs.sessions.Inverse :=
  .of_empty (fun a => by rw [sessions_fwd, h.userToNick, Option.map_none])
    fun b => by rw [sessions_bwd, h.nickToUser, Option.map_none]

/-- Without a dispute about a netmask the tables stay each other's inverse. -/
theorem Databases.NoSessions.inverse_run {es : List Event} (start : w.db.NoSessions)
    (run : Run step (fun w e => e.undisputed w.db = true) w es w') : w'.db.sessions.Inverse :=
  run.invariant (I := fun w => w.db.sessions.Inverse)
    (fun _ _ _ inverse free hstep => (step_change hstep).sessions_inverse free inverse)
    start.inverse

/-- From empty session tables on, in every run without a dispute about a netmask, the
two tables invert each other. So no netmask is the session of two accounts, and no
account has two. -/
theorem sessions_mutually_inverse {es : List Event} (start : w.db.NoSessions)
    (run : Run step (fun w e => e.undisputed w.db = true) w es w') :
    (∀ u m : Key, (w'.db.fetch .userToNick u).map key = some m ↔
      (w'.db.fetch .nickToUser m).map key = some u) ∧
    (∀ u u' m : Key, (w'.db.fetch .userToNick u).map key = some m →
      (w'.db.fetch .userToNick u').map key = some m → u = u') ∧
    ∀ u m m' : Key, (w'.db.fetch .nickToUser m).map key = some u →
      (w'.db.fetch .nickToUser m').map key = some u → m = m' := by
  have inverse := start.inverse_run run
  exact ⟨inverse, fun _ _ _ => inverse.source_unique, fun _ _ _ => inverse.backed.target_unique⟩

theorem freshBot_noSessions : freshBot.db.NoSessions := ⟨fun _ => rfl, fun _ => rfl⟩

/-- A session that goes over to a new nick. -/
theorem sessions_mutually_inverse_nickChange :
    ∃ es w', Run step (fun w e => e.undisputed w.db = true) freshBot es w' ∧
      w'.db.fetch .userToNick (key "alice") = some "bob!a@h".toList ∧
      ∀ u m : Key, (w'.db.fetch .userToNick u).map key = some m ↔
        (w'.db.fetch .nickToUser m).map key = some u := by
  have computed : (receiveAll (fun w e => e.undisputed w.db) calmEnv freshBot
      [":alice!a@h PRIVMSG ebotula :!hello", ":alice!a@h NICK :bob"]).map
      (fun w => w.db.fetch .userToNick (key "alice")) = some (some "bob!a@h".toList) := by
    decide +kernel
  obtain ⟨w', hw, hsession⟩ := Option.map_eq_some_iff.mp computed
  obtain ⟨es, run⟩ := run_of_receiveAll hw
  exact ⟨es, w', run, hsession, (sessions_mutually_inverse freshBot_noSessions run).1⟩

/-- `hello` from a netmask that a nick change has made another account's: both accounts
are recorded under it, and it resolves to the first. -/
theorem sessions_not_inverse_hello :
    ∃ es w', receiveAll (fun _ _ => true) calmEnv freshBot
        [":root!r@h PRIVMSG ebotula :!hello", ":alice!a@h PRIVMSG ebotula :!hello",
          ":alice!a@h NICK :bob", ":bob!a@h PRIVMSG ebotula :!hello"] = some w' ∧
      Run step (fun _ _ => True) freshBot es w' ∧
      ¬ ∀ u m : Key, (w'.db.fetch .userToNick u).map key = some m ↔
        (w'.db.fetch .nickToUser m).map key = some u := by
  have computed : (receiveAll (fun _ _ => true) calmEnv freshBot
      [":root!r@h PRIVMSG ebotula :!hello", ":alice!a@h PRIVMSG ebotula :!hello",
        ":alice!a@h NICK :bob", ":bob!a@h PRIVMSG ebotula :!hello"]).map
      (fun w => (w.db.fetch .userToNick (key "bob"), w.db.fetch .nickToUser (key "bob!a@h"))) =
      some (some "bob!a@h".toList, some "alice".toList) := by
    decide +kernel
  obtain ⟨w', hw, hsession⟩ := Option.map_eq_some_iff.mp computed
  obtain ⟨es, run⟩ := run_of_receiveAll hw
  obtain ⟨hbob, hmask⟩ := Prod.mk.inj hsession
  refine ⟨es, w', hw, run.mono fun _ _ _ => trivial, fun inverse => ?_⟩
  have hback := (inverse (key "bob") (key "bob!a@h")).mp (by rw [hbob, Option.map_some])
  rw [hmask, Option.map_some] at hback
  exact absurd hback (by decide)

/-! ## No session without an account -/

/-- The account of a login is there. -/
def Databases.HasAccount (dbs : Databases G) (u : Key) : Prop := (dbs.fetch .user u).isSome

/-- Every netmask leads back to itself through its account, and the account is there. -/
abbrev Databases.SessionsOwned (dbs : Databases G) : Prop := dbs.sessions.BackedIn dbs.HasAccount

theorem Databases.NoSessions.owned {dbs : Databases G} (h : dbs.NoSessions) :
    dbs.SessionsOwned := by
  refine ⟨h.inverse.backed, fun u m hm => ?_⟩
  rw [sessions_bwd, h.nickToUser, Option.map_none] at hm
  cases hm

theorem Removal.sessionsOwned {dbs dbs' : Databases G} (removal : Removal dbs dbs')
    (owned : dbs.SessionsOwned) : dbs'.SessionsOwned := by
  unfold Databases.SessionsOwned
  cases removal with
  | logOut pLogin same hsessions =>
    rw [hsessions]
    refine owned.unbind _ fun k _ hk => ?_
    rwa [Databases.HasAccount, same.fetch (by decide)]
  | account pLogin same hsessions haccess huser =>
    rw [hsessions]
    refine owned.unbind _ fun k hne hk => ?_
    rwa [Databases.HasAccount, huser, Function.update_of_ne hne]

theorem Change.sessionsOwned {dbs' : Databases G} (change : Change w.db e dbs')
    (owned : w.db.SessionsOwned) : dbs'.SessionsOwned := by
  unfold Databases.SessionsOwned
  cases change with
  | unchanged => exact owned
  | removals _ removed =>
    induction removed with
    | refl => exact owned
    | tail _ last ih => exact last.sessionsOwned ih
  | password same hkeys =>
    rw [same.sessions (by decide) (by decide)]
    exact owned.mono fun k hk => (hkeys k).trans hk
  | record same | addChannel _ same | rmChannel _ same | accountmode _ _ _ _ _ _ _ same =>
    rw [same.sessions (by decide) (by decide)]
    refine owned.mono fun k hk => ?_
    rwa [Databases.HasAccount, same.fetch (by decide)]
  | ident hlogin hguest hcheck same hsessions =>
    have huser : dbs'.HasAccount = w.db.HasAccount := by
      funext k
      rw [Databases.HasAccount, same.fetch (by decide), Databases.HasAccount]
    rw [hsessions, huser]
    refine owned.rebind _ (fun _ h => h) ?_
    rw [Databases.HasAccount, Databases.checkDb_eq_true.mp hcheck, Option.isSome_some]
  | hello hnick hlevel hfree same huser hsessions =>
    rw [hsessions]
    refine owned.rebind _ (fun k hk => ?_) ?_
    · rw [Databases.HasAccount, huser, Function.update_apply]
      split
      · rfl
      · exact hk
    · rw [Databases.HasAccount, huser, Function.update_self, Option.isSome_some]
  | @nickChange _ _ pMsg pLogin pNew hnew hlogin same hsessions =>
    have huser : dbs'.HasAccount = w.db.HasAccount := by
      funext k
      rw [Databases.HasAccount, same.fetch (by decide), Databases.HasAccount]
    have hheld : w.db.HasAccount (key pLogin) := by
      cases hmask : pMsg.pNetmask with
      | none =>
        rw [hmask] at hlogin
        cases hlogin
      | some pNetmask =>
        rw [hmask, Databases.getDb_some] at hlogin
        exact owned.source _ (key pNetmask)
          (by rw [Databases.sessions_bwd, hlogin, Option.map_some])
    rw [hsessions, huser]
    exact (owned.unbind _ fun _ _ h => h).rebind _ (fun _ h => h) hheld

/-- In every run from empty session tables on, every netmask leads back to itself. -/
theorem Databases.NoSessions.owned_run {es : List Event} (start : w.db.NoSessions)
    (run : Run step (fun _ _ => True) w es w') : w'.db.SessionsOwned :=
  run.invariant (I := fun w => w.db.SessionsOwned)
    (fun _ _ _ owned _ hstep => (step_change hstep).sessionsOwned owned) start.owned

/-! ### After `rmAccount` -/

theorem total_logOut (pLogin : CStr) : Total (logOut pLogin) := by
  refine .bind (total_request trivial) fun (pNetmask : Option CStr) => ?_
  cases pNetmask with
  | none => exact .pure ()
  | some pNetmask => exact .bind total_delDb fun _ => .bind total_delDb fun _ => total_logger

theorem total_rmAccessRights (pLogin : CStr) : Total (rmAccessRights pLogin) := by
  refine .bind total_logger fun _ => .bind total_delDb fun _ => ?_
  refine .bind (total_request trivial) fun (pChannelQueue : List CStr) => ?_
  exact .forEach fun _ => .bind total_delDb fun _ => .pure ()

theorem total_rmAccount (pLogin : CStr) : Total (rmAccount pLogin) := by
  refine .bind total_logger fun _ => .bind (total_logOut pLogin) fun _ => ?_
  refine .bind (total_rmAccessRights pLogin) fun _ => ?_
  exact .bind total_delDb fun _ => .bind total_delDb fun _ => .pure ()

theorem rmAccount_ends (env : Env) (w : World G) (pLogin : CStr) :
    ∃ w', (rmAccount pLogin).run (perform env) w = some ((), w') := by
  obtain ⟨⟨⟨⟩, w'⟩, hrun⟩ := (total_rmAccount pLogin).run env w
  exact ⟨w', hrun⟩

/-- In every run from empty session tables on, a netmask resolves to an account that is
there. After `rmAccount` none resolves to the login, and whoever was logged in as it has
no level any more. -/
theorem session_has_account {es : List Event} (start : w.db.NoSessions)
    (run : Run step (fun _ _ => True) w es w') :
    (∀ m pLogin, w'.db.fetch .nickToUser m = some pLogin →
      (w'.db.fetch .user (key pLogin)).isSome) ∧
    ∀ env pLogin, ∃ w'', (rmAccount pLogin).run (perform env) w' = some ((), w'') ∧
      (∀ m owner, w''.db.fetch .nickToUser m = some owner → key owner ≠ key pLogin) ∧
      ∀ pNetmask owner, w'.db.getDb .nickToUser (some pNetmask) = some owner →
        key owner = key pLogin → ∀ pChannel,
          (getUserLevel pChannel (some pNetmask)).run (performQuiet env) w'' =
            some (.noneLevel, w'') := by
  have owned := start.owned_run run
  refine ⟨fun m pLogin hm => owned.source _ m ?_, fun env pLogin => ?_⟩
  · rw [Databases.sessions_bwd, hm, Option.map_some]
  obtain ⟨w'', hrun⟩ := rmAccount_ends env w' pLogin
  have hsessions : w''.db.sessions = w'.db.sessions.unbind (key pLogin) :=
    wp_rmAccount (Q := fun _ w'' => w''.db.sessions = w'.db.sessions.unbind (key pLogin))
      (fun _ _ hs _ _ => hs) () w'' hrun
  have gone {m owner} (hm : w''.db.fetch .nickToUser m = some owner) :
      w'.db.sessions.release (key pLogin) m = some (key owner) := by
    have hbwd : w''.db.sessions.bwd m = some (key owner) := by
      rw [Databases.sessions_bwd, hm, Option.map_some]
    rwa [hsessions] at hbwd
  refine ⟨w'', hrun, fun m owner hm heq => ?_, fun pNetmask owner hm heq pChannel => ?_⟩
  · exact owned.backed.release_ne (heq ▸ gone hm)
  · have hnone : w''.db.getDb .nickToUser (some pNetmask) = none := by
      cases hm'' : w''.db.fetch .nickToUser (key pNetmask) with
      | none => exact hm''
      | some owner'' =>
        have hrel := gone hm''
        have hbwd := (Paired.release_eq_some.mp hrel).1
        rw [Databases.getDb_some] at hm
        rw [Databases.sessions_bwd, hm, Option.map_some, heq] at hbwd
        exact absurd (hbwd ▸ hrel) owned.backed.release_ne
    rw [run_getUserLevel, Databases.userLevel, hnone]

/-- A session of an account that is then removed. -/
theorem session_has_account_removed :
    ∃ es w' w'', Run step (fun _ _ => True) freshBot es w' ∧
      w'.db.fetch .nickToUser (key "alice!a@h") = some "alice".toList ∧
      (w'.db.fetch .user (key "alice")).isSome ∧
      (rmAccount "alice").run (perform calmEnv) w' = some ((), w'') ∧
      (getUserLevel none (some "alice!a@h")).run (performQuiet calmEnv) w'' =
        some (.noneLevel, w'') := by
  have computed : (receiveAll (fun _ _ => true) calmEnv freshBot
      [":root!r@h PRIVMSG ebotula :!hello", ":alice!a@h PRIVMSG ebotula :!hello"]).map
      (fun w => w.db.fetch .nickToUser (key "alice!a@h")) = some (some "alice".toList) := by
    decide +kernel
  obtain ⟨w', hw, hsession⟩ := Option.map_eq_some_iff.mp computed
  obtain ⟨es, run⟩ := run_of_receiveAll hw
  have run : Run step (fun _ _ => True) freshBot es w' := run.mono fun _ _ _ => trivial
  obtain ⟨account, removed⟩ := session_has_account freshBot_noSessions run
  obtain ⟨w'', hrun, -, level⟩ := removed calmEnv "alice"
  exact ⟨es, w', w'', run, hsession, account _ _ hsession, hrun, level _ _ hsession rfl none⟩

end Ebotula
