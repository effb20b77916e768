import Ebotula.Laws.Authorization
import Ebotula.Laws.Sessions
import Ebotula.Library.Provenance

/-!
# Where sessions and rights come from

A run, told event by event with the databases each has found, says how a netmask has come to the
account it is logged in as, and how a login has come to each of its rights. There is no session
without somebody who has given the password of the account or founded it, and no right that was
not given, in the course of the run, by somebody logged in who was an owner of the channel or a
master when he gave it, except for that of the first account. Nothing in between is missing: the
session or the right was there at every event since.
-/

set_option autoImplicit false

namespace Ebotula

open Library

variable {G : Type} [DbLib G] {dbs dbs' : Databases G} {e : Event} {m u k : Key} {r : CStr}

/-! ## Sessions -/

/-- The netmask `m` is logged in as `u`, and there is an account `u`. -/
def Databases.LoggedIn (dbs : Databases G) (m u : Key) : Prop :=
  dbs.sessions.bwd m = some u ∧ dbs.HasAccount u

/-- The event logs the netmask in as the account. -/
inductive LogsIn (dbs : Databases G) : Event → Key × Key → Prop
  /-- `ident` with the password of the account -/
  | ident {env : Env} {pMsg : MsgItem} {pNetmask pLogin : CStr}
      (hmask : pMsg.pNetmask = some pNetmask) (hlogin : pMsg.identLogin = some pLogin)
      (hcheck : dbs.checkDb .user (some pLogin) (some pMsg.identPassword) = true) :
      LogsIn dbs (.command env .ident pMsg) (key pNetmask, key pLogin)
  /-- `hello` under a nick that has no account -/
  | hello {env : Env} {pMsg : MsgItem} {pNetmask pNick : CStr}
      (hmask : pMsg.pNetmask = some pNetmask) (hnick : pMsg.pCallingNick = some pNick)
      (hfree : dbs.fetch .user (key pNick) = none) :
      LogsIn dbs (.command env .hello pMsg) (key pNetmask, key pNick)

/-- The event gives the netmask of a session a new nick. -/
inductive Renames : Event → Key × Key → Key × Key → Prop
  | onNickChg {env : Env} {pMsg : MsgItem} {pNetmask pNew : CStr} {u : Key}
      (hmask : pMsg.pNetmask = some pNetmask) (hnew : pMsg.newNetmask = some pNew) :
      Renames (.command env .onNickChg pMsg) (key pNetmask, u) (key pNew, u)

/-- What can be behind a session, a netmask with its account. -/
def sessionOrigins : Origins (World G) Event (Key × Key) where
  holds w x := w.db.LoggedIn x.1 x.2
  makes w := LogsIn w.db
  carries _ := Renames

/-- What leads backwards after removals has done so before. -/
theorem Removals.session_old (removed : Removals dbs dbs') (h : dbs'.sessions.bwd m = some u) :
    dbs.sessions.bwd m = some u := by
  induction removed with
  | refl => exact h
  | tail _ last ih =>
    refine ih ?_
    cases last with
    | logOut _ _ hsessions | account _ _ hsessions =>
      rw [hsessions] at h
      exact (Paired.release_eq_some.mp h).1

/-- A session after an event was there before it, or the event has logged somebody in, or it has
changed the nick of a session. -/
theorem Change.session (change : Change dbs e dbs') (h : dbs'.sessions.bwd m = some u) :
    dbs.sessions.bwd m = some u ∨ LogsIn dbs e (m, u) ∨
      ∃ old, dbs.sessions.bwd old = some u ∧ Renames e (old, u) (m, u) := by
  cases change with
  | unchanged => exact .inl h
  | removals _ removed => exact .inl (removed.session_old h)
  | password same | record same | addChannel _ same | rmChannel _ same
  | accountmode _ _ _ _ _ _ _ same =>
    rw [same.sessions (by decide) (by decide)] at h
    exact .inl h
  | ident hlogin hguest hcheck same hsessions =>
    rw [hsessions] at h
    rcases Paired.rebind_bwd h with hold | ⟨htarget, rfl⟩
    · exact .inl (Paired.release_eq_some.mp hold).1
    · obtain ⟨pNetmask, hmask, rfl⟩ := Option.map_eq_some_iff.mp htarget
      exact .inr (.inl (.ident hmask hlogin hcheck))
  | hello hnick hlevel hfree same huser hsessions =>
    rw [hsessions] at h
    rcases Paired.rebind_bwd h with hold | ⟨htarget, rfl⟩
    · exact .inl (Paired.release_eq_some.mp hold).1
    · obtain ⟨pNetmask, hmask, rfl⟩ := Option.map_eq_some_iff.mp htarget
      exact .inr (.inl (.hello hmask hnick hfree))
  | @nickChange _ env pMsg pLogin pNew hnew hlogin same hsessions =>
    rw [hsessions] at h
    rcases Paired.rebind_bwd h with hold | ⟨htarget, rfl⟩
    · have hunbound := (Paired.release_eq_some.mp hold).1
      exact .inl (Paired.release_eq_some.mp hunbound).1
    · cases Option.some.inj htarget
      cases hmask : pMsg.pNetmask with
      | none =>
        rw [hmask] at hlogin
        cases hlogin
      | some pNetmask =>
        rw [hmask, Databases.getDb_some] at hlogin
        refine .inr (.inr ⟨key pNetmask, ?_, .onNickChg hmask hnew⟩)
        rw [Databases.sessions_bwd, hlogin, Option.map_some]

variable {w w' : World G} {es : List Event}

/-- Nobody is logged in without having given the password of the account or having founded it,
under the netmask that he had then; he has kept the session since, over every change of his nick,
and the account was there all the time. Nobody else has a level in any channel. -/
theorem sessions_traced (start : w.db.SessionsOwned)
    (run : Run step (fun _ _ => True) w es w') :
    (∀ m pLogin, w'.db.fetch .nickToUser m = some pLogin →
      sessionOrigins.Traced w (observed step noted w es) (m, key pLogin)) ∧
    ∀ pChannel pNetmask, w'.db.userLevel pChannel (some pNetmask) ≠ .noneLevel →
      ∃ u, sessionOrigins.Traced w (observed step noted w es) (key pNetmask, u) := by
  have keep (w : World G) (e : Event) (w' : World G) (owned : w.db.SessionsOwned) (_ : True)
      (hstep : step w e = some w') : w'.db.SessionsOwned := (step_change hstep).sessionsOwned owned
  have owned : w'.db.SessionsOwned :=
    run.invariant (I := fun (w : World G) => w.db.SessionsOwned) keep start
  have run' : Run step (fun (w : World G) _ => w.db.SessionsOwned) w es w' :=
    run.weaken (I := fun (w : World G) => w.db.SessionsOwned) keep (fun _ _ owned _ => owned) start
  have traced {m : Key} {pLogin : CStr} (hm : w'.db.fetch .nickToUser m = some pLogin) :
      sessionOrigins.Traced w (observed step noted w es) (m, key pLogin) := by
    have hbwd : w'.db.sessions.bwd m = some (key pLogin) := by
      rw [Databases.sessions_bwd, hm, Option.map_some]
    refine run'.traced (fun w e w' owned hstep x hx => ?_) ⟨hbwd, owned.source _ _ hbwd⟩
    obtain ⟨m, u⟩ := x
    rcases (step_change hstep).session hx.1 with hold | hlogin | ⟨old, hold, hrenames⟩
    · exact .inl ⟨hold, owned.source u m hold⟩
    · exact .inr (.inl hlogin)
    · exact .inr (.inr ⟨(old, u), ⟨hold, owned.source u old hold⟩, hrenames⟩)
  refine ⟨fun _ _ => traced, fun pChannel pNetmask hlevel => ?_⟩
  cases hm : w'.db.fetch .nickToUser (key pNetmask) with
  | none =>
    rw [Databases.userLevel, Databases.getDb_some, hm] at hlevel
    exact absurd rfl hlevel
  | some pLogin => exact ⟨key pLogin, traced hm⟩

/-- The founder of an account has changed her nick. -/
theorem sessions_traced_nickChange : ∃ es w', Run step (fun _ _ => True) freshBot es w' ∧
    w'.db.fetch .nickToUser (key "bob!a@h") = some "alice".toList ∧
    sessionOrigins.Traced freshBot (observed step noted freshBot es)
      (key "bob!a@h", key "alice") := by
  have computed : (receiveAll (fun _ _ => true) calmEnv freshBot
      [":alice!a@h PRIVMSG ebotula :!hello", ":alice!a@h NICK :bob"]).map
      (fun w => w.db.fetch .nickToUser (key "bob!a@h")) = some (some "alice".toList) := by
    decide +kernel
  obtain ⟨w', hw, hsession⟩ := Option.map_eq_some_iff.mp computed
  obtain ⟨es, run⟩ := run_of_receiveAll hw
  have run : Run step (fun _ _ => True) freshBot es w' := run.mono fun _ _ _ => trivial
  exact ⟨es, w', run, hsession, (sessions_traced freshBot_noSessions.owned run).1 _ _ hsession⟩

/-! ## Rights -/

/-- The caller of a command has the level that the databases give him, and it is enough. -/
def Event.permitted (dbs : Databases G) : Event → Bool
  | .command _ id pMsg =>
    decide (pMsg.userLevel = dbs.userLevel pMsg.pAccessChannel pMsg.pNetmask) &&
      accessRight pMsg.userLevel id
  | .deadLogins .. | .deadAccounts .. => true

/-- A worker makes no other events of its messages. -/
theorem dispatched_permitted {env : Env} {pMsg : MsgBuf} (h : dispatched env w pMsg = some e) :
    e.permitted w.db = true := by
  unfold dispatched at h
  rw [run_getUserLevel] at h
  obtain ⟨hright, he⟩ := Option.ite_none_right_eq_some.mp h
  cases he
  exact Bool.and_eq_true_iff.mpr ⟨decide_eq_true rfl, hright⟩

theorem owner_of_accessRight {level : UserLevel} (h : accessRight level .accountMode = true) :
    .ownerLevel ≤ level := by
  cases level with
  | noneLevel | loggedLevel | friendLevel => exact absurd h (by decide)
  | ownerLevel | masterLevel => decide

/-- The event writes the right `r` under the key `k`. -/
inductive Gives (dbs : Databases G) : Event → Key × CStr → Prop
  /-- `hello` when there is no account yet -/
  | hello {env : Env} {pMsg : MsgItem} {pNick : CStr} (hnick : pMsg.pCallingNick = some pNick)
      (hfirst : dbs.listDb .user = []) :
      Gives dbs (.command env .hello pMsg) (key pNick, ['m'])
  /-- `accountmode` of an owner of the channel or a master, for an account that he has spelled
  otherwise than his own login is stored; keys ignore case, so it may be his own -/
  | accountmode {env : Env} {pMsg : MsgItem} {pAccessChannel pLogin pPos accesslogin : CStr}
      {mod1 : Char} (hrequest : pMsg.modeRequest = some (pAccessChannel, pLogin, pPos))
      (hissuer : dbs.getDb .nickToUser pMsg.pNetmask = some accesslogin)
      (hlevel : .ownerLevel ≤ dbs.userLevel (some pAccessChannel) pMsg.pNetmask)
      (hother : pLogin ≠ accesslogin) (huser : (dbs.fetch .user (key pLogin)).isSome)
      (hmode : pMsg.effectiveMode env pPos = some ('+', mod1)) :
      Gives dbs (.command env .accountMode pMsg)
        (key (if mod1 = 'm' then pLogin else pLogin ++ pAccessChannel), cString ['+', mod1])

/-- What can be behind a right, a key with its record. -/
def rightOrigins : Origins (World G) Event (Key × CStr) where
  holds w x := w.db.fetch .access x.1 = some x.2
  makes w := Gives w.db
  carries _ _ _ _ := False

/-- A right after an event was there before it, or the event has given it. -/
theorem Change.right (change : Change dbs e dbs') (permitted : e.permitted dbs = true)
    (h : dbs'.fetch .access k = some r) : dbs.fetch .access k = some r ∨ Gives dbs e (k, r) := by
  cases change with
  | unchanged => exact .inl h
  | removals _ removed =>
    rcases removed.access_le k with heq | hnone
    · exact .inl (heq ▸ h)
    · rw [hnone] at h
      cases h
  | password same | record same | addChannel _ same | rmChannel _ same | ident _ _ _ same
  | nickChange _ _ same =>
    rw [same.fetch (by decide)] at h
    exact .inl h
  | hello hnick hlevel hfree same huser hsessions haccess =>
    rw [haccess] at h
    split at h
    · next hempty =>
      rw [Function.update_apply] at h
      split at h
      · next hk =>
        cases h
        exact .inr (hk ▸ .hello hnick (List.isEmpty_iff.mp hempty))
      · exact .inl h
    · exact .inl h
  | @accountmode _ env pMsg pAccessChannel pLogin pPos accesslogin mod0 mod1 hrequest hissuer
      hother hchannel huser hmaster hmode same haccess =>
    rw [haccess, changedRights] at h
    by_cases hk : k = key (if mod1 = 'm' then pLogin else pLogin ++ pAccessChannel)
    · rw [hk, Function.update_self] at h
      obtain ⟨hplus, hr⟩ := Option.ite_none_right_eq_some.mp h
      cases hr
      obtain ⟨hlevel, hright⟩ := Bool.and_eq_true_iff.mp permitted
      have hlevel : pMsg.userLevel = dbs.userLevel (some pAccessChannel) pMsg.pNetmask :=
        (modeRequest_eq_some hrequest).1 ▸ of_decide_eq_true hlevel
      have howner : .ownerLevel ≤ pMsg.userLevel := owner_of_accessRight hright
      rw [hlevel] at howner
      rw [hk, hplus]
      exact .inr (.accountmode hrequest hissuer howner hother huser (hplus ▸ hmode))
    · rw [Function.update_of_ne hk] at h
      rcases cleanedRights_le env dbs pLogin (oldMode dbs pAccessChannel pLogin) mod1 k with
        heq | hnone
      · exact .inl (heq ▸ h)
      · rw [hnone] at h
        cases h

/-- In every run of permitted events every right was there at the start, or the first `hello` has
made it, or somebody who was logged in and an owner of the channel or a master has given it to an
account that he has spelled otherwise than his own; and it was there at every event since. -/
theorem rights_traced (run : Run step (fun w e => e.permitted w.db = true) w es w') :
    ∀ k r, w'.db.fetch .access k = some r →
      rightOrigins.Traced w (observed step noted w es) (k, r) := by
  refine fun k r hr => run.traced (o := rightOrigins) (fun w e w' permitted hstep x hx => ?_) hr
  rcases (step_change hstep).right permitted hx with hold | hgives
  · exact .inl hold
  · exact .inr (.inl hgives)

/-- An owner has given a right in her channel. -/
theorem rights_traced_owner : ∃ es w',
    Run step (fun w e => e.permitted w.db = true) freshBot es w' ∧
      rightOrigins.Traced freshBot (observed step noted freshBot es)
        (key "bob#c", "+v".toList) := by
  have computed : (receiveAll (fun w e => e.permitted w.db) calmEnv freshBot
      (ownedChannel ++ [":alice!a@h PRIVMSG ebotula :!accountmode #c bob +v".toList])).map
      (fun w => w.db.fetch .access (key "bob#c")) = some (some "+v".toList) := by
    decide +kernel
  obtain ⟨w', hw, hright⟩ := Option.map_eq_some_iff.mp computed
  obtain ⟨es, run⟩ := run_of_receiveAll hw
  exact ⟨es, w', run, rights_traced run _ _ hright⟩

end Ebotula
