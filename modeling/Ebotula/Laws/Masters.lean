import Ebotula.Laws.Rights

/-!
# A master has no record in a channel

`getUserLevel` asks for the record in the channel first, so a master who has one is no
master there. Three ways lead to such a record. A promotion is preceded by a clean-up
only if the target has some record the handler happens to find, and the clean-up goes
through the channels that are on the list. A right in a channel takes the master's
record away only if that is `+m`, and not if it is the `m` that `hello` writes. And
`hello` itself cleans up nothing. `Event.keepsMasters` leaves these out, and over every
run without them the law holds.
-/

set_option autoImplicit false

namespace Ebotula

open Library

variable {G : Type} [DbLib G] {w w' : World G} {e : Event}

/-! ## The condition -/

/-- The key of a login's right in some channel. -/
def Key.isRightOf (k u : Key) : Bool := (u.val ++ ['#']).isPrefixOf k.val

theorem Key.isRightOf_append {u c : Key} (hc : c.IsChannel) : (u ++ c).isRightOf u = true := by
  rw [isRightOf, List.isPrefixOf_iff_prefix, val_append, hc.val_eq]
  exact ⟨c.val.tail, by rw [List.append_assoc, List.singleton_append]⟩

/-- A mode change leaves a master with his own record only. One who is made a master has
no right in a channel, or has a record that makes the handler clean up, and only rights
the clean-up reaches; and one who is given a right in a channel is no master, or one
whom the handler takes for one. -/
def ModeChange.keepsMasters (env : Env) (dbs : Databases G) (change : ModeChange) : Bool :=
  let oldmod := oldMode dbs change.pAccessChannel change.pLogin
  change.mod0 ≠ '+' ||
  if change.mod1 = 'm' then
    (dbs.listDb .access).all fun k => !(key k).isRightOf (key change.pLogin) ||
      oldmod.isSome && !isOldMaster env oldmod &&
        key k ∈ rightKeys (dbs.listDb .channel) change.pLogin
  else (dbs.fetch .access (key change.pLogin)).isNone || isOldMaster env oldmod

/-- An event leaves every master with his own record only: every mode change does, and
the account that `hello` makes the first master has no right from earlier. -/
def Event.keepsMasters (dbs : Databases G) : Event → Bool
  | .command env .accountMode pMsg =>
    (pMsg.modeChange env dbs).all (ModeChange.keepsMasters env dbs)
  | .command _ .hello pMsg =>
    .loggedLevel < pMsg.userLevel || !(dbs.listDb .user).isEmpty ||
      pMsg.pCallingNick.all fun pNick =>
        (dbs.listDb .access).all fun k => !(key k).isRightOf (key pNick)
  | _ => true

/-! ## Records of masters -/

/-- No login has both a record of its own and one in a channel. -/
def Alone (rights : Key → Option CStr) : Prop :=
  ∀ u c : Key, u.IsNick → c.IsChannel → (rights u).isSome → rights (u ++ c) = none

namespace Alone

variable {rights rights' : Key → Option CStr} {u c : Key} {value : Option CStr}

/-- Taking rights away keeps it. -/
theorem of_le (h : Alone rights) (hle : ∀ k, rights' k = rights k ∨ rights' k = none) :
    Alone rights' := by
  intro u c hu hc hmaster
  rcases hle (u ++ c) with heq | hnone
  · rw [heq]
    refine h u c hu hc ?_
    rcases hle u with heq' | hnone
    · rwa [heq'] at hmaster
    · rw [hnone] at hmaster
      cases hmaster
  · exact hnone

/-- A login without rights in channels can be made a master. -/
theorem master (h : Alone rights) (hu : u.IsNick)
    (hfree : ∀ c : Key, c.IsChannel → rights (u ++ c) = none) :
    Alone (Function.update rights u value) := by
  intro x c hx hc hmaster
  rw [Function.update_of_ne (Key.ne_append hu hc).symm]
  by_cases heq : x = u
  · exact heq ▸ hfree c hc
  · rw [Function.update_of_ne heq] at hmaster
    exact h x c hx hc hmaster

/-- A login that is no master can be given a right in a channel. -/
theorem right (h : Alone rights) (hu : u.IsNick) (hc : c.IsChannel) (hfree : rights u = none) :
    Alone (Function.update rights (u ++ c) value) := by
  intro x d hx hd hmaster
  rw [Function.update_of_ne (Key.ne_append hx hc)] at hmaster
  by_cases heq : x ++ d = u ++ c
  · obtain ⟨rfl, -⟩ := Key.append_inj hx hu hd hc heq
    rw [hfree] at hmaster
    cases hmaster
  · rw [Function.update_of_ne heq]
    exact h x d hx hd hmaster

end Alone

/-- No account has both, and what an account is called is no channel. -/
structure MastersAlone (dbs : Databases G) : Prop where
  nick : ∀ u, (dbs.fetch .user u).isSome → u.IsNick
  alone : Alone (dbs.fetch .access)

namespace MastersAlone

variable {dbs dbs' : Databases G}

/-- A key that is listed is a right of its login. -/
theorem right_of_all {pLogin : CStr} {P : Key → Bool}
    (hall : ((dbs.listDb .access).all fun k => !(key k).isRightOf (key pLogin) || P (key k)) = true)
    {c : Key} (hc : c.IsChannel) (hright : (dbs.fetch .access (key pLogin ++ c)).isSome) :
    P (key pLogin ++ c) = true := by
  have hkey := List.all_eq_true.mp hall _ (Databases.val_mem_listDb hright)
  rwa [key_val, Key.isRightOf_append hc, Bool.not_true, Bool.false_or] at hkey

theorem accountmode {env : Env} {pAccessChannel pLogin : CStr} {mod0 mod1 : Char}
    (h : MastersAlone dbs) (hlogin : (key pLogin).IsNick)
    (hchannel : (key pAccessChannel).IsChannel)
    (kept : ModeChange.keepsMasters env dbs ⟨pAccessChannel, pLogin, mod0, mod1⟩ = true) :
    Alone (changedRights env dbs pAccessChannel pLogin mod0 mod1) := by
  let oldmod := oldMode dbs pAccessChannel pLogin
  have clean : Alone (cleanedRights env dbs pLogin oldmod mod1) :=
    h.alone.of_le (cleanedRights_le env dbs pLogin oldmod mod1)
  rw [changedRights]
  by_cases hplus : mod0 = '+'
  · rw [ModeChange.keepsMasters] at kept
    simp only [hplus, ne_eq, not_true_eq_false, decide_false, Bool.false_or] at kept
    by_cases hm : mod1 = 'm'
    · rw [if_pos hm] at kept ⊢
      refine clean.master hlogin fun c hc => ?_
      by_contra hleft
      rcases cleanedRights_le env dbs pLogin oldmod mod1 (key pLogin ++ c) with heq | hnone
      · rw [heq, ← ne_eq, ← Option.isSome_iff_ne_none] at hleft
        have hreached := right_of_all (P := fun k => oldmod.isSome && !isOldMaster env oldmod &&
          k ∈ rightKeys (dbs.listDb .channel) pLogin) kept hc hleft
        rw [Bool.and_eq_true, decide_eq_true_eq] at hreached
        rw [cleanedRights, if_neg (not_not_intro hm), if_pos hreached.1,
          dropKeys_of_mem hreached.2] at heq
        rw [← heq] at hleft
        cases hleft
      · exact hleft hnone
    · rw [if_neg hm, Bool.or_eq_true, Option.isNone_iff_eq_none] at kept
      rw [if_neg hm, key_append]
      refine clean.right hlogin hchannel ?_
      rw [cleanedRights, if_pos hm]
      split
      · exact Function.update_self ..
      · next hold => exact kept.resolve_right hold
  · rw [if_neg hplus]
    exact clean.of_le update_none_le

theorem change (h : MastersAlone w.db) (change : Change w.db e dbs')
    (kept : e.keepsMasters w.db = true) : MastersAlone dbs' := by
  refine ⟨change.nick h.nick, ?_⟩
  cases change with
  | unchanged => exact h.alone
  | removals _ removed => exact h.alone.of_le removed.access_le
  | password same | record same | addChannel _ same | rmChannel _ same | ident _ _ _ same
  | nickChange _ _ same =>
    rw [same.fetch (by decide)]
    exact h.alone
  | @hello _ env pMsg pNick value hnick hlevel hfree same huser hsessions haccess =>
    rw [haccess]
    split
    · next hempty =>
      refine h.alone.master (key_isNick (pMsg.nick_check _ hnick)) fun c hc => ?_
      by_contra hleft
      simp only [Event.keepsMasters, hlevel, hempty, hnick, decide_false, Bool.not_true,
        Bool.false_or, Option.all_some] at kept
      have hnone := right_of_all (P := fun _ => false)
        (by simpa only [Bool.or_false] using kept) hc (Option.isSome_iff_ne_none.mpr hleft)
      cases hnone
    · exact h.alone
  | @accountmode _ env pMsg pAccessChannel pLogin pPos accesslogin mod0 mod1 hrequest hissuer
      hother hchannel huser hmaster hmode same haccess =>
    have hchange := modeChange_eq hrequest hissuer hother hchannel huser hmaster hmode
    rw [Event.keepsMasters, hchange, Option.all_some] at kept
    rw [haccess]
    exact h.accountmode (h.nick _ huser) (key_isChannel (modeRequest_head hrequest)) kept

end MastersAlone

theorem Databases.NoRights.mastersAlone {dbs : Databases G} (h : dbs.NoRights) :
    MastersAlone dbs := by
  refine ⟨h.owned.nick, fun u c _ _ hmaster => ?_⟩
  rw [h.access] at hmaster
  cases hmaster

/-- In every run from empty databases whose events all keep the masters, no account has
both a record of its own and one in a channel. So a master who is logged in has the
level of one in every channel, and without a channel. -/
theorem master_has_no_channel_right {es : List Event} (rights : w.db.NoRights)
    (sessions : w.db.NoSessions) (run : Run step (fun w e => e.keepsMasters w.db = true) w es w') :
    (∀ pLogin pChannel, (w'.db.fetch .user (key pLogin)).isSome → pChannel.head? = some '#' →
      ¬ ((w'.db.fetch .access (key pLogin)).isSome ∧
        (w'.db.fetch .access (key (pLogin ++ pChannel))).isSome)) ∧
    ∀ env pNetmask pLogin, w'.db.getDb .nickToUser (some pNetmask) = some pLogin →
      (w'.db.fetch .access (key pLogin)).isSome →
      ∀ pChannel, (∀ c ∈ pChannel, c.head? = some '#') →
        (getUserLevel pChannel (some pNetmask)).run (performQuiet env) w' =
          some (.masterLevel, w') := by
  have alone : MastersAlone w'.db :=
    run.invariant (I := fun w => MastersAlone w.db)
      (fun _ _ _ alone kept hstep => alone.change (step_change hstep) kept) rights.mastersAlone
  have owned : w'.db.SessionsOwned :=
    run.invariant (I := fun w => w.db.SessionsOwned)
      (fun _ _ _ owned _ hstep => (step_change hstep).sessionsOwned owned) sessions.owned
  have none_in {pLogin pChannel : CStr} (huser : (w'.db.fetch .user (key pLogin)).isSome)
      (hchannel : pChannel.head? = some '#') (hmaster : (w'.db.fetch .access (key pLogin)).isSome) :
      w'.db.fetch .access (key (pLogin ++ pChannel)) = none :=
    key_append pLogin pChannel ▸
      alone.alone _ _ (alone.nick _ huser) (key_isChannel hchannel) hmaster
  refine ⟨fun pLogin pChannel huser hchannel ⟨hmaster, hright⟩ => ?_, ?_⟩
  · rw [none_in huser hchannel hmaster] at hright
    cases hright
  · intro env pNetmask pLogin hlogin hmaster pChannel hchannel
    have huser : (w'.db.fetch .user (key pLogin)).isSome :=
      owned.source _ (key pNetmask) (by
        rw [Databases.sessions_bwd, ← Databases.getDb_some, hlogin, Option.map_some])
    have hright : w'.db.channelRight pLogin pChannel = none := by
      cases pChannel with
      | none => rfl
      | some c => exact none_in huser (hchannel c rfl) hmaster
    rw [run_getUserLevel, Databases.userLevel, hlogin]
    dsimp only
    rw [hright]
    dsimp only
    rw [if_pos hmaster]

/-- A promotion of an owner, in the channel he owns. -/
theorem master_has_no_channel_right_promoted :
    ∃ es w', Run step (fun w e => e.keepsMasters w.db = true) freshBot es w' ∧
      w'.db.getDb .nickToUser (some "alice!a@h") = some "alice".toList ∧
      (getUserLevel (some "#c") (some "alice!a@h")).run (performQuiet calmEnv) w' =
        some (.masterLevel, w') := by
  have computed : (receiveAll (fun w e => e.keepsMasters w.db) calmEnv freshBot
      (ownedChannel ++ [":root!r@h PRIVMSG ebotula :!accountmode #c alice +m".toList])).map
      (fun w => (w.db.getDb .nickToUser (some "alice!a@h"),
        (w.db.fetch .access (key "alice")).isSome)) = some (some "alice".toList, true) := by
    decide +kernel
  obtain ⟨w', hw, hfacts⟩ := Option.map_eq_some_iff.mp computed
  obtain ⟨hlogin, hmaster⟩ := Prod.mk.inj hfacts
  obtain ⟨es, run⟩ := run_of_receiveAll hw
  have law := master_has_no_channel_right freshBot_noRights freshBot_noSessions run
  exact ⟨es, w', run, hlogin, law.2 calmEnv _ _ hlogin hmaster (some "#c") fun c hc => by
    cases hc; rfl⟩

/-- Alice is made a master and makes the first master an owner. He has both records then,
and is no master in the channel any more. -/
theorem master_with_channel_right :
    ∃ es w', receiveAll (fun _ _ => true) calmEnv freshBot
        (ownedChannel ++ [":root!r@h PRIVMSG ebotula :!accountmode #c alice +m".toList,
          ":alice!a@h PRIVMSG ebotula :!accountmode #c root +o".toList]) = some w' ∧
      Run step (fun _ _ => True) freshBot es w' ∧
      (w'.db.fetch .user (key "root")).isSome ∧ (w'.db.fetch .access (key "root")).isSome ∧
      (w'.db.fetch .access (key "root#c")).isSome ∧
      (getUserLevel (some "#c") (some "root!r@h")).run (performQuiet calmEnv) w' =
        some (.ownerLevel, w') := by
  have computed : (receiveAll (fun _ _ => true) calmEnv freshBot
      (ownedChannel ++ [":root!r@h PRIVMSG ebotula :!accountmode #c alice +m".toList,
        ":alice!a@h PRIVMSG ebotula :!accountmode #c root +o".toList])).map
      (fun w => ((w.db.fetch .user (key "root")).isSome, (w.db.fetch .access (key "root")).isSome,
        (w.db.fetch .access (key "root#c")).isSome,
        w.db.userLevel (some "#c") (some "root!r@h"))) = some (true, true, true, .ownerLevel) := by
    decide +kernel
  obtain ⟨w', hw, hfacts⟩ := Option.map_eq_some_iff.mp computed
  simp only [Prod.mk.injEq] at hfacts
  obtain ⟨huser, hmaster, hright, hlevel⟩ := hfacts
  obtain ⟨es, run⟩ := run_of_receiveAll hw
  refine ⟨es, w', hw, run.mono fun _ _ _ => trivial, huser, hmaster, hright, ?_⟩
  rw [run_getUserLevel, hlevel]

end Ebotula
