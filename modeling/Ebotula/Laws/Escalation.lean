import Ebotula.Laws.Handlers

/-!
# Who can make a master

`accountmode` is the one handler by which a caller changes the rights of others.
`ModeChange` is what it has decided on once every guard is passed, and
`ModeChange.confined` the condition under which that stays within what the caller may
do. It leaves out three kinds of lines. A caller below the masters who asks for `m` is
refused, but the switch goes on with a `mod[1]` that was never written, which may be an
`m`. A mode whose second character is an `m` makes the handler delete the target's own
record, and outside a master's record the guard does not look for one. And a record of
a login in a channel is a master's record of whoever has both names, one after the
other, as a login. A fourth kind is a `hello` under a login that has a record already: it
makes a master of an account, though it writes no right.
-/

set_option autoImplicit false

namespace Ebotula

open Library

variable {G : Type} [DbLib G] {w w' : World G} {e : Event}

/-! ## The condition -/

/-- A mode change touches nothing it should not: it makes no login a master that is
named like a right in a channel, and for a caller below the masters neither is the mode
an `m` nor does the old mode have the target's own record deleted. -/
def ModeChange.confined (env : Env) (dbs : Databases G) (userLevel : UserLevel)
    (change : ModeChange) : Bool :=
  let target := key (change.pLogin ++ change.pAccessChannel)
  (change.mod0 ≠ '+' || change.mod1 = 'm' || (dbs.fetch .user target).isNone ||
    (dbs.fetch .access target).isSome) &&
  (userLevel = .masterLevel || change.mod1 ≠ 'm' &&
    (!isOldMaster env (oldMode dbs change.pAccessChannel change.pLogin) ||
      (dbs.fetch .access (key change.pLogin)).isNone))

/-- Every mode change of an event is confined, and a `hello` that is not the first one makes no
account under a login that has a record. -/
def Event.confined (dbs : Databases G) : Event → Bool
  | .command _ .hello pMsg =>
    (dbs.listDb .user).isEmpty || pMsg.pCallingNick.all fun pNick =>
      (dbs.fetch .user (key pNick)).isSome || (dbs.fetch .access (key pNick)).isNone
  | .command env .accountMode pMsg =>
    (pMsg.modeChange env dbs).all (ModeChange.confined env dbs pMsg.userLevel)
  | _ => true

/-! ## The law -/

/-- An account with a record of its own. -/
structure HasMaster (dbs : Databases G) (u : Key) : Prop where
  account : (dbs.fetch .user u).isSome
  record : (dbs.fetch .access u).isSome

/-- An account has a record of its own that had none, or was no account. -/
structure GainsMaster (dbs dbs' : Databases G) (u : Key) : Prop where
  before : ¬ HasMaster dbs u
  after : HasMaster dbs' u

/-- The two ways to become a master: `hello` when there is no account yet, and `+m` by
a master. -/
def Event.GrantsMaster (dbs : Databases G) (u : Key) : Event → Prop
  | .command _ .hello pMsg => pMsg.pCallingNick.map key = some u ∧ dbs.listDb .user = []
  | .command _ .accountMode pMsg => pMsg.userLevel = .masterLevel ∧
    ∃ pAccessChannel pLogin pPos, pMsg.modeRequest = some (pAccessChannel, pLogin, pPos) ∧
      key pLogin = u ∧ strAt pPos 0 = '+' ∧ strAt pPos 1 = 'm'
  | _ => False

/-- The one key a caller below the masters may change: the target in the channel. -/
def MsgItem.targetKey (pMsg : MsgItem) : Option Key :=
  pMsg.modeRequest.map fun (pAccessChannel, pLogin, _) => key (pLogin ++ pAccessChannel)

/-- No account becomes a master but in one of the two ways, and a caller below the
masters changes at most the target's record in the channel. -/
structure NoEscalation (dbs : Databases G) (e : Event) (dbs' : Databases G) : Prop where
  gains : ∀ u, GainsMaster dbs dbs' u → e.GrantsMaster dbs u
  changes : ∀ env pMsg, e = .command env .accountMode pMsg → pMsg.userLevel ≠ .masterLevel →
    ∀ k, dbs'.fetch .access k ≠ dbs.fetch .access k → pMsg.targetKey = some k

/-- An event that is no `accountmode` only has to make no master. -/
theorem NoEscalation.of_gains {dbs dbs' : Databases G}
    (he : ∀ env pMsg, e ≠ .command env .accountMode pMsg)
    (gains : ∀ u, GainsMaster dbs dbs' u → e.GrantsMaster dbs u) : NoEscalation dbs e dbs' :=
  ⟨gains, fun env pMsg h => absurd h (he env pMsg)⟩

/-- Nobody becomes a master without a new account or a new record. -/
theorem not_gainsMaster {dbs dbs' : Databases G} {u : Key}
    (huser : (dbs'.fetch .user u).isSome → (dbs.fetch .user u).isSome)
    (haccess : (dbs'.fetch .access u).isSome → (dbs.fetch .access u).isSome) :
    ¬ GainsMaster dbs dbs' u :=
  fun hgain => hgain.before ⟨huser hgain.after.account, haccess hgain.after.record⟩

/-- Only a master gets as far as an `m`, unless that is what stood in `mod[1]`. -/
theorem effectiveMode_master {pMsg : MsgItem} {env : Env} {pPos : CStr} {mod0 mod1 : Char}
    (hmode : pMsg.effectiveMode env pPos = some (mod0, mod1)) :
    mod0 = strAt pPos 0 ∧ (mod1 = 'm' → pMsg.userLevel = .masterLevel → strAt pPos 1 = 'm') := by
  unfold MsgItem.effectiveMode at hmode
  dsimp only at hmode
  split at hmode
  · cases hmode
  · split at hmode
    · cases hmode
      exact ⟨rfl, fun h => absurd h (by decide)⟩
    · cases hmode
      exact ⟨rfl, fun h => absurd h (by decide)⟩
    · next hletter =>
      split at hmode
      · cases hmode
        exact ⟨rfl, fun _ _ => hletter⟩
      · cases hmode
        exact ⟨rfl, fun _ _ => hletter⟩
    · cases hmode

/-- A `hello` makes a master of the first account, and of no other one without a record. -/
theorem hello_gains {dbs dbs' : Databases G} {pNick value : CStr} {u : Key}
    (huser : dbs'.fetch .user = Function.update (dbs.fetch .user) (key pNick) (some value))
    (haccess : dbs'.fetch .access =
      if (dbs.listDb .user).isEmpty then
        Function.update (dbs.fetch .access) (key pNick) (some ['m'])
      else dbs.fetch .access)
    (hrecord : (dbs.listDb .user).isEmpty ∨ dbs.fetch .access (key pNick) = none)
    (hgain : GainsMaster dbs dbs' u) : u = key pNick ∧ dbs.listDb .user = [] := by
  -- any other account is what it was
  have hself : u = key pNick := by
    by_contra hne
    refine not_gainsMaster ?_ ?_ hgain
    · rw [huser, Function.update_of_ne hne]
      exact id
    · rw [haccess]
      split
      · rw [Function.update_of_ne hne]
        exact id
      · exact id
  by_cases hempty : (dbs.listDb .user).isEmpty
  · exact ⟨hself, List.isEmpty_iff.mp hempty⟩
  · have hafter := hgain.after.record
    rw [haccess, if_neg hempty, hself, hrecord.resolve_left hempty] at hafter
    cases hafter

namespace ModeChange

variable {env : Env} {dbs : Databases G} {userLevel : UserLevel} {change : ModeChange}

theorem confined_iff : change.confined env dbs userLevel = true ↔
    (change.mod0 = '+' → change.mod1 ≠ 'm' →
      (dbs.fetch .user (key (change.pLogin ++ change.pAccessChannel))).isSome →
      (dbs.fetch .access (key (change.pLogin ++ change.pAccessChannel))).isSome) ∧
    (userLevel ≠ .masterLevel → change.mod1 ≠ 'm' ∧
      (isOldMaster env (oldMode dbs change.pAccessChannel change.pLogin) = true →
        dbs.fetch .access (key change.pLogin) = none)) := by
  simp only [confined, Bool.and_eq_true, Bool.or_eq_true, decide_eq_true_eq, ne_eq,
    Option.isNone_iff_eq_none, Option.isSome_iff_ne_none, Bool.not_eq_true', decide_not]
  grind

/-- The only account that a confined mode change makes a master is the target of a `+m`. -/
theorem gains (hconfined : change.confined env dbs userLevel = true) {u : Key}
    (haccount : (dbs.fetch .user u).isSome) (hbefore : dbs.fetch .access u = none)
    (hafter : (changedRights env dbs change.pAccessChannel change.pLogin change.mod0 change.mod1
      u).isSome) :
    userLevel = .masterLevel ∧ key change.pLogin = u ∧ change.mod0 = '+' ∧
      change.mod1 = 'm' := by
  obtain ⟨hnamed, hbelow⟩ := confined_iff.mp hconfined
  obtain ⟨rfl, hplus⟩ := changedRights_gain hbefore hafter
  by_cases hm : change.mod1 = 'm'
  · have hlevel : userLevel = .masterLevel := by
      by_contra hlevel
      exact (hbelow hlevel).1 hm
    exact ⟨hlevel, by rw [if_pos hm], hplus, hm⟩
  · rw [if_neg hm] at haccount hbefore
    have hsome := hnamed hplus hm haccount
    rw [hbefore] at hsome
    cases hsome

/-- Below the masters a confined one deletes nothing beside the target's record in the channel. -/
theorem changes (hconfined : change.confined env dbs userLevel = true)
    (hlevel : userLevel ≠ .masterLevel) {k : Key}
    (hk : changedRights env dbs change.pAccessChannel change.pLogin change.mod0 change.mod1 k ≠
      dbs.fetch .access k) : k = key (change.pLogin ++ change.pAccessChannel) := by
  obtain ⟨hm, hold⟩ := (confined_iff.mp hconfined).2 hlevel
  have hclean : cleanedRights env dbs change.pLogin
      (oldMode dbs change.pAccessChannel change.pLogin) change.mod1 = dbs.fetch .access := by
    rw [cleanedRights, if_pos hm]
    split
    · next hwas => exact Function.update_eq_self_iff.mpr (hold hwas).symm
    · rfl
  rw [changedRights, hclean, if_neg hm] at hk
  by_contra hne
  exact hk (Function.update_of_ne hne _ _)

end ModeChange

theorem Change.noEscalation {dbs' : Databases G} (change : Change w.db e dbs')
    (confined : e.confined w.db = true) : NoEscalation w.db e dbs' := by
  cases change with
  | unchanged =>
    exact ⟨fun u h => absurd h (not_gainsMaster id id), fun _ _ _ _ k hk => absurd rfl hk⟩
  | removals hevent removed =>
    refine .of_gains (fun env pMsg he => ?_) fun u hgain => ?_
    · subst he
      rcases hevent with h | h | h <;> cases h
    · refine absurd hgain (not_gainsMaster removed.user_old fun hafter => ?_)
      rcases removed.access_le u with h | h
      · rwa [h] at hafter
      · rw [h] at hafter
        cases hafter
  | password same hkeys =>
    have hacc := same.fetch (d := .access) (by decide)
    exact ⟨fun u h => absurd h (not_gainsMaster (hkeys u ▸ id) (hacc ▸ id)),
      fun _ _ _ _ k hk => absurd (congrFun hacc k) hk⟩
  | record same | addChannel _ same | rmChannel _ same | ident _ _ _ same
  | nickChange _ _ same =>
    have huser := same.fetch (d := .user) (by decide)
    have hacc := same.fetch (d := .access) (by decide)
    exact ⟨fun u h => absurd h (not_gainsMaster (huser ▸ id) (hacc ▸ id)),
      fun _ _ _ _ k hk => absurd (congrFun hacc k) hk⟩
  | hello hnick hlevel hfree same huser hsessions haccess =>
    refine .of_gains (fun _ _ h => by cases h) fun u hgain => ?_
    obtain ⟨hself, hempty⟩ := hello_gains huser haccess
      (by simpa [Event.confined, hnick, hfree] using confined) hgain
    exact ⟨by rw [hnick, hself]; rfl, hempty⟩
  | accountmode hrequest hissuer hother hchannel huser hmaster hmode same haccess =>
    have hchange := modeChange_eq hrequest hissuer hother hchannel huser hmaster hmode
    obtain ⟨hsign, hletter⟩ := effectiveMode_master hmode
    rw [Event.confined, hchange, Option.all_some] at confined
    have hkept : dbs'.fetch .user = w.db.fetch .user := same.fetch (by decide)
    constructor
    · intro u hgain
      have haccount := hgain.after.account
      have hafter := hgain.after.record
      rw [hkept] at haccount
      rw [haccess] at hafter
      have hbefore : w.db.fetch .access u = none := by
        by_contra hsome
        exact hgain.before ⟨haccount, Option.isSome_iff_ne_none.mpr hsome⟩
      obtain ⟨hlevel, htarget, hplus, hm⟩ := ModeChange.gains confined haccount hbefore hafter
      exact ⟨hlevel, _, _, _, hrequest, htarget, hsign ▸ hplus, hletter hm hlevel⟩
    · rintro env' pMsg' he hlevel k hk
      cases he
      rw [haccess] at hk
      rw [MsgItem.targetKey, hrequest, Option.map_some, ModeChange.changes confined hlevel hk]

/-- In every run from any databases whose events are all confined, no step makes a
master but in one of the two ways, and no `accountmode` of a caller below the masters
changes a right other than the target's in the channel. -/
theorem no_privilege_escalation {es : List Event}
    (run : Run step (fun w e => e.confined w.db = true) w es w') :
    Along step (fun w e w' => NoEscalation w.db e w'.db) w es :=
  run.along fun _ _ _ confined hstep => (step_change hstep).noEscalation confined

/-- The byte `mod[1]` holds an `m` from earlier. -/
def staleEnv : Env :=
  { calmEnv with unwritten := fun place => if place = .accountmodeMod then "m" else [] }

/-- An owner asks for `+v`, which is hers to give. -/
theorem no_privilege_escalation_owner :
    ∃ es w', Run step (fun w e => e.confined w.db = true) freshBot es w' ∧
      w'.db.fetch .access (key "bob#c") = some "+v".toList ∧
      Along step (fun w e w' => NoEscalation w.db e w'.db) freshBot es := by
  have computed : (receiveAll (fun w e => e.confined w.db) staleEnv freshBot
      (ownedChannel ++ [":alice!a@h PRIVMSG ebotula :!accountmode #c bob +v".toList])).map
      (fun w => w.db.fetch .access (key "bob#c")) = some (some "+v".toList) := by
    decide +kernel
  obtain ⟨w', hw, hright⟩ := Option.map_eq_some_iff.mp computed
  obtain ⟨es, run⟩ := run_of_receiveAll hw
  exact ⟨es, w', run, hright, no_privilege_escalation run⟩

/-- An `accountmode` whose caller is no master. -/
def Event.modeBelowMaster : Event → Bool
  | .command _ .accountMode pMsg => pMsg.userLevel ≠ .masterLevel
  | _ => false

theorem Event.not_grantsMaster {dbs : Databases G} {u : Key} (h : e.modeBelowMaster = true) :
    ¬ e.GrantsMaster dbs u := by
  intro hgrants
  unfold modeBelowMaster at h
  split at h
  · exact of_decide_eq_true h hgrants.1
  · cases h

/-- An owner asks for `+m` and is refused, and then the stale byte makes bob a master. -/
theorem privilege_escalation_stale_byte :
    ∃ es w e w', receiveAll (fun _ _ => true) staleEnv freshBot ownedChannel = some w ∧
      Run step (fun _ _ => True) freshBot es w ∧
      received staleEnv w ":alice!a@h PRIVMSG ebotula :!accountmode #c bob +m" = some e ∧
      step w e = some w' ∧ ¬ NoEscalation w.db e w'.db := by
  have computed : ((receiveAll (fun _ _ => true) staleEnv freshBot ownedChannel).bind fun w =>
      (received staleEnv w ":alice!a@h PRIVMSG ebotula :!accountmode #c bob +m").bind fun e =>
        (step w e).map fun w' => (e.modeBelowMaster, w.db.fetch .access (key "bob"),
          w'.db.fetch .access (key "bob"), (w'.db.fetch .user (key "bob")).isSome)) =
      some (true, none, some "+m".toList, true) := by
    decide +kernel
  obtain ⟨w, hw, hline⟩ := Option.bind_eq_some_iff.mp computed
  obtain ⟨e, he, hstepped⟩ := Option.bind_eq_some_iff.mp hline
  obtain ⟨w', hstep, hfacts⟩ := Option.map_eq_some_iff.mp hstepped
  simp only [Prod.mk.injEq] at hfacts
  obtain ⟨hbelow, hbefore, hafter, haccount⟩ := hfacts
  obtain ⟨es, run⟩ := run_of_receiveAll hw
  refine ⟨es, w, e, w', hw, run.mono fun _ _ _ => trivial, he, hstep, fun law => ?_⟩
  have hnone : ¬ HasMaster w.db (key "bob") := by
    intro hmaster
    have hrecord := hmaster.record
    rw [hbefore] at hrecord
    cases hrecord
  have hgain : GainsMaster w.db w'.db (key "bob") :=
    ⟨hnone, haccount, by rw [hafter, Option.isSome_some]⟩
  exact Event.not_grantsMaster hbelow (law.gains _ hgain)

end Ebotula
