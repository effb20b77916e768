import Ebotula.Laws.Accounts
import Ebotula.Runs
import Mathlib.Logic.Relation

/-!
# What one execution changes

`Change` lists every way in which an event can leave the databases, with the guards
the code checked on the way; `step_change` says that the list is complete. The laws
about runs are derived from this list alone: no later proof looks into a handler.
-/

set_option autoImplicit false

namespace Ebotula

open Library

/-! ## What a handler reads in its line -/

/-- The login `ident` is asked for. -/
def MsgItem.identLogin (pMsg : MsgItem) : Option CStr := pMsg.parameters.map (strtokBuf ' ')

/-- The password it is asked for with. -/
def MsgItem.identPassword (pMsg : MsgItem) : CStr :=
  ((pMsg.parameters.bind (cutFirst ' ')).map Prod.snd).getD []

/-- The netmask `hNickChange` goes over to. -/
def MsgItem.newNetmask (pMsg : MsgItem) : Option CStr := do
  let pNetmask ← pMsg.pNetmask
  let (_, word) ← cutLast ' ' pMsg.pRawLine
  let (_, userHost) ← cutFirst '!' pNetmask
  if word.length + 1 > 2 then some (word.tail ++ strtokBuf ' ' ('!' :: userHost)) else none

/-- The channel, the target login and the mode word of an `accountmode` line. -/
def MsgItem.modeRequest (pMsg : MsgItem) : Option (CStr × CStr × CStr) := do
  let pAccessChannel ← pMsg.pAccessChannel
  let pParameter ← pMsg.parameters
  let (pLogin, pPos) ← cutFirst ' ' pParameter
  return (pAccessChannel, pLogin, pPos)

/-- The two characters `accountmode` goes on with. For a caller who asks for `m` and
is no master the second is whatever stands in `mod[1]`. -/
def MsgItem.effectiveMode (pMsg : MsgItem) (env : Env) (pPos : CStr) : Option (Char × Char) :=
  let mod0 := strAt pPos 0
  if mod0 ≠ '+' ∧ mod0 ≠ '-' then none
  else
    match strAt pPos 1 with
    | 'v' => some (mod0, 'v')
    | 'o' => some (mod0, 'o')
    | 'm' =>
      if pMsg.userLevel ≠ .masterLevel then some (mod0, strAt (env.unwritten .accountmodeMod) 0)
      else some (mod0, 'm')
    | _ => none

/-- What `pMod[1]` reads: behind the end of an empty string it is any byte. -/
def charBehind (env : Env) : CStr → Char
  | [] => strAt (env.unwritten .behindEmpty) 0
  | _ :: rest => strAt rest 0

theorem charBehind_right (env : Env) (c : Char) : charBehind env (cString ['+', c]) = c := by
  by_cases h : c = '\x00'
  · rw [h]
    rfl
  · simp [cString, h, charBehind, strAt]

/-- `oldmod && oldmod[1]=='m'`. -/
def isOldMaster (env : Env) (oldmod : Option CStr) : Bool :=
  oldmod.any fun oldmod => charBehind env oldmod = 'm'

variable {G : Type} [DbLib G]

/-- The record `accountmode` takes for the target's present mode. -/
def oldMode (dbs : Databases G) (pAccessChannel pLogin : CStr) : Option CStr :=
  (dbs.fetch .access (key (pLogin ++ pAccessChannel))).or (dbs.fetch .access (key pLogin))

/-- The rights after the deletions that the old mode makes `accountmode` do. -/
def cleanedRights (env : Env) (dbs : Databases G) (pLogin : CStr) (oldmod : Option CStr)
    (mod1 : Char) : Key → Option CStr :=
  if mod1 ≠ 'm' then
    if isOldMaster env oldmod then Function.update (dbs.fetch .access) (key pLogin) none
    else dbs.fetch .access
  else if oldmod.isSome && !isOldMaster env oldmod then
    dropKeys (rightKeys (dbs.listDb .channel) pLogin) (dbs.fetch .access)
  else dbs.fetch .access

/-- The rights after `accountmode`: the deletions, and then the one key it writes or
deletes. -/
def changedRights (env : Env) (dbs : Databases G) (pAccessChannel pLogin : CStr)
    (mod0 mod1 : Char) : Key → Option CStr :=
  Function.update (cleanedRights env dbs pLogin (oldMode dbs pAccessChannel pLogin) mod1)
    (key (if mod1 = 'm' then pLogin else pLogin ++ pAccessChannel))
    (if mod0 = '+' then some (cString [mod0, mod1]) else none)

/-- The channel and login of an `accountmode`, and the mode it applies. -/
structure ModeChange where
  pAccessChannel : CStr
  pLogin : CStr
  mod0 : Char
  mod1 : Char

/-- The mode change an `accountmode` line leads to, if it passes every guard. -/
def MsgItem.modeChange (pMsg : MsgItem) (env : Env) (dbs : Databases G) : Option ModeChange := do
  let (pAccessChannel, pLogin, pPos) ← pMsg.modeRequest
  let accesslogin ← dbs.getDb .nickToUser pMsg.pNetmask
  let (mod0, mod1) ← pMsg.effectiveMode env pPos
  let refused := (dbs.fetch .access (key (pLogin ++ pAccessChannel))).isNone ∧
    'm' ∈ (dbs.fetch .access (key pLogin)).getD [] ∧ pMsg.userLevel ≠ .masterLevel
  if dbs.existDb .channel (some pAccessChannel) ∧ dbs.existDb .user (some pLogin) ∧
      pLogin ≠ accesslogin ∧ ¬ refused then
    some ⟨pAccessChannel, pLogin, mod0, mod1⟩
  else none

/-! ## The list -/

/-- A session ends, or an account with all it has. -/
inductive Removal (dbs dbs' : Databases G) : Prop
  | logOut (pLogin : CStr) (same : SameExcept sessionDbs dbs dbs')
      (hsessions : dbs'.sessions = dbs.sessions.unbind (key pLogin))
  | account (pLogin : CStr)
      (same : SameExcept (.user :: .access :: .timelog :: sessionDbs) dbs dbs')
      (hsessions : dbs'.sessions = dbs.sessions.unbind (key pLogin))
      (haccess : dbs'.fetch .access =
        dropKeys (rightKeys (dbs.listDb .channel) pLogin) (dbs.fetch .access))
      (huser : dbs'.fetch .user = Function.update (dbs.fetch .user) (key pLogin) none)

/-- Any number of removals, one after the other. -/
abbrev Removals : Databases G → Databases G → Prop := Relation.ReflTransGen Removal

/-- The events that remove sessions and accounts. -/
def Event.Removes : Event → Prop
  | .command _ id _ => id = .logoff ∨ id = .onQuit ∨ id = .rmUser
  | .deadLogins .. | .deadAccounts .. => True

/-- The ways in which an event can leave the databases. -/
inductive Change : Databases G → Event → Databases G → Prop
  /-- any event can end early, and most write nothing at all -/
  | unchanged {dbs : Databases G} {e : Event} : Change dbs e dbs
  | removals {dbs dbs' : Databases G} {e : Event} (hevent : e.Removes)
      (removed : Removals dbs dbs') : Change dbs e dbs'
  /-- `password` writes a login that is there -/
  | password {dbs dbs' : Databases G} {e : Event} (same : SameExcept [.user] dbs dbs')
      (hkeys : ∀ k, (dbs'.fetch .user k).isSome = (dbs.fetch .user k).isSome) : Change dbs e dbs'
  /-- `setGreeting`, `setTopic` and `chanmode` write a record that is there -/
  | record {dbs dbs' : Databases G} {e : Event} (same : SameExcept [.channel] dbs dbs')
      (hkeys : ∀ k, (dbs'.fetch .channel k).isSome = (dbs.fetch .channel k).isSome) :
      Change dbs e dbs'
  | addChannel {dbs dbs' : Databases G} {env : Env} {pMsg : MsgItem} {pChannel record : CStr}
      (hchannel : pMsg.pAccessChannel = some pChannel) (same : SameExcept [.channel] dbs dbs')
      (hrecord : dbs'.fetch .channel =
        Function.update (dbs.fetch .channel) (key pChannel) (some record)) :
      Change dbs (.command env .addChannel pMsg) dbs'
  | rmChannel {dbs dbs' : Databases G} {env : Env} {pMsg : MsgItem} {pChannel : CStr}
      (hchannel : pMsg.pAccessChannel = some pChannel) (same : SameExcept [.channel] dbs dbs')
      (hrecord : dbs'.fetch .channel =
        Function.update (dbs.fetch .channel) (key pChannel) none) :
      Change dbs (.command env .rmChannel pMsg) dbs'
  | ident {dbs dbs' : Databases G} {env : Env} {pMsg : MsgItem} {pLogin : CStr}
      (hlogin : pMsg.identLogin = some pLogin)
      (hguest : dbs.getDb .nickToUser pMsg.pNetmask = none)
      (hcheck : dbs.checkDb .user (some pLogin) (some pMsg.identPassword) = true)
      (same : SameExcept (.timelog :: sessionDbs) dbs dbs')
      (hsessions : dbs'.sessions =
        dbs.sessions.rebind (key pLogin) (pMsg.pNetmask.map key)) :
      Change dbs (.command env .ident pMsg) dbs'
  | nickChange {dbs dbs' : Databases G} {env : Env} {pMsg : MsgItem} {pLogin pNew : CStr}
      (hnew : pMsg.newNetmask = some pNew)
      (hlogin : dbs.getDb .nickToUser pMsg.pNetmask = some pLogin)
      (same : SameExcept (.timelog :: sessionDbs) dbs dbs')
      (hsessions : dbs'.sessions =
        (dbs.sessions.unbind (key pLogin)).rebind (key pLogin) (some (key pNew))) :
      Change dbs (.command env .onNickChg pMsg) dbs'
  | hello {dbs dbs' : Databases G} {env : Env} {pMsg : MsgItem} {pNick value : CStr}
      (hnick : pMsg.pCallingNick = some pNick) (hlevel : ¬ .loggedLevel < pMsg.userLevel)
      (hfree : dbs.fetch .user (key pNick) = none)
      (same : SameExcept (.user :: .access :: .timelog :: sessionDbs) dbs dbs')
      (huser : dbs'.fetch .user = Function.update (dbs.fetch .user) (key pNick) (some value))
      (hsessions : dbs'.sessions = dbs.sessions.rebind (key pNick) (pMsg.pNetmask.map key))
      (haccess : dbs'.fetch .access =
        if (dbs.listDb .user).isEmpty then
          Function.update (dbs.fetch .access) (key pNick) (some ['m'])
        else dbs.fetch .access) :
      Change dbs (.command env .hello pMsg) dbs'
  | accountmode {dbs dbs' : Databases G} {env : Env} {pMsg : MsgItem}
      {pAccessChannel pLogin pPos accesslogin : CStr} {mod0 mod1 : Char}
      (hrequest : pMsg.modeRequest = some (pAccessChannel, pLogin, pPos))
      (hissuer : dbs.getDb .nickToUser pMsg.pNetmask = some accesslogin)
      (hother : pLogin ≠ accesslogin)
      (hchannel : (dbs.fetch .channel (key pAccessChannel)).isSome)
      (huser : (dbs.fetch .user (key pLogin)).isSome)
      (hmaster : dbs.fetch .access (key (pLogin ++ pAccessChannel)) = none →
        'm' ∈ (dbs.fetch .access (key pLogin)).getD [] → pMsg.userLevel = .masterLevel)
      (hmode : pMsg.effectiveMode env pPos = some (mod0, mod1))
      (same : SameExcept [.access] dbs dbs')
      (haccess : dbs'.fetch .access = changedRights env dbs pAccessChannel pLogin mod0 mod1) :
      Change dbs (.command env .accountMode pMsg) dbs'

theorem Change.of_eq {dbs dbs' : Databases G} {e : Event} (h : dbs' = dbs) : Change dbs e dbs' :=
  h ▸ .unchanged

/-! ## Names that come -/

section Names

variable {dbs dbs' : Databases G} {e : Event} {u c : Key}

/-- No account comes with removals. -/
theorem Removals.user_old (removed : Removals dbs dbs') (h : (dbs'.fetch .user u).isSome) :
    (dbs.fetch .user u).isSome := by
  induction removed with
  | refl => exact h
  | tail _ last ih =>
    refine ih ?_
    cases last with
    | logOut _ same => rwa [same.fetch (by decide)] at h
    | account _ same _ _ huser =>
      rw [huser, Function.update_apply] at h
      split at h
      · cases h
      · exact h

theorem Removals.channel_eq (removed : Removals dbs dbs') :
    dbs'.fetch .channel = dbs.fetch .channel := by
  induction removed with
  | refl => rfl
  | tail _ last ih =>
    cases last with
    | logOut _ same | account _ same => rw [same.fetch (by decide), ih]

/-- An account comes in one way only. -/
theorem Change.user_new (change : Change dbs e dbs') (h : (dbs'.fetch .user u).isSome) :
    (dbs.fetch .user u).isSome ∨ ∃ env pMsg pNick, e = .command env .hello pMsg ∧
      pMsg.pCallingNick = some pNick ∧ u = key pNick := by
  cases change with
  | unchanged => exact .inl h
  | removals _ removed => exact .inl (removed.user_old h)
  | password same hkeys => exact .inl (hkeys u ▸ h)
  | record same | addChannel _ same | rmChannel _ same | ident _ _ _ same | nickChange _ _ same
  | accountmode _ _ _ _ _ _ _ same =>
    rw [same.fetch (by decide)] at h
    exact .inl h
  | @hello _ env pMsg pNick value hnick _ _ _ huser =>
    rw [huser, Function.update_apply] at h
    split at h
    · next heq => exact .inr ⟨env, pMsg, pNick, rfl, hnick, heq⟩
    · exact .inl h

/-- And so does a channel. -/
theorem Change.channel_new (change : Change dbs e dbs') (h : (dbs'.fetch .channel c).isSome) :
    (dbs.fetch .channel c).isSome ∨ ∃ env pMsg pChannel, e = .command env .addChannel pMsg ∧
      pMsg.pAccessChannel = some pChannel ∧ c = key pChannel := by
  cases change with
  | unchanged => exact .inl h
  | removals _ removed => exact .inl (removed.channel_eq ▸ h)
  | record same hkeys => exact .inl (hkeys c ▸ h)
  | password same | ident _ _ _ same | nickChange _ _ same | hello _ _ _ same
  | accountmode _ _ _ _ _ _ _ same =>
    rw [same.fetch (by decide)] at h
    exact .inl h
  | @addChannel _ env pMsg pChannel record hchannel same hrecord =>
    rw [hrecord, Function.update_apply] at h
    split at h
    · next heq => exact .inr ⟨env, pMsg, pChannel, rfl, hchannel, heq⟩
    · exact .inl h
  | rmChannel _ same hrecord =>
    rw [hrecord, Function.update_apply] at h
    split at h
    · cases h
    · exact .inl h

end Names

/-! ## Rights that go and rights that come -/

theorem update_none_le {f : Key → Option CStr} {x : Key} (k : Key) :
    Function.update f x none k = f k ∨ Function.update f x none k = none := by
  rw [Function.update_apply]
  split
  · exact .inr rfl
  · exact .inl rfl

theorem dropKeys_le {ks : List Key} {f : Key → Option CStr} (k : Key) :
    dropKeys ks f k = f k ∨ dropKeys ks f k = none := by
  rw [dropKeys]
  split
  · exact .inr rfl
  · exact .inl rfl

/-- Removals leave a right as it is or take it away. -/
theorem Removals.access_le {dbs dbs' : Databases G} (h : Removals dbs dbs') (k : Key) :
    dbs'.fetch .access k = dbs.fetch .access k ∨ dbs'.fetch .access k = none := by
  induction h with
  | refl => exact .inl rfl
  | tail _ last ih =>
    cases last with
    | logOut pLogin same =>
      rwa [same.fetch (by decide)]
    | account pLogin same hsessions haccess =>
      rw [haccess]
      rcases dropKeys_le k with h | h
      · rwa [h]
      · exact .inr h

/-- The deletions of `accountmode` leave a right as it is or take it away. -/
theorem cleanedRights_le (env : Env) (dbs : Databases G) (pLogin : CStr) (oldmod : Option CStr)
    (mod1 : Char) (k : Key) : cleanedRights env dbs pLogin oldmod mod1 k = dbs.fetch .access k ∨
      cleanedRights env dbs pLogin oldmod mod1 k = none := by
  rw [cleanedRights]
  split
  · split
    · exact update_none_le k
    · exact .inl rfl
  · split
    · exact dropKeys_le k
    · exact .inl rfl

/-- A right after an `accountmode` was there before, or is the one it writes. -/
theorem changedRights_some {dbs : Databases G} {env : Env} {pAccessChannel pLogin r : CStr}
    {mod0 mod1 : Char} {k : Key}
    (h : changedRights env dbs pAccessChannel pLogin mod0 mod1 k = some r) :
    dbs.fetch .access k = some r ∨
      k = key (if mod1 = 'm' then pLogin else pLogin ++ pAccessChannel) ∧ mod0 = '+' ∧
        r = cString [mod0, mod1] := by
  rw [changedRights] at h
  by_cases hk : k = key (if mod1 = 'm' then pLogin else pLogin ++ pAccessChannel)
  · rw [← hk, Function.update_self] at h
    split at h
    · next hplus => exact .inr ⟨hk, hplus, (Option.some.inj h).symm⟩
    · cases h
  · rw [Function.update_of_ne hk] at h
    rcases cleanedRights_le env dbs pLogin (oldMode dbs pAccessChannel pLogin) mod1 k with
      hkept | hnone
    · exact .inl (hkept ▸ h)
    · rw [hnone] at h
      cases h

/-- The one right an `accountmode` can make. -/
theorem changedRights_gain {dbs : Databases G} {env : Env} {pAccessChannel pLogin : CStr}
    {mod0 mod1 : Char} {k : Key} (before : dbs.fetch .access k = none)
    (after : (changedRights env dbs pAccessChannel pLogin mod0 mod1 k).isSome) :
    k = key (if mod1 = 'm' then pLogin else pLogin ++ pAccessChannel) ∧ mod0 = '+' := by
  obtain ⟨r, hr⟩ := Option.isSome_iff_exists.mp after
  rcases changedRights_some hr with hold | ⟨hk, hplus, -⟩
  · rw [before] at hold
    cases hold
  · exact ⟨hk, hplus⟩

/-- The mode change of an event that went through all guards. -/
theorem modeChange_eq {dbs : Databases G} {env : Env} {pMsg : MsgItem}
    {pAccessChannel pLogin pPos accesslogin : CStr} {mod0 mod1 : Char}
    (hrequest : pMsg.modeRequest = some (pAccessChannel, pLogin, pPos))
    (hissuer : dbs.getDb .nickToUser pMsg.pNetmask = some accesslogin)
    (hother : pLogin ≠ accesslogin)
    (hchannel : (dbs.fetch .channel (key pAccessChannel)).isSome)
    (huser : (dbs.fetch .user (key pLogin)).isSome)
    (hmaster : dbs.fetch .access (key (pLogin ++ pAccessChannel)) = none →
      'm' ∈ (dbs.fetch .access (key pLogin)).getD [] → pMsg.userLevel = .masterLevel)
    (hmode : pMsg.effectiveMode env pPos = some (mod0, mod1)) :
    pMsg.modeChange env dbs = some ⟨pAccessChannel, pLogin, mod0, mod1⟩ := by
  simp only [MsgItem.modeChange, hrequest, hissuer, hmode, Option.bind_eq_bind, Option.bind_some,
    Databases.existDb_some, hchannel, huser, true_and]
  refine if_pos ⟨hother, fun hrefused => hrefused.2.2 (hmaster ?_ hrefused.2.1)⟩
  exact Option.isNone_iff_eq_none.mp hrefused.1

/-- A line that leads to a mode change has passed all guards. -/
theorem modeChange_eq_some {dbs : Databases G} {env : Env} {pMsg : MsgItem} {c : ModeChange}
    (h : pMsg.modeChange env dbs = some c) : ∃ pPos accesslogin,
    pMsg.modeRequest = some (c.pAccessChannel, c.pLogin, pPos) ∧
    dbs.getDb .nickToUser pMsg.pNetmask = some accesslogin ∧ c.pLogin ≠ accesslogin ∧
    (dbs.fetch .channel (key c.pAccessChannel)).isSome ∧
    (dbs.fetch .user (key c.pLogin)).isSome ∧
    (dbs.fetch .access (key (c.pLogin ++ c.pAccessChannel)) = none →
      'm' ∈ (dbs.fetch .access (key c.pLogin)).getD [] → pMsg.userLevel = .masterLevel) ∧
    pMsg.effectiveMode env pPos = some (c.mod0, c.mod1) := by
  obtain ⟨⟨pAccessChannel, pLogin, pPos⟩, hrequest, h⟩ := Option.bind_eq_some_iff.mp h
  obtain ⟨accesslogin, hissuer, h⟩ := Option.bind_eq_some_iff.mp h
  obtain ⟨⟨mod0, mod1⟩, hmode, h⟩ := Option.bind_eq_some_iff.mp h
  dsimp only at h
  split at h
  · next hguards =>
    obtain ⟨hchannel, huser, hother, hmaster⟩ := hguards
    cases h
    refine ⟨pPos, accesslogin, hrequest, hissuer, hother, hchannel, huser, fun hnone hm => ?_,
      hmode⟩
    by_contra hlevel
    exact hmaster ⟨Option.isNone_iff_eq_none.mpr hnone, hm, hlevel⟩
  · cases h

/-- A line without a request has no channel, or no parameters, or only one word of them. -/
theorem modeRequest_eq_some {pMsg : MsgItem} {pAccessChannel pLogin pPos : CStr}
    (h : pMsg.modeRequest = some (pAccessChannel, pLogin, pPos)) :
    pMsg.pAccessChannel = some pAccessChannel ∧
      pMsg.parameters.bind (cutFirst ' ') = some (pLogin, pPos) := by
  obtain ⟨c, hc, h⟩ := Option.bind_eq_some_iff.mp h
  obtain ⟨pParameter, hparam, h⟩ := Option.bind_eq_some_iff.mp h
  obtain ⟨⟨l, p⟩, hcut, h⟩ := Option.bind_eq_some_iff.mp h
  cases h
  exact ⟨hc, by rw [hparam, Option.bind_some, hcut]⟩

/-- The channel of an `accountmode` line starts with a `#`. -/
theorem modeRequest_head {pMsg : MsgItem} {pAccessChannel pLogin pPos : CStr}
    (h : pMsg.modeRequest = some (pAccessChannel, pLogin, pPos)) :
    pAccessChannel.head? = some '#' := pMsg.channel_head _ (modeRequest_eq_some h).1

end Ebotula
