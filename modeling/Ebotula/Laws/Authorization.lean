import Ebotula.Laws.Effects

/-!
# Who may run a command

`AccessRight` decides by comparing levels; here is what the decision means in terms of
the databases. `Databases.permits` states for each group of commands the records a
caller needs, and `executeCommand_permits` that a worker hands a message to its
handler exactly then, and otherwise does nothing but send a refusal.
-/

set_option autoImplicit false

namespace Ebotula

open Library

variable {G : Type} [DbLib G]

/-! ## The level of a caller -/

namespace Databases

/-- The record of a login in a channel. Without a channel there is none. -/
def channelRight (dbs : Databases G) (pLogin : CStr) (pChannel : Option CStr) : Option CStr :=
  pChannel.bind fun pChannel => dbs.fetch .access (key (pLogin ++ pChannel))

/-- The level `getUserLevel` answers, as a function of the databases. -/
def userLevel (dbs : Databases G) (pChannel pNetmask : Option CStr) : UserLevel :=
  match dbs.getDb .nickToUser pNetmask with
  | none => .noneLevel
  | some pLogin =>
    match dbs.channelRight pLogin pChannel with
    | some pLevel =>
      if 'o' ∈ pLevel then .ownerLevel
      else if 'v' ∈ pLevel then .friendLevel
      else .loggedLevel
    | none => if (dbs.fetch .access (key pLogin)).isSome then .masterLevel else .loggedLevel

end Databases

/-- Asking for a level changes nothing and always has an answer. -/
theorem run_getUserLevel {env : Env} {w : World G} {pChannel pNetmask : Option CStr} :
    (getUserLevel pChannel pNetmask).run (performQuiet env) w =
      some (w.db.userLevel pChannel pNetmask, w) := by
  -- the last question, when no record of the channel counts
  have master (pLogin : CStr) : (do
      match ← getDb .access (some pLogin) with
      | some _ => return UserLevel.masterLevel
      | none => return .loggedLevel : Quiet UserLevel).run (performQuiet env) w =
      some (if (w.db.fetch .access (key pLogin)).isSome then .masterLevel else .loggedLevel,
        w) := by
    simp only [Prog.run_bind, run_getDb, Option.bind_some, Databases.getDb_some]
    cases w.db.fetch .access (key pLogin) <;> rfl
  simp only [getUserLevel, Prog.run_bind, run_getDb, Option.bind_some, Databases.userLevel]
  cases w.db.getDb .nickToUser pNetmask with
  | none => rfl
  | some pLogin =>
    cases pChannel with
    | none => exact master pLogin
    | some pChannel =>
      simp only [Prog.run_bind, run_getDb, Option.bind_some, Databases.getDb_some,
        Databases.channelRight]
      cases w.db.fetch .access (key (pLogin ++ pChannel)) with
      | none => exact master pLogin
      | some pLevel =>
        dsimp only
        split
        · rfl
        · split <;> rfl

/-! ## The groups of `Cmd_t` -/

/-- The groups of command ids. An event is in the group of all, but for QUIT and NICK. -/
inductive Group
  | nobody | anybody | logged | friend | owner | master
  deriving DecidableEq, Repr

/-- The group of an id, by the bounds `cmdtypes.h` gives the groups. -/
def Cmd.group (cmdId : Cmd) : Group :=
  if Cmd.master ≤ cmdId then .master
  else if Cmd.owner ≤ cmdId then .owner
  else if Cmd.friend ≤ cmdId then .friend
  else if Cmd.logged ≤ cmdId ∨ cmdId = .onQuit ∨ cmdId = .onNickChg then .logged
  else if Cmd.event ≤ cmdId then .anybody
  else .nobody

/-- The levels a group admits. -/
def Group.admits : Group → UserLevel → Bool
  | nobody, _ => false
  | anybody, _ => true
  | logged, level => .loggedLevel ≤ level
  | friend, level => .friendLevel ≤ level
  | owner, level => .ownerLevel ≤ level
  | master, level => level = .masterLevel

/-- The nested tests of `AccessRight` come to one test for each group. -/
theorem accessRight_eq (level : UserLevel) (cmdId : Cmd) :
    accessRight level cmdId = cmdId.group.admits level := by
  cases cmdId <;> cases level <;> decide

/-! ## The records behind a level -/

namespace Databases

/-- A login that has a record of its own, which only counts where it has none in the
channel. -/
def actsAsMaster (dbs : Databases G) (pLogin : CStr) (pChannel : Option CStr) : Prop :=
  dbs.channelRight pLogin pChannel = none ∧ (dbs.fetch .access (key pLogin)).isSome

/-- The records a caller under a netmask needs in a channel for a group of commands. -/
def permits (dbs : Databases G) (pChannel pNetmask : Option CStr) : Group → Prop
  | .nobody => False
  | .anybody => True
  | .logged => ∃ pLogin, dbs.getDb .nickToUser pNetmask = some pLogin
  | .friend => ∃ pLogin, dbs.getDb .nickToUser pNetmask = some pLogin ∧
    ((∃ right, dbs.channelRight pLogin pChannel = some right ∧ ('o' ∈ right ∨ 'v' ∈ right)) ∨
      dbs.actsAsMaster pLogin pChannel)
  | .owner => ∃ pLogin, dbs.getDb .nickToUser pNetmask = some pLogin ∧
    ((∃ right, dbs.channelRight pLogin pChannel = some right ∧ 'o' ∈ right) ∨
      dbs.actsAsMaster pLogin pChannel)
  | .master => ∃ pLogin, dbs.getDb .nickToUser pNetmask = some pLogin ∧
      dbs.actsAsMaster pLogin pChannel

variable {dbs : Databases G} {pChannel pNetmask : Option CStr}

/-- The level admits a group exactly when the records are there. -/
theorem admits_userLevel (group : Group) :
    group.admits (dbs.userLevel pChannel pNetmask) = true ↔
      dbs.permits pChannel pNetmask group := by
  rw [userLevel]
  cases hlogin : dbs.getDb .nickToUser pNetmask with
  | none =>
    cases group <;> simp [Group.admits, permits, hlogin]
    all_goals decide
  | some pLogin =>
    cases hright : dbs.channelRight pLogin pChannel with
    | some right =>
      by_cases ho : 'o' ∈ right <;> by_cases hv : 'v' ∈ right <;> cases group <;>
        simp [Group.admits, permits, actsAsMaster, hlogin, hright, ho, hv]
      all_goals decide
    | none =>
      by_cases hm : (dbs.fetch .access (key pLogin)).isSome <;> cases group <;>
        simp [Group.admits, permits, actsAsMaster, hlogin, hright, hm]
      all_goals decide

end Databases

/-! ## Execution -/

/-- What `AccessRight` logs about its answer. -/
def accessLine (userLevel : UserLevel) (pMsg : MsgBuf) : LogLine :=
  ⟨.debug, "Access status for the userlevel %i and the command id %i is %i",
    [.int userLevel.ctorIdx, .int pMsg.identify.ctorIdx,
      .int (accessRight userLevel pMsg.identify).toNat]⟩

/-- A worker runs the handler of a message exactly when the caller has the records its
group asks for. Otherwise the message causes one notice and nothing else. -/
theorem executeCommand_permits (env : Env) (w : World G) (pMsg : MsgBuf) :
    let pChannel := (getAccessChannel pMsg.pMsgLine).1
    let pNetmask := getNetmask pMsg.pMsgLine
    let userLevel := w.db.userLevel pChannel pNetmask
    let item := fillItem pMsg.pMsgLine userLevel (bIsCommand pMsg.identify)
    let logged := { w with log := w.log ++ [accessLine userLevel pMsg] }
    (w.db.permits pChannel pNetmask pMsg.identify.group →
      (executeCommand pMsg).run (perform env) w =
        (commandHandler pMsg.identify item).run (perform env) logged) ∧
    (¬ w.db.permits pChannel pNetmask pMsg.identify.group →
      (executeCommand pMsg).run (perform env) w =
        (notice item.pCallingNick (some "Access denied")).run (performQuiet env) logged) := by
  intro pChannel pNetmask userLevel item logged
  -- up to the decision there is no choice
  have decided : (executeCommand pMsg).run (perform env) w =
      (if accessRight userLevel pMsg.identify then
        if pMsg.identify ≠ .cmdNone then commandHandler pMsg.identify item
        else logger .crit "Unknown command id %d" [.int pMsg.identify.ctorIdx]
      else notice item.pCallingNick (some "Access denied") : Bot Unit).run (perform env)
        logged := by
    simp only [executeCommand, Prog.run_bind, Prog.liftM_eq, run_perform_lift, run_getUserLevel,
      Option.bind_some, run_logger]
    rfl
  rw [decided, accessRight_eq]
  refine ⟨fun h => ?_, fun h => ?_⟩
  · have hne : pMsg.identify ≠ .cmdNone := by
      intro hid
      rw [hid] at h
      exact h
    rw [if_pos ((Databases.admits_userLevel _).mpr h), if_pos hne]
  · rw [if_neg (mt (Databases.admits_userLevel _).mp h), Prog.liftM_eq, run_perform_lift]

end Ebotula
