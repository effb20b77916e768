import Ebotula.Laws.Authorization
import Ebotula.Laws.SessionView
import Ebotula.Laws.Sessions

/-!
# Session lines under concurrency

`!ident`, NICK and QUIT change who is logged in, and each of them is decided by who is
logged in when it is handled. The command queue hands the lines out in the order of their
arrival, but the workers that take them do not wait for each other: the second line may
be refused, or find no session, because the first has not bound it yet.

The order is kept as long as the second line changes no table before the first is through
with them, and the first changes one only while the second has not begun, or has been
admitted and not yet asked for the session. The law rests on what the handlers make of the
tables: it is the same for every level that admits them, and depends on nothing else.
-/

set_option autoImplicit false

namespace Ebotula

open Library

variable {G : Type} [DbLib G]

/-! ## The lines -/

/-- The messages that open, move and close sessions. -/
inductive SessionCmd
  | ident | nickChange | quit
  deriving DecidableEq, Repr

def SessionCmd.id : SessionCmd → Cmd
  | ident => .ident
  | nickChange => .onNickChg
  | quit => .onQuit

/-- A line of the command queue that opens, moves or closes a session. -/
structure SessionLine where
  cmd : SessionCmd
  pMsgLine : CStr

namespace SessionLine

variable (line : SessionLine)

def msg : MsgBuf := ⟨line.cmd.id, line.pMsgLine⟩

/-- The item its handler is given to a caller of this level. -/
def item (level : UserLevel) : MsgItem :=
  fillItem line.pMsgLine level (bIsCommand line.cmd.id)

/-- The netmask the line comes from. -/
def pNetmask : Option CStr := getNetmask line.pMsgLine

end SessionLine

/-- The end of `ident` from the question for a session on. -/
def identAsked (pMsg : MsgItem) : Bot Unit := do
  if ← existDb .nickToUser pMsg.pNetmask then answer pMsg "You're already identified." []
  else
    match pMsg.parameters with
    | none => answerNoParameters pMsg
    | some pParameter =>
      let pPasswd := (cutFirst ' ' pParameter).map Prod.snd
      if pPasswd.isNone then answer pMsg "You've set a empty password." []
      let pLogin := strtokBuf ' ' pParameter
      logger .debug "Look for the account %s" [.str pLogin]
      if ← checkDb .user (some pLogin) (some (pPasswd.getD [])) then
        logger .debug "User %s found" [.str pLogin]
        logOn pMsg.pNetmask pLogin
        answer pMsg "You're now identified." []
        identChannels pMsg pLogin
      else answer pMsg "Invalid password" []

theorem ident_eq (pMsg : MsgItem) : ident pMsg =
    ((logger .debug "try to identify %s" [.str pMsg.pCallingNick]).lift >>= fun _ =>
      identAsked pMsg : Bot Unit) := rfl

/-- The part of `hNickChange` for a netmask with a session. -/
def nickChangeFound (pNetmask pLogin pRawLine : CStr) : Bot Unit :=
  match cutLast ' ' pRawLine with
  | none => crash (α := Unit)
  | some (_, word) =>
    if word.length + 1 > 2 then
      match cutFirst '!' pNetmask with
      | none => crash (α := Unit)
      | some (_, userHost) => do
        let pNewNetmask := word.tail ++ strtokBuf ' ' ('!' :: userHost)
        logOut pLogin
        logOn pNewNetmask pLogin
        logger .debug "Change the netmask \"%s\" to \"%s\"" [.str pNetmask, .str pNewNetmask]
    else pure ()

theorem hNickChange_eq {pMsg : MsgItem} {pNetmask : CStr} (h : pMsg.pNetmask = some pNetmask) :
    hNickChange pMsg = ((getDb .nickToUser (some pNetmask)).lift >>= fun session =>
      match session with
      | none => pure ()
      | some pLogin => nickChangeFound pNetmask pLogin pMsg.pRawLine : Bot Unit) := by
  unfold hNickChange
  rw [h]
  rfl

/-- What a handler does from its question for the session of the netmask on. -/
def SessionLine.asked (line : SessionLine) (level : UserLevel) : Bot Unit :=
  match line.cmd with
  | .ident => identAsked (line.item level)
  | .nickChange => hNickChange (line.item level)
  | .quit => logoff (line.item level)

/-! ## What the routines make of the tables -/

section Routines

attribute [local irreducible] Prog.Calls View.Yields View.Gives

variable {v : Tables} {pMsg : MsgItem} {pLogin : CStr} {α : Type} {P : α → Prop}

/-- A routine that leaves the tables as they are. -/
abbrev KeepsTables (G : Type) [DbLib G] (p : Bot α) : Prop := p.Calls (sessionView G).Keeps

theorem keeps_talk {o : Op} (h : o.Talk) : (sessionView G).Keeps (.inl o) := by
  cases o <;> trivial

theorem Talks.keepsTables {p : Quiet α} (h : Talks p) : KeepsTables G p.lift :=
  .lift (h.mono fun _ => keeps_talk)

theorem keeps_existDb {db : DatabaseID} {k : Option CStr} :
    (sessionView G).Keeps (.inl (.existDb db k)) := by
  by_cases h : db = .timelog <;> simp only [View.Keeps, sessionView, h, if_true, if_false]
  exact fun _ => trivial

theorem keeps_getDb {db : DatabaseID} {k : Option CStr} :
    (sessionView G).Keeps (.inl (.getDb db k)) := by
  by_cases h : db = .timelog <;> simp only [View.Keeps, sessionView, h, if_true, if_false]
  exact fun _ => trivial

theorem keeps_timelog {o : DbWrite} (h : o.db = .timelog) : (sessionView G).Keeps (.inr o) := by
  simp only [View.Keeps, sessionView, h, if_true]

theorem quietKeeps_existDb {db : DatabaseID} {k : Option CStr} :
    KeepsTables G (existDb db k).lift := .lift (.request keeps_existDb)

theorem stampLogin_keeps : KeepsTables G (stampLogin pLogin) := by
  unfold stampLogin
  simp only [Prog.liftM_eq]
  refine .bind talks_logger.keepsTables fun _ => ?_
  refine .bind (.lift (.request (S := quietSig) trivial)) fun _ => ?_
  refine .bind quietKeeps_existDb fun _ => ?_
  split
  · exact .bind (calls_replaceDb (keeps_timelog rfl)) fun _ => talks_logger.keepsTables
  · exact .bind (calls_addDb (keeps_timelog rfl)) fun _ => talks_logger.keepsTables

/-- The writes of a session are decided by the tables alone. -/
theorem steady_write {o : DbWrite} (h : o.db ≠ .timelog) : (sessionView G).Steady (.inr o) := by
  simp only [View.Steady, sessionView, h, if_false]

theorem steady_existDb {db : DatabaseID} {k : Option CStr} (h : db ≠ .timelog) :
    (sessionView G).Steady (.inl (.existDb db k)) := by
  simp only [View.Steady, sessionView, h, if_false]

theorem steady_getDb {db : DatabaseID} {k : Option CStr} (h : db ≠ .timelog) :
    (sessionView G).Steady (.inl (.getDb db k)) := by
  simp only [View.Steady, sessionView, h, if_false]

theorem steady_logger {priority : LogLevel} {format : CStr} {args : List FmtArg} :
    ((logger priority format args).lift : Bot Unit).Calls (sessionView G).Steady :=
  .lift (.request (S := quietSig) ⟨(), fun _ => rfl⟩)

theorem logOut_steady : (logOut pLogin).Calls (sessionView G).Steady := by
  unfold logOut
  simp only [Prog.liftM_eq]
  refine .bind (.lift (.request (steady_getDb (by decide)))) fun pNetmask => ?_
  split
  · refine .bind (calls_delDb (steady_write (by rintro ⟨⟩))) fun _ => ?_
    exact .bind (calls_delDb (steady_write (by rintro ⟨⟩))) fun _ => steady_logger
  · exact .pure ()

theorem bindSession_steady {pNetmask : Option CStr} :
    (bindSession pNetmask pLogin).Calls (sessionView G).Steady := by
  unfold bindSession
  simp only [Prog.liftM_eq]
  refine .bind (.lift (.request (steady_existDb (by decide)))) fun _ => ?_
  split
  · refine .bind (.lift (.request (steady_getDb (by decide)))) fun pOldNetmask => ?_
    split
    · refine .bind (calls_delDb (steady_write (by rintro ⟨⟩))) fun _ => ?_
      refine .bind (calls_addDb (steady_write (by rintro ⟨⟩))) fun _ => ?_
      exact .bind (calls_replaceDb (steady_write (by rintro ⟨⟩))) fun _ => .pure ()
    · exact .pure ()
  · refine .bind (calls_addDb (steady_write (by rintro ⟨⟩))) fun _ => ?_
    exact .bind (calls_addDb (steady_write (by rintro ⟨⟩))) fun _ => .pure ()

/-- Ending a session, before something else. -/
theorem logOut_yields (v : Tables) (pLogin : CStr) : ∃ v₁ : Tables, ∀ {q : Unit → Bot Unit}
    {v' : Option Tables}, View.Yields (sessionView G) (q ()) v₁ v' →
      View.Yields (sessionView G) (logOut pLogin >>= q) v v' := by
  obtain ⟨_, v₁, hgives⟩ := View.Gives.of_steady (logOut_steady (G := G)) v
  exact ⟨v₁, fun hq => .bind hgives hq⟩

/-- Opening one. -/
theorem logOn_yields (v : Tables) (pNetmask : Option CStr) (pLogin : CStr) : ∃ v₁ : Tables,
    ∀ {q : Unit → Bot Unit} {v' : Option Tables}, View.Yields (sessionView G) (q ()) v₁ v' →
      View.Yields (sessionView G) (logOn pNetmask pLogin >>= q) v v' := by
  obtain ⟨_, v₁, hgives⟩ := View.Gives.of_steady (bindSession_steady (G := G)) v
  refine ⟨v₁, fun {q v'} hq => ?_⟩
  rw [logOn, bind_assoc]
  exact .bind hgives (.keep stampLogin_keeps (Prog.Returns.any _) fun _ _ => hq)

theorem identChannels_keeps : KeepsTables G (identChannels pMsg pLogin).lift := by
  refine .lift ?_
  unfold identChannels
  refine .bind (.request keeps_existDb) fun isMaster => ?_
  refine .bind (.request (S := quietSig) trivial) fun pChannelQueue => ?_
  refine .bind (talks_logger.mono fun _ => keeps_talk) fun _ => .forEach fun _ => ?_
  unfold identChannel
  split
  · exact talks_mode.mono fun _ => keeps_talk
  · refine .bind (.request keeps_getDb) fun pMod => ?_
    split
    · exact talks_mode.mono fun _ => keeps_talk
    · exact .pure ()

end Routines

/-! ## What the handlers make of them -/

section Asked

attribute [local irreducible] Prog.Calls View.Yields View.Gives

variable {v : Tables} {v' : Option Tables} {db : DatabaseID} {k value : Option CStr}

theorem yields_existDb {q : Bool → Bot Unit} (h : db ≠ .timelog)
    (hq : View.Yields (sessionView G) (q (v.get db k).isSome) v v') :
    View.Yields (sessionView G) ((existDb db k).lift >>= q) v v' :=
  View.Yields.request (S := quietSig.sum writeSig) (o := Sum.inl (Op.existDb db k)) (if_neg h) hq

theorem yields_getDb {q : Option CStr → Bot Unit} (h : db ≠ .timelog)
    (hq : View.Yields (sessionView G) (q (v.get db k)) v v') :
    View.Yields (sessionView G) ((getDb db k).lift >>= q) v v' :=
  View.Yields.request (S := quietSig.sum writeSig) (o := Sum.inl (Op.getDb db k)) (if_neg h) hq

theorem yields_checkDb {q : Bool → Bot Unit} (h : db ≠ .timelog)
    (hq : View.Yields (sessionView G) (q (v.check G db k value)) v v') :
    View.Yields (sessionView G) ((checkDb db k value).lift >>= q) v v' :=
  View.Yields.request (S := quietSig.sum writeSig) (o := Sum.inl (Op.checkDb db k value))
    (if_neg h) hq

/-- Talk in front makes no difference. -/
theorem yields_talk {α : Type} {p : Quiet α} {q : α → Bot Unit} (h : Talks p)
    (hq : ∀ a, View.Yields (sessionView G) (q a) v v') :
    View.Yields (sessionView G) (p.lift >>= q) v v' :=
  .keep h.keepsTables (Prog.Returns.any _) fun a _ => hq a

theorem yields_talks {p : Quiet Unit} (h : Talks p) :
    View.Yields (sessionView G) p.lift v (some v) := .of_keeps h.keepsTables

theorem yields_return : View.Yields (sessionView G) (pure () : Bot Unit) v (some v) :=
  .of_keeps (.pure ())

theorem yields_crash : View.Yields (sessionView G) (crash : Quiet Unit).lift v none :=
  View.Yields.stuck (S := quietSig.sum writeSig) (o := Sum.inl Op.crash) rfl

/-- Talk that a condition puts in front. -/
theorem yields_talkIf {c : Prop} [Decidable c] {p : Quiet Unit} {q : Bot Unit} (h : Talks p)
    (hq : View.Yields (sessionView G) q v v') :
    View.Yields (sessionView G) (if c then p.lift >>= fun _ => q else q) v v' := by
  split
  · exact yields_talk h fun _ => hq
  · exact hq

/-- What `ident` makes of the tables depends on the netmask and the parameters only. -/
theorem identAsked_yields (pNetmask pParameter : Option CStr) (v : Tables) : ∃ v',
    ∀ pMsg : MsgItem, pMsg.pNetmask = pNetmask → pMsg.parameters = pParameter →
      View.Yields (sessionView G) (identAsked pMsg) v v' := by
  by_cases hsession : (v.get .nickToUser pNetmask).isSome
  · refine ⟨some v, fun pMsg hmask _ => ?_⟩
    unfold identAsked
    simp only [Prog.liftM_eq]
    refine yields_existDb (by decide) ?_
    rw [hmask, if_pos hsession]
    exact yields_talks (talks_answer [] (by decide +kernel) rfl)
  · cases pParameter with
    | none =>
      refine ⟨some v, fun pMsg hmask hparameter => ?_⟩
      unfold identAsked
      simp only [Prog.liftM_eq]
      refine yields_existDb (by decide) ?_
      rw [hmask, if_neg hsession, hparameter]
      exact yields_talks (talks_answer [] (by decide +kernel) rfl)
    | some pParameter =>
      obtain ⟨v₁, hlogOn⟩ := logOn_yields (G := G) v pNetmask (strtokBuf ' ' pParameter)
      refine ⟨some (if v.check G .user (some (strtokBuf ' ' pParameter))
        (some (((cutFirst ' ' pParameter).map Prod.snd).getD [])) then v₁ else v),
        fun pMsg hmask hparameter => ?_⟩
      unfold identAsked
      simp only [Prog.liftM_eq]
      refine yields_existDb (by decide) ?_
      rw [hmask, if_neg hsession, hparameter]
      refine yields_talkIf (talks_answer [] (by decide +kernel) rfl) ?_
      refine yields_talk talks_logger fun _ => yields_checkDb (by decide) ?_
      split
      · refine yields_talk talks_logger fun _ => hlogOn ?_
        refine yields_talk (talks_answer [] (by decide +kernel) rfl) fun _ => ?_
        exact .of_keeps identChannels_keeps
      · exact yields_talks (talks_answer [] (by decide +kernel) rfl)

/-- What `logoff` makes of them on QUIT. -/
theorem logoff_yields (pNetmask : Option CStr) (v : Tables) : ∃ v',
    (v.get .nickToUser pNetmask = none → v' = some v) ∧ ∀ pMsg : MsgItem,
      pMsg.pNetmask = pNetmask → pMsg.bInteractiveMode = false →
        View.Yields (sessionView G) (logoff pMsg) v v' := by
  cases hsession : v.get .nickToUser pNetmask with
  | none =>
    refine ⟨some v, fun _ => rfl, fun pMsg hmask _ => ?_⟩
    unfold logoff
    simp only [Prog.liftM_eq]
    refine yields_getDb (by decide) ?_
    rw [hmask, hsession]
    exact yields_return
  | some pLogin =>
    obtain ⟨v₁, hlogOut⟩ := logOut_yields (G := G) v pLogin
    refine ⟨some v₁, by rintro ⟨⟩, fun pMsg hmask hinteractive => ?_⟩
    unfold logoff
    simp only [Prog.liftM_eq]
    refine yields_getDb (by decide) ?_
    rw [hmask, hsession]
    refine hlogOut ?_
    rw [hinteractive, if_neg (by decide)]
    exact yields_return

/-- What `hNickChange` makes of them. Where the line has no blank it does not come back. -/
theorem nickChangeFound_yields (pNetmask pLogin pRawLine : CStr) (v : Tables) : ∃ v',
    View.Yields (sessionView G) (nickChangeFound pNetmask pLogin pRawLine) v v' := by
  unfold nickChangeFound
  split
  · exact ⟨none, yields_crash⟩
  · next word _ =>
    split
    · split
      · exact ⟨none, yields_crash⟩
      · next userHost _ =>
        simp only [Prog.liftM_eq]
        obtain ⟨v₁, hlogOut⟩ := logOut_yields (G := G) v pLogin
        obtain ⟨v₂, hlogOn⟩ := logOn_yields (G := G) v₁
          (some (word.tail ++ strtokBuf ' ' ('!' :: userHost))) pLogin
        exact ⟨some v₂, hlogOut (hlogOn (yields_talks talks_logger))⟩
    · exact ⟨some v, yields_return⟩

theorem hNickChange_yields (pNetmask : Option CStr) (pRawLine : CStr) (v : Tables) : ∃ v',
    (v.get .nickToUser pNetmask = none → v' = some v) ∧ ∀ pMsg : MsgItem,
      pMsg.pNetmask = pNetmask → pMsg.pRawLine = pRawLine →
        View.Yields (sessionView G) (hNickChange pMsg) v v' := by
  cases pNetmask with
  | none =>
    refine ⟨some v, fun _ => rfl, fun pMsg hmask _ => ?_⟩
    unfold hNickChange
    rw [hmask]
    exact yields_return
  | some pNetmask =>
    cases hsession : v.get .nickToUser (some pNetmask) with
    | none =>
      refine ⟨some v, fun _ => rfl, fun pMsg hmask _ => ?_⟩
      rw [hNickChange_eq hmask]
      refine yields_getDb (by decide) ?_
      rw [hsession]
      exact yields_return
    | some pLogin =>
      obtain ⟨v', hfound⟩ := nickChangeFound_yields (G := G) pNetmask pLogin pRawLine v
      refine ⟨v', nofun, fun pMsg hmask hraw => ?_⟩
      rw [hNickChange_eq hmask]
      refine yields_getDb (by decide) ?_
      rw [hsession, hraw]
      exact hfound

/-- What a handler makes of the tables from its question for the session on is the same
for every level of its caller. Without a session only `ident` makes something of them. -/
theorem SessionLine.asked_yields (line : SessionLine) (v : Tables) :
    ∃ v', (line.cmd = .ident ∨ (v.get .nickToUser line.pNetmask = none → v' = some v)) ∧
      ∀ level, View.Yields (sessionView G) (line.asked level) v v' := by
  obtain ⟨cmd, pMsgLine⟩ := line
  unfold asked
  cases cmd with
  | ident =>
    obtain ⟨v', h⟩ := identAsked_yields (G := G) (getNetmask pMsgLine)
      (getParameters (getParameters (getAccessChannel pMsgLine).2).2).1 v
    exact ⟨v', .inl rfl, fun level => h _ rfl rfl⟩
  | nickChange =>
    obtain ⟨v', hnone, h⟩ := hNickChange_yields (G := G) (getNetmask pMsgLine)
      (getParameters (getAccessChannel pMsgLine).2).2 v
    exact ⟨v', .inr hnone, fun level => h _ rfl rfl⟩
  | quit =>
    obtain ⟨v', hnone, h⟩ := logoff_yields (G := G) (getNetmask pMsgLine) v
    exact ⟨v', .inr hnone, fun level => h _ rfl rfl⟩

/-! ## What the workers make of them -/

/-- The level of a caller who is logged in. -/
def foundLevel (pChannel : Option CStr) (pLogin : CStr) : Quiet UserLevel := do
  match pChannel with
  | some pChannel =>
    match ← getDb .access (some (pLogin ++ pChannel)) with
    | some pLevel =>
      if 'o' ∈ pLevel then return .ownerLevel
      else if 'v' ∈ pLevel then return .friendLevel
      else return .loggedLevel
    | none =>
      match ← getDb .access (some pLogin) with
      | some _ => return .masterLevel
      | none => return .loggedLevel
  | none =>
    match ← getDb .access (some pLogin) with
    | some _ => return .masterLevel
    | none => return .loggedLevel

theorem getUserLevel_bind {pChannel pNetmask : Option CStr} {q : UserLevel → Bot Unit} :
    ((getUserLevel pChannel pNetmask).lift >>= q : Bot Unit) =
      ((getDb .nickToUser pNetmask).lift >>= fun session =>
        (match session with
          | none => pure .noneLevel
          | some pLogin => foundLevel pChannel pLogin : Quiet UserLevel).lift >>= q) := rfl

theorem foundLevel_keeps {pChannel : Option CStr} {pLogin : CStr} :
    KeepsTables G (foundLevel pChannel pLogin).lift := by
  have master : (foundLevel none pLogin).Calls fun o => (sessionView G).Keeps (.inl o) := by
    refine .bind (.request keeps_getDb) fun level => ?_
    split <;> exact .pure _
  refine .lift ?_
  unfold foundLevel
  split
  · refine .bind (.request keeps_getDb) fun level => ?_
    split
    · split
      · exact .pure _
      · split <;> exact .pure _
    · exact master
  · exact master

theorem foundLevel_returns {pChannel : Option CStr} {pLogin : CStr} :
    (foundLevel pChannel pLogin).Returns (.loggedLevel ≤ ·) := by
  have master : (foundLevel none pLogin).Returns (.loggedLevel ≤ ·) := by
    refine .bind (.any _) fun record _ => ?_
    cases record with
    | some _ => exact show UserLevel.loggedLevel ≤ .masterLevel by decide
    | none => exact show UserLevel.loggedLevel ≤ .loggedLevel by decide
  unfold foundLevel
  cases pChannel with
  | none => exact master
  | some pChannel =>
    refine .bind (.any _) fun record _ => ?_
    cases record with
    | none => exact master
    | some pLevel =>
      dsimp only
      split
      · exact show UserLevel.loggedLevel ≤ .ownerLevel by decide
      · split
        · exact show UserLevel.loggedLevel ≤ .friendLevel by decide
        · exact show UserLevel.loggedLevel ≤ .loggedLevel by decide

/-- A level that is enough for the line. -/
def SessionLine.Admits (line : SessionLine) (level : UserLevel) : Prop :=
  accessRight level line.cmd.id = true

theorem SessionLine.admits_of_logged {line : SessionLine} {level : UserLevel}
    (h : .loggedLevel ≤ level) : line.Admits level := by
  rw [Admits, accessRight_eq]
  cases hcmd : line.cmd
  · rfl
  · exact decide_eq_true h
  · exact decide_eq_true h

/-- A worker goes on from the level as the handler does, or refuses. -/
def SessionLine.dispatched (line : SessionLine) (level : UserLevel) : Bot Unit := do
  logger .debug "Access status for the userlevel %i and the command id %i is %i"
    [.int level.ctorIdx, .int line.cmd.id.ctorIdx, .int (accessRight level line.cmd.id).toNat]
  if accessRight level line.cmd.id then commandHandler line.cmd.id (line.item level)
  else notice (line.item level).pCallingNick (some "Access denied")

theorem SessionLine.executeCommand_eq (line : SessionLine) : executeCommand line.msg =
    ((getUserLevel (getAccessChannel line.pMsgLine).1 line.pNetmask).lift >>=
      line.dispatched : Bot Unit) := by
  obtain ⟨cmd, pMsgLine⟩ := line
  cases cmd <;> rfl

/-- An admitted worker comes to the question for the session. -/
theorem SessionLine.handler_awaits (line : SessionLine) (level : UserLevel) :
    (commandHandler line.cmd.id (line.item level)).Awaits (sessionView G).Keeps
      fun p => ∃ level, p = line.asked level := by
  obtain ⟨cmd, pMsgLine⟩ := line
  cases cmd with
  | ident =>
    show (ident _).Awaits _ _
    rw [ident_eq]
    exact .inr ⟨trivial, fun _ => .of ⟨level, rfl⟩⟩
  | nickChange => exact .of ⟨level, rfl⟩
  | quit => exact .of ⟨level, rfl⟩

/-- What a whole line makes of the tables is what its handler makes of them from its
question for the session on: who is refused has none. -/
theorem SessionLine.whole_yields (line : SessionLine) (v : Tables) : ∃ v',
    View.Yields (sessionView G) (executeCommand line.msg) v v' ∧
      ∀ level, View.Yields (sessionView G) (line.asked level) v v' := by
  obtain ⟨v', hrefused, hasked⟩ := line.asked_yields (G := G) v
  refine ⟨v', ?_, hasked⟩
  have dispatched (level : UserLevel) (h : line.Admits level ∨ v' = some v) :
      View.Yields (sessionView G) (line.dispatched level) v v' := by
    unfold dispatched
    simp only [Prog.liftM_eq]
    refine yields_talk talks_logger fun _ => ?_
    split
    · exact .of_awaits (line.handler_awaits level) fun _ ⟨level', hp⟩ => hp ▸ hasked level'
    · next hadmits =>
      rw [h.resolve_left hadmits]
      exact yields_talks talks_notice
  rw [executeCommand_eq, getUserLevel_bind]
  refine yields_getDb (by decide) ?_
  cases hsession : v.get .nickToUser line.pNetmask with
  | none =>
    refine dispatched _ (hrefused.imp (fun hident => ?_) fun h => h hsession)
    rw [Admits, accessRight_eq, hident]
    rfl
  | some pLogin =>
    refine .keep foundLevel_keeps foundLevel_returns.lift fun level hlevel => ?_
    exact dispatched level (.inl (admits_of_logged hlevel))

end Asked

/-! ## Two lines and the workers -/

namespace SessionLine

/-- What is left of the line's work when its caller has been admitted and the handler has
not yet asked for the session. -/
def Admitted (G : Type) [DbLib G] (line : SessionLine) (p : Bot Unit) : Prop :=
  p.Awaits (sessionView G).Keeps fun p => ∃ level, p = line.asked level

/-- Two lines in the command queue, the first one at its head, and idle workers. -/
def queued {ι : Type} (lines : Bool → SessionLine) (w : World G) :
    Pool (quietSig.sum writeSig) Bool ι (World G) where
  queue := [false, true]
  busy _ := none
  jobs := ⟨fun j => executeCommand (lines j).msg, w⟩

/-- A worker with the first line is about to change the tables only while the second one
has not begun, or has been admitted and not yet asked; a worker with the second only when
the first one leaves the tables as they are. -/
def InTurn (lines : Bool → SessionLine) (c : Threads (quietSig.sum writeSig) Bool (World G))
    (j : Bool) : Prop :=
  ∀ o, c.next j = some o → ¬ (sessionView G).Keeps o →
    match j with
    | false => c.left true = executeCommand (lines true).msg ∨
        (lines true).Admitted G (c.left true)
    | true => KeepsTables G (c.left false)

variable {lines : Bool → SessionLine} {env : Bool → Env}

theorem catchesUp {line : SessionLine} {p : Bot Unit}
    (h : p = executeCommand line.msg ∨ line.Admitted G p) :
    View.CatchesUp (sessionView G) (World.tables (G := G)) (executeCommand line.msg) p := by
  intro w v' hwhole
  rcases h with rfl | hadmitted
  · exact hwhole
  · obtain ⟨v'', hwhole', hasked⟩ := line.whole_yields (G := G) w.tables
    obtain rfl := hwhole.unique (sessionView_lawful calmEnv) hwhole'
    exact .of_awaits hadmitted fun _ ⟨level, hp⟩ => hp ▸ hasked level

theorem InTurn.inOrder {c : Threads (quietSig.sum writeSig) Bool (World G)} {j : Bool}
    (h : InTurn lines c j) : View.InOrder (sessionView G) (World.tables (G := G))
      (fun j => perform (env j)) (fun j => executeCommand (lines j).msg) c j := by
  intro c' hstep hchange
  obtain ⟨o, k, r, w', hleft, hrun, rfl⟩ := Threads.step_cases hstep
  have hturn := h o (congrArg Prog.next hleft) fun hkeeps =>
    hchange (hkeeps.step (sessionView_lawful (env j)) hrun)
  cases j with
  | false => exact catchesUp hturn
  | true => exact hturn

/-- The tables are as the two lines leave them in the order of their arrival. -/
theorem tables_in_order {w : World G} {c : Threads (quietSig.sum writeSig) Bool (World G)}
    {js : List Bool}
    (run : Run (Threads.step fun j => perform (env j)) (InTurn lines)
      ⟨fun j => executeCommand (lines j).msg, w⟩ js c) (ended : c.Ended) :
    ∃ w', Threads.serially (fun j => perform (env j)) (fun j => executeCommand (lines j).msg)
      [false, true] w = some w' ∧ w'.tables = c.shared.tables :=
  View.in_order (fun j => sessionView_lawful (env j))
    ((whole_yields _ _).imp fun _ h => h.1) (fun v => (whole_yields _ v).imp fun _ h => h.1)
    (run.mono fun _ _ h => h.inOrder) ended

end SessionLine

/-! ## A session that ends last -/

section Quit

variable {env : Env} {w w' : World G}

/-- A message whose caller is refused leaves the databases as they are. -/
theorem executeCommand_refused {pMsg : MsgBuf}
    (h : ¬ w.db.permits (getAccessChannel pMsg.pMsgLine).1 (getNetmask pMsg.pMsgLine)
      pMsg.identify.group)
    (hrun : (executeCommand pMsg).run (perform env) w = some ((), w')) : w'.db = w.db := by
  rw [(executeCommand_permits env w pMsg).2 h] at hrun
  refine wp_quiet (Q := fun _ w' => w'.db = w.db) ?_ () w' hrun
  exact fun _ _ h => h

/-- A worker that executes a message keeps the sessions owned. -/
theorem executeCommand_owned {pMsg : MsgBuf}
    (hrun : (executeCommand pMsg).run (perform env) w = some ((), w'))
    (owned : w.db.SessionsOwned) : w'.db.SessionsOwned := by
  by_cases h : w.db.permits (getAccessChannel pMsg.pMsgLine).1 (getNetmask pMsg.pMsgLine)
      pMsg.identify.group
  · rw [(executeCommand_permits env w pMsg).1 h] at hrun
    have hstep := congrArg (Option.map Prod.snd) hrun
    exact (step_change (e := .command env pMsg.identify _) hstep).sessionsOwned owned
  · exact executeCommand_refused h hrun ▸ owned

/-- `logoff` on QUIT ends the session of its netmask. -/
theorem wp_logoff_quit {pMsg : MsgItem} {pNetmask pLogin : CStr}
    (hmask : pMsg.pNetmask = some pNetmask) (hinteractive : pMsg.bInteractiveMode = false)
    (hsession : w.db.getDb .nickToUser (some pNetmask) = some pLogin) :
    (logoff pMsg).wp (perform env)
      (fun _ w' => w'.db.sessions = w.db.sessions.unbind (key pLogin)) w := by
  simp only [logoff, Prog.wp_bind, Prog.liftM_eq, wp_perform_lift, wp_getDb, hmask, hsession]
  refine wp_logOut fun w₁ _ hsessions => ?_
  simp only [hinteractive, Bool.false_eq_true, if_false, Prog.wp_pure]
  exact hsessions

/-- After a QUIT its netmask is nobody's session. -/
theorem quit_no_session {pMsgLine pNetmask : CStr} (hmask : getNetmask pMsgLine = some pNetmask)
    (hrun : (executeCommand (SessionLine.msg ⟨.quit, pMsgLine⟩)).run (perform env) w =
      some ((), w'))
    (owned : w.db.SessionsOwned) : w'.db.fetch .nickToUser (key pNetmask) = none := by
  cases hsession : w.db.getDb .nickToUser (some pNetmask) with
  | none =>
    have hrefused : w'.db = w.db := by
      refine executeCommand_refused ?_ hrun
      rintro ⟨pLogin, hlogin⟩
      dsimp only [SessionLine.msg] at hlogin
      rw [hmask, hsession] at hlogin
      cases hlogin
    rw [hrefused]
    exact hsession
  | some pLogin =>
    have hpermits : w.db.permits (getAccessChannel pMsgLine).1 (getNetmask pMsgLine) .logged :=
      ⟨pLogin, hmask ▸ hsession⟩
    rw [(executeCommand_permits env w (SessionLine.msg ⟨.quit, pMsgLine⟩)).1 hpermits] at hrun
    have hended := wp_logoff_quit hmask rfl (show _ = some pLogin by exact hsession) () w' hrun
    have hsessions : w'.db.sessions = w.db.sessions.unbind (key pLogin) := hended
    cases hfetch : w'.db.fetch .nickToUser (key pNetmask) with
    | none => rfl
    | some owner =>
      have hrelease : w.db.sessions.release (key pLogin) (key pNetmask) = some (key owner) := by
        rw [show w.db.sessions.release (key pLogin) = w'.db.sessions.bwd by rw [hsessions]; rfl,
          Databases.sessions_bwd, hfetch, Option.map_some]
      have howner := (Paired.release_eq_some.mp hrelease).1
      rw [Databases.sessions_bwd, show w.db.fetch .nickToUser (key pNetmask) = some pLogin from
        hsession, Option.map_some] at howner
      exact absurd (howner ▸ hrelease) owned.backed.release_ne

end Quit

/-! ## The order of the queue -/

section Queue

variable {ι : Type} [DecidableEq ι] {lines : Bool → SessionLine} {env : Bool → Env}
  {p p' : Pool (quietSig.sum writeSig) Bool ι (World G)} {es : List ι}

/-- Two session lines that workers take from the queue and handle in turn: when both have
been handled, the session tables are as the two lines leave them in the order of their
arrival. After a QUIT that came last, its netmask is nobody's session. -/
theorem session_order {w : World G}
    (run : Run (Pool.step fun j => perform (env j)) (Pool.OnJobs (SessionLine.InTurn lines))
      (SessionLine.queued lines w) es p) (ended : p.jobs.Ended) :
    ∃ w', Threads.serially (fun j => perform (env j)) (fun j => executeCommand (lines j).msg)
        [false, true] w = some w' ∧
      (∀ db ∈ sessionDbs, p.jobs.shared.db.fetch db = w'.db.fetch db) ∧
      ((lines true).cmd = .quit → w.db.SessionsOwned →
        ∀ pNetmask, (lines true).pNetmask = some pNetmask →
          p.jobs.shared.db.fetch .nickToUser (key pNetmask) = none) := by
  obtain ⟨js, hjobs⟩ := Pool.run_jobs run
  obtain ⟨w', hserial, htables⟩ := SessionLine.tables_in_order hjobs ended
  have hfetch (db : DatabaseID) (hdb : db ≠ .timelog) :
      p.jobs.shared.db.fetch db = w'.db.fetch db := by
    rw [← Databases.tables_of_ne hdb, ← Databases.tables_of_ne hdb]
    exact congrFun htables.symm db
  refine ⟨w', hserial, fun db hdb => hfetch db fun h => ?_, fun hquit owned pNetmask hmask => ?_⟩
  · subst h
    exact absurd hdb (by decide)
  · simp only [Threads.serially, List.foldlM_cons, List.foldlM_nil, Option.bind_eq_bind,
      Option.bind_eq_some_iff, Option.map_eq_some_iff] at hserial
    obtain ⟨w₁, ⟨⟨⟨⟩, _⟩, hfirst, rfl⟩, w₂, ⟨⟨⟨⟩, _⟩, hsecond, rfl⟩, hw'⟩ := hserial
    obtain rfl := Option.some.inj hw'
    rw [hfetch .nickToUser (by decide)]
    have hline : lines true = ⟨.quit, (lines true).pMsgLine⟩ := by rw [← hquit]
    rw [hline] at hsecond
    exact quit_no_session hmask hsecond (executeCommand_owned hfirst owned)

/-- While no worker has the second line, it waits. -/
theorem inTurn_of_waiting (hsecond : p.jobs.left true = executeCommand (lines true).msg)
    (h : Run.steps (Pool.step fun j => perform (env j)) (fun p i => p.busy i != some true) p es =
      some p') :
    Run (Pool.step fun j => perform (env j)) (Pool.OnJobs (SessionLine.InTurn lines)) p es p' := by
  refine (Run.of_steps h).weaken (I := fun p => p.jobs.left true = executeCommand (lines true).msg)
    (fun p₁ i p₂ hleft hi hstep => ?_) (fun p₁ i hleft hi j hj => ?_) hsecond
  · exact (Pool.step_left (bne_iff_ne.mp hi) hstep).trans hleft
  · cases j with
    | false => exact fun _ _ _ => .inl hleft
    | true => exact absurd hj (bne_iff_ne.mp hi)

/-- When the first line has been handled, it is the turn of the second. -/
theorem inTurn_of_handled (hfirst : p.jobs.left false = .ret ())
    (h : Run.steps (Pool.step fun j => perform (env j)) (fun p i => p.busy i != some false) p es =
      some p') :
    Run (Pool.step fun j => perform (env j)) (Pool.OnJobs (SessionLine.InTurn lines)) p es p' ∧
      p'.jobs.left false = .ret () := by
  have keep (p₁ : Pool (quietSig.sum writeSig) Bool ι (World G)) (i : ι)
      (p₂ : Pool (quietSig.sum writeSig) Bool ι (World G)) (hleft : p₁.jobs.left false = .ret ())
      (hi : (p₁.busy i != some false) = true)
      (hstep : p₁.step (fun j => perform (env j)) i = some p₂) : p₂.jobs.left false = .ret () :=
    (Pool.step_left (bne_iff_ne.mp hi) hstep).trans hleft
  refine ⟨(Run.of_steps h).weaken keep (fun p₁ i hleft hi j hj => ?_) hfirst,
    (Run.of_steps h).invariant keep hfirst⟩
  cases j with
  | false => exact absurd hj (bne_iff_ne.mp hi)
  | true =>
    intro o _ _
    show KeepsTables G (p₁.jobs.left false)
    rw [hleft]
    exact .pure ()

end Queue

/-! ## `!ident` and QUIT -/

/-- `!ident` and then QUIT, from one netmask. -/
def identAndQuit : Bool → SessionLine
  | false => ⟨.ident, ":root!r@h PRIVMSG ebotula :!ident root"⟩
  | true => ⟨.quit, ":root!r@h QUIT :bye"⟩

/-- The lines of a bot whose only account is logged off. -/
def loggedOff : List CStr :=
  [":root!r@h PRIVMSG ebotula :!hello", ":root!r@h PRIVMSG ebotula :!logoff"]

/-- Two workers that take lines from the command queue. -/
abbrev TwoWorkers := Pool (quietSig.sum writeSig) Bool Bool (World Gdbm)

/-- The second worker takes the QUIT when the first has handled the `!ident`: no session
is left. -/
theorem session_order_identAndQuit : ∃ (w : World Gdbm) (p : TwoWorkers),
    receiveAll (fun _ _ => true) calmEnv freshBot loggedOff = some w ∧ p.jobs.Ended ∧
    (∃ w', Threads.serially (fun _ => perform calmEnv)
        (fun j => executeCommand (identAndQuit j).msg) [false, true] w = some w' ∧
      ∀ db ∈ sessionDbs, p.jobs.shared.db.fetch db = w'.db.fetch db) ∧
    p.jobs.shared.db.fetch .nickToUser (key "root!r@h") = none := by
  have computed : ((receiveAll (fun _ _ => true) calmEnv freshBot loggedOff).bind fun w =>
      (Run.steps (Pool.step fun _ => perform calmEnv) (fun p i => p.busy i != some true)
        (SessionLine.queued identAndQuit w) (.replicate 22 false)).bind fun p₁ =>
      (Run.steps (Pool.step fun _ => perform calmEnv) (fun p i => p.busy i != some false)
        p₁ (.replicate 9 true)).map fun p =>
        ((p₁.jobs.next false).isSome, (p.jobs.next true).isSome)) = some (false, false) := by
    decide +kernel
  obtain ⟨w, hw, hrest⟩ := Option.bind_eq_some_iff.mp computed
  obtain ⟨p₁, hp₁, hrest⟩ := Option.bind_eq_some_iff.mp hrest
  obtain ⟨p, hp, hfacts⟩ := Option.map_eq_some_iff.mp hrest
  obtain ⟨hfirst, hsecond⟩ := Prod.mk.inj hfacts
  have run₁ : Run _ (Pool.OnJobs (SessionLine.InTurn identAndQuit)) _ _ p₁ :=
    inTurn_of_waiting rfl hp₁
  obtain ⟨run₂, hleft⟩ : Run _ (Pool.OnJobs (SessionLine.InTurn identAndQuit)) p₁ _ p ∧ _ :=
    inTurn_of_handled (Threads.ended_of_next hfirst) hp
  have ended : p.jobs.Ended := fun j => by
    cases j
    · exact hleft
    · exact Threads.ended_of_next hsecond
  obtain ⟨es, hreach⟩ := run_of_receiveAll hw
  have owned := freshBot_noSessions.owned_run (hreach.mono fun _ _ _ => trivial)
  obtain ⟨w', hserial, htables, hquit⟩ := session_order (run₁.append run₂) ended
  exact ⟨w, p, hw, ended, ⟨w', hserial, htables⟩, hquit rfl owned _ (by decide +kernel)⟩

/-- The QUIT is refused while the `!ident` is still being handled: the session is left over,
as it is not when the lines are handled in the order of their arrival. -/
theorem session_left_identAndQuit : ∃ (w w' : World Gdbm) (p : TwoWorkers)
    (es : List Bool),
    receiveAll (fun _ _ => true) calmEnv freshBot loggedOff = some w ∧
    Run (Pool.step fun _ => perform calmEnv) (fun _ _ => True)
      (SessionLine.queued identAndQuit w) es p ∧ p.jobs.Ended ∧
    p.jobs.shared.db.fetch .nickToUser (key "root!r@h") = some "root".toList ∧
    Threads.serially (fun _ => perform calmEnv) (fun j => executeCommand (identAndQuit j).msg)
      [false, true] w = some w' ∧
    w'.db.fetch .nickToUser (key "root!r@h") = none := by
  have computed : ((receiveAll (fun _ _ => true) calmEnv freshBot loggedOff).bind fun w =>
      (Run.steps (Pool.step fun _ => perform calmEnv) (fun _ _ => true)
        (SessionLine.queued identAndQuit w)
        (false :: .replicate 4 true ++ .replicate 20 false)).bind fun p =>
      (Threads.serially (fun _ => perform calmEnv) (fun j => executeCommand (identAndQuit j).msg)
        [false, true] w).map fun w' => ((p.jobs.next false).isSome, (p.jobs.next true).isSome,
          p.jobs.shared.db.fetch .nickToUser (key "root!r@h"),
          w'.db.fetch .nickToUser (key "root!r@h"))) =
      some (false, false, some "root".toList, none) := by
    decide +kernel
  obtain ⟨w, hw, hrest⟩ := Option.bind_eq_some_iff.mp computed
  obtain ⟨p, hp, hrest⟩ := Option.bind_eq_some_iff.mp hrest
  obtain ⟨w', hw', hfacts⟩ := Option.map_eq_some_iff.mp hrest
  simp only [Prod.mk.injEq] at hfacts
  obtain ⟨hfirst, hsecond, hleft, hnone⟩ := hfacts
  refine ⟨w, w', p, _, hw, (Run.of_steps hp).mono fun _ _ _ => trivial, fun j => ?_, hleft, hw',
    hnone⟩
  cases j
  · exact Threads.ended_of_next hfirst
  · exact Threads.ended_of_next hsecond

end Ebotula
