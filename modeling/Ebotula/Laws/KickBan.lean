import Ebotula.Laws.Protection
import Ebotula.Laws.Sending
import Ebotula.Laws.Words

/-!
# Kicks, bans and nicknames

Whoever gives a command to kick or to ban is known by his login, which waits with the callback
for the answer of the server. The callbacks look up his nickname in order to answer him, and then
ask `checkUserLevel` about the nickname and not about the login. So what they decide hangs on his
nickname where the target has the record of an owner, or is not known: there the question is
whether the issuer has a record of his own, and the record of whoever is called as he is now
called is taken for it. And a nickname that is no proper one is no nickname for them: then they
neither ask nor act.
-/

set_option autoImplicit false

namespace Ebotula

open Library

section KickBan

variable {G : Type} [DbLib G] {w w' : World G} {dbs dbs' : Databases G} {env : Env}
  {pCmdLogin pNetmask data pCmdNick : CStr} {target pChannel issuer issuer' : Option CStr}

/-! ## The answer as it depends on the issuer -/

/-- What `checkUserLevel` answers, if anything, to an issuer who has a record of his own or not. -/
def levelAnswer (env : Env) (issuerHeld : Bool) (dbs : Databases G)
    (target pChannel : Option CStr) : Option Bool :=
  match target, pChannel with
  | some pLogin, some pChannel =>
    some (recordDecision env issuerHeld (oldMode dbs pChannel pLogin))
  | some _, none => none
  | none, _ => env.unwrittenPointer.map (recordDecision env issuerHeld)

theorem run_checkUserLevel :
    (checkUserLevel pCmdLogin target pChannel).run (performQuiet env) w =
      (levelAnswer env (w.db.existDb .access (some pCmdLogin)) w.db target pChannel).map
        (·, w) := by
  cases target with
  | none =>
    rw [run_checkUserLevel_guest, levelAnswer, Option.map_map]
    rfl
  | some pLogin =>
    cases pChannel with
    | none => rfl
    | some pChannel =>
      rw [run_checkUserLevel_target]
      rfl

/-- The issuer is asked about where the target is not known, or has the record of an owner. An
empty record has any second character. -/
def Databases.asksIssuer (dbs : Databases G) (target pChannel : Option CStr) : Prop :=
  ∀ pLogin ∈ target, ∃ c ∈ pChannel, ∃ pMod ∈ oldMode dbs c pLogin,
    pMod = [] ∨ strAt pMod 1 = 'o'

theorem recordDecision_congr {issuerHeld issuerHeld' : Bool} {pMod : Option CStr}
    (h : ∀ m ∈ pMod, charBehind env m = 'o' → issuerHeld = issuerHeld') :
    recordDecision env issuerHeld pMod = recordDecision env issuerHeld' pMod := by
  cases pMod with
  | none => rfl
  | some m =>
    by_cases ho : charBehind env m = 'o'
    · rw [h m rfl ho]
    · simp [recordDecision, ho]

theorem recordDecision_owner {issuerHeld : Bool} {m : CStr} (h : charBehind env m = 'o') :
    recordDecision env issuerHeld (some m) = issuerHeld := by
  simp [recordDecision, h]

/-- A machine that has an owner's record wherever nothing was written. -/
def ownerEnv : Env :=
  { calmEnv with unwritten := fun _ => ['o'], unwrittenPointer := some (some ['+', 'o']) }

theorem charBehind_ownerEnv {m : CStr} (h : m = [] ∨ strAt m 1 = 'o') :
    charBehind ownerEnv m = 'o' := by
  cases m with
  | nil => rfl
  | cons c m => exact h.resolve_left nofun

/-- Two issuers get the same answer on every machine if the question is not asked about them, or
has the same answer for both. -/
theorem levelAnswer_same_iff {issuerHeld issuerHeld' named : Bool} :
    (∀ env, (levelAnswer env issuerHeld dbs target pChannel).map (· && named) =
        (levelAnswer env issuerHeld' dbs target pChannel).map (· && named)) ↔
      (named = true → dbs.asksIssuer target pChannel → issuerHeld = issuerHeld') := by
  cases named with
  | false =>
    refine ⟨fun _ h => absurd h nofun, fun _ env => ?_⟩
    simp only [Bool.and_false, levelAnswer]
    cases target with
    | none => cases env.unwrittenPointer <;> rfl
    | some pLogin => cases pChannel <;> rfl
  | true =>
    simp only [Bool.and_true, Option.map_id', forall_const]
    refine ⟨fun h hasks => ?_, fun h env => ?_⟩
    · have howner := h ownerEnv
      cases target with
      | none =>
        have answer (held : Bool) : levelAnswer ownerEnv held dbs none pChannel = some held :=
          congrArg some (recordDecision_owner rfl)
        rwa [answer, answer, Option.some.injEq] at howner
      | some pLogin =>
        obtain ⟨c, rfl, m, hm, hletter⟩ := hasks pLogin rfl
        simp only [levelAnswer, Option.mem_def.mp hm,
          recordDecision_owner (charBehind_ownerEnv hletter), Option.some.injEq] at howner
        exact howner
    · cases target with
      | none =>
        have heq : issuerHeld = issuerHeld' := h nofun
        rw [heq]
      | some pLogin =>
        cases pChannel with
        | none => rfl
        | some c =>
          refine congrArg some (recordDecision_congr fun m hm ho => h ?_)
          rintro _ ⟨⟩
          refine ⟨c, rfl, m, hm, ?_⟩
          cases m with
          | nil => exact .inl rfl
          | cons a m => exact .inr ho

theorem recordDecision_refuses_iff {issuerHeld : Bool} {pMod : Option CStr} :
    (∀ env, recordDecision env issuerHeld pMod = false) ↔
      ∃ m ∈ pMod, strAt m 1 = 'm' ∨ strAt m 1 = 'o' ∧ issuerHeld = false := by
  cases pMod with
  | none => exact iff_of_false (fun h => absurd (h calmEnv) (by simp [recordDecision])) (by simp)
  | some m =>
    simp only [Option.mem_some_iff, exists_eq_left']
    cases m with
    | nil =>
      -- what stands behind an empty record may be any character
      refine iff_of_false (fun h => absurd (h calmEnv) ?_) ?_
      · simp [recordDecision, charBehind, strAt, calmEnv]
      · simp [strAt]
    | cons c m =>
      have hdecision (env : Env) : recordDecision env issuerHeld (some (c :: m)) =
          (strAt (c :: m) 1 ≠ 'm' && (issuerHeld || strAt (c :: m) 1 ≠ 'o') : Bool) := rfl
      simp only [hdecision]
      refine ⟨fun h => ?_, fun h env => ?_⟩
      · by_cases hmaster : strAt (c :: m) 1 = 'm'
        · exact .inl hmaster
        · have hnot := h calmEnv
          simp only [hmaster, ne_eq, not_false_eq_true, decide_true, Bool.true_and,
            Bool.or_eq_false_iff, decide_not, Bool.not_eq_eq_eq_not, Bool.not_false,
            decide_eq_true_eq] at hnot
          exact .inr ⟨hnot.2, hnot.1⟩
      · rcases h with hmaster | ⟨howner, hheld⟩
        · simp [hmaster]
        · simp [howner, hheld]

/-- An issuer is refused on every machine if the target is known and he cannot act on it, or could
not name it. -/
theorem levelAnswer_refuses_iff {issuerHeld named : Bool} :
    (∀ env, (levelAnswer env issuerHeld dbs target pChannel).map (· && named) = some false) ↔
      ∃ pLogin ∈ target, ∃ c ∈ pChannel, named = true →
        ∃ m ∈ oldMode dbs c pLogin, strAt m 1 = 'm' ∨ strAt m 1 = 'o' ∧ issuerHeld = false := by
  cases target with
  | none =>
    refine iff_of_false (fun h => ?_) (by simp)
    have hcrash := h { calmEnv with unwrittenPointer := none }
    cases hcrash
  | some pLogin =>
    cases pChannel with
    | none =>
      refine iff_of_false (fun h => ?_) (by simp)
      have hcrash := h calmEnv
      cases hcrash
    | some c =>
      simp only [levelAnswer, Option.map_some, Option.some.injEq, Option.mem_some_iff,
        exists_eq_left']
      cases named with
      | false => simp
      | true =>
        simp only [Bool.and_true, forall_const]
        exact recordDecision_refuses_iff

/-! ## What the callbacks decide -/

/-- The nickname under which a callback knows the issuer: the one of his session, if it is a
proper one. -/
def Databases.issuerNick (dbs : Databases G) (pCmdLogin : Option CStr) : Option CStr :=
  (dbs.getDb .userToNick pCmdLogin).bind getNickname

/-- The answer to an issuer by the nickname under which he is known. -/
def issuerAnswer (env : Env) (dbs : Databases G) (issuer target pChannel : Option CStr)
    (named : Bool) : Option Bool :=
  match issuer with
  | none => some false
  | some pCmdNick => (levelAnswer env (dbs.isMaster pCmdNick) dbs target pChannel).map (· && named)

/-- Nobody acts on the target who is known under this nickname: the target is known, and it could
not be named, or has the record of a master, or that of an owner while the nickname is no key. -/
def Databases.refuses (dbs : Databases G) (pCmdNick : CStr) (target pChannel : Option CStr)
    (named : Bool) : Prop :=
  ∃ pLogin ∈ target, ∃ c ∈ pChannel, named = true →
    ∃ m ∈ oldMode dbs c pLogin, strAt m 1 = 'm' ∨ strAt m 1 = 'o' ∧ dbs.isMaster pCmdNick = false

/-- When it makes no difference under which of two nicknames the issuer is known, if any. -/
def Databases.sameAnswer (dbs : Databases G) (issuer issuer' target pChannel : Option CStr)
    (named : Bool) : Prop :=
  match issuer, issuer' with
  | none, none => True
  | some pNick, some pNick' =>
    named = true → dbs.asksIssuer target pChannel → dbs.isMaster pNick = dbs.isMaster pNick'
  | some pNick, none | none, some pNick => dbs.refuses pNick target pChannel named

theorem issuerAnswer_same_iff {named : Bool} :
    (∀ env, issuerAnswer env dbs issuer target pChannel named =
        issuerAnswer env dbs issuer' target pChannel named) ↔
      dbs.sameAnswer issuer issuer' target pChannel named := by
  cases issuer with
  | none =>
    cases issuer' with
    | none => exact iff_of_true (fun _ => rfl) trivial
    | some pNick' =>
      refine Iff.trans ⟨fun h env => ?_, fun h env => ?_⟩ levelAnswer_refuses_iff
      · exact (h env).symm
      · exact (h env).symm
  | some pNick =>
    cases issuer' with
    | none => exact levelAnswer_refuses_iff
    | some pNick' => exact levelAnswer_same_iff

/-- The login of whoever gave the command. -/
def issuerOf (data : CStr) : Option CStr := (getFirstPart data none).1

/-- The channel he gave it for. -/
def channelOf (data : CStr) : Option CStr := (getFirstPart (getFirstPart data none).2 none).1

/-- The reason of a kick. -/
def reasonOf (data : CStr) : Option CStr :=
  let rest := (getFirstPart data none).2
  (getFirstPart rest rest).2

/-- Whether a routine gives the server a line with a command, if it comes to its end. -/
def decision (env : Env) (command : CStr) (p : Quiet Unit) (w : World G) : Option Bool :=
  (p.run (performQuiet env) w).map fun r => decide (r.2.issued command ≠ w.issued command)

theorem decision_of_issues {command : CStr} {p : Quiet Unit} {lines : List CStr}
    (h : Issues env command p w lines) : decision env command p w = some (decide (lines ≠ [])) := by
  obtain ⟨w', hrun, -, hissued⟩ := h
  simp [decision, hrun, hissued]

/-- The end of both callbacks: the issuer's nickname is asked about, and then something is done
to the target or not. -/
theorem decision_asked {command : CStr} {accept refuse : Quiet Unit} {named : Bool}
    (haccept : ∃ lines, Issues env command accept w lines ∧ (lines ≠ [] ↔ named = true))
    (hrefuse : Issues env command refuse w []) :
    decision env command (do
        if ← checkUserLevel pCmdNick target pChannel then accept else refuse) w =
      (levelAnswer env (w.db.existDb .access (some pCmdNick)) w.db target pChannel).map
        (· && named) := by
  have hrun : (do if ← checkUserLevel pCmdNick target pChannel then accept else refuse :
      Quiet Unit).run (performQuiet env) w =
      (levelAnswer env (w.db.existDb .access (some pCmdNick)) w.db target pChannel).bind
        fun answer => (if answer then accept else refuse).run (performQuiet env) w := by
    rw [Prog.run_bind, run_checkUserLevel, Option.bind_map]
    rfl
  rw [decision, hrun]
  cases levelAnswer env (w.db.existDb .access (some pCmdNick)) w.db target pChannel with
  | none => rfl
  | some answer =>
    cases answer with
    | false => exact decision_of_issues hrefuse
    | true =>
      obtain ⟨lines, hissues, hlines⟩ := haccept
      refine (decision_of_issues hissues).trans ?_
      simp only [hlines, Option.map_some, Bool.true_and, Bool.decide_eq_true]

/-- A callback decides nothing before it asks. -/
theorem decision_logger {command format : CStr} {priority : LogLevel} {args : List FmtArg}
    {p : Quiet Unit} : decision env command (logger priority format args >>= fun _ => p) w =
      decision env command p (w.logging ⟨priority, format, args⟩) := by
  rw [decision, Prog.run_bind, run_logger]
  rfl

theorem decision_getDb {command : CStr} {d : DatabaseID} {k : Option CStr}
    {f : Option CStr → Quiet Unit} :
    decision env command (getDb d k >>= f) w = decision env command (f (w.db.getDb d k)) w := by
  rw [decision, Prog.run_bind, run_getDb]
  rfl

/-- `KickCb` names the target to the server if there is all that a kick needs. -/
def kickNamed (pNetmask data : CStr) : Bool :=
  (getNickname pNetmask).isSome && (channelOf data).isSome && (reasonOf data).isSome

theorem existDb_isMaster :
    dbs.existDb .access (some pCmdNick) = dbs.isMaster pCmdNick := Databases.existDb_some

theorem decision_kickCb :
    decision env "KICK " (kickCb pNetmask data) w =
      issuerAnswer env w.db (w.db.issuerNick (issuerOf data))
        (w.db.getDb .nickToUser (some pNetmask)) (channelOf data) (kickNamed pNetmask data) := by
  unfold kickCb
  rw [decision_logger]
  dsimp only
  rw [decision_getDb, decision_getDb]
  simp only [World.logging_db]
  rw [show (w.db.getDb .userToNick (getFirstPart data none).1).bind getNickname =
    w.db.issuerNick (issuerOf data) from rfl]
  cases w.db.issuerNick (issuerOf data) with
  | none => exact decision_of_issues .pure
  | some pCmdNick =>
    rw [getFirstPart_fst (getFirstPart (some data) none).2 _ none, issuerAnswer,
      ← existDb_isMaster]
    refine decision_asked ?_ (issues_notice noTalk_kick)
    cases hnick : getNickname pNetmask with
    | none => exact ⟨[], .pure, by simp [kickNamed, hnick]⟩
    | some pNick =>
      have hkick (w' : World G) : ∃ lines,
          Issues env "KICK " (kick (channelOf data) (some pNick) (reasonOf data)) w' lines ∧ _ :=
        issues_kick
      obtain ⟨lines, hkick, hlines⟩ := hkick (w.logging _)
      refine ⟨lines ++ [], hkick.bind fun _ _ => issues_notice noTalk_kick, ?_⟩
      simp [hlines, kickNamed, hnick]

/-- The same for `SetBanCb`, which needs a mask. -/
def banNamed (pBanmask : Option CStr) (data : CStr) : Bool :=
  (channelOf data).isSome && pBanmask.isSome

theorem decision_setBanCb :
    decision env "MODE " (setBanCb pNetmask data) w =
      (getBanmask pNetmask).bind fun pBanmask =>
        issuerAnswer env w.db (w.db.issuerNick (issuerOf data))
          (w.db.getDb .nickToUser (some pNetmask)) (channelOf data) (banNamed pBanmask data) := by
  unfold setBanCb
  rw [decision_logger]
  dsimp only
  cases hmask : getBanmask pNetmask with
  | none => rfl
  | some pBanmask =>
    dsimp only
    rw [decision_getDb, decision_getDb]
    simp only [World.logging_db]
    rw [show (w.db.getDb .userToNick (getFirstPart data none).1).bind getNickname =
      w.db.issuerNick (issuerOf data) from rfl, Option.bind_some]
    cases w.db.issuerNick (issuerOf data) with
    | none => exact decision_of_issues .pure
    | some pCmdNick =>
      rw [issuerAnswer, ← existDb_isMaster]
      refine decision_asked ?_ (issues_notice noTalk_mode)
      have hban (w' : World G) : ∃ lines,
          Issues env "MODE " (ban (channelOf data) pBanmask) w' lines ∧ _ := issues_ban
      obtain ⟨lines, hban, hlines⟩ := hban (w.logging _)
      refine ⟨lines ++ [], hban.bind fun _ _ => issues_notice noTalk_mode, ?_⟩
      simp [hlines, banNamed]

/-! ## Two states that differ in a nickname -/

/-- Two states with the same accounts and grants, in which the target is logged in as the same
account or not at all. The nickname of whoever gave the command may be another. -/
structure SameButNick (dbs dbs' : Databases G) (pNetmask : CStr) : Prop where
  user : dbs'.fetch .user = dbs.fetch .user
  access : dbs'.fetch .access = dbs.fetch .access
  target : dbs'.getDb .nickToUser (some pNetmask) = dbs.getDb .nickToUser (some pNetmask)

theorem SameButNick.issuerAnswer_eq (same : SameButNick dbs dbs' pNetmask) {named : Bool} :
    issuerAnswer env dbs' issuer (dbs'.getDb .nickToUser (some pNetmask)) pChannel named =
      issuerAnswer env dbs issuer (dbs.getDb .nickToUser (some pNetmask)) pChannel named := by
  simp only [issuerAnswer, levelAnswer, oldMode, Databases.isMaster, same.access, same.target]

/-- Kick and ban decisions do not depend on nicknames exactly where the issuer is not asked about,
or both nicknames are those of masters, or neither is. For every two states that differ in the
nickname of the issuer, and for each of the two callbacks: on every machine it decides the same in
both, if and only if neither nickname is a proper one; or both are, and it cannot name the target
to the server at all, or does not ask about the issuer, or both nicknames are keys of a master's
record, or neither is; or one is, and under that one it refuses. -/
theorem decisions_without_nick (same : SameButNick w.db w'.db pNetmask) :
    ((∀ env, decision env "KICK " (kickCb pNetmask data) w =
        decision env "KICK " (kickCb pNetmask data) w') ↔
      w.db.sameAnswer (w.db.issuerNick (issuerOf data)) (w'.db.issuerNick (issuerOf data))
        (w.db.getDb .nickToUser (some pNetmask)) (channelOf data) (kickNamed pNetmask data)) ∧
    ((∀ env, decision env "MODE " (setBanCb pNetmask data) w =
        decision env "MODE " (setBanCb pNetmask data) w') ↔
      ∀ pBanmask ∈ getBanmask pNetmask,
        w.db.sameAnswer (w.db.issuerNick (issuerOf data)) (w'.db.issuerNick (issuerOf data))
          (w.db.getDb .nickToUser (some pNetmask)) (channelOf data) (banNamed pBanmask data)) := by
  constructor
  · simp only [decision_kickCb, same.issuerAnswer_eq]
    exact issuerAnswer_same_iff
  · simp only [decision_setBanCb, same.issuerAnswer_eq]
    cases getBanmask pNetmask with
    | none =>
      refine ⟨fun _ _ hmask => ?_, fun _ _ => rfl⟩
      cases hmask
    | some pBanmask =>
      simp only [Option.bind_some, Option.mem_def, Option.some.injEq, forall_eq']
      exact issuerAnswer_same_iff

/-! ### Bob under two nicknames -/

/-- The bot before and after bob, who owns the channel as well, goes over to another nickname. -/
def bobCalled (pNick : CStr) : Option (World Gdbm × World Gdbm) := do
  let w ← receiveAll (fun _ _ => true) calmEnv freshBot
    (ownedChannel ++ [":root!r@h PRIVMSG ebotula :!accountmode #c bob +o".toList])
  let w' ← receiveAll (fun _ _ => true) calmEnv w [":bob!b@h NICK :".toList ++ pNick]
  return (w, w')

/-- The two states are the same but for his nickname, by what their files hold. -/
def bobApart (pNick : CStr) (r : World Gdbm × World Gdbm) : Bool :=
  (r.2.db .user).entries = (r.1.db .user).entries ∧
    (r.2.db .access).entries = (r.1.db .access).entries ∧
    r.2.db.getDb .nickToUser (some "alice!a@h") = r.1.db.getDb .nickToUser (some "alice!a@h") ∧
    r.1.db.issuerNick (some "bob") = some "bob".toList ∧
    r.2.db.issuerNick (some "bob") = some pNick

theorem fetch_of_entries {dbs dbs' : Databases Gdbm} {d : DatabaseID}
    (h : (dbs' d).entries = (dbs d).entries) : dbs'.fetch d = dbs.fetch d := by
  have heq : dbs' d = dbs d := by
    cases hd : dbs d
    cases hd' : dbs' d
    rw [hd, hd'] at h
    cases h
    rfl
  funext k
  rw [Databases.fetch, heq, Databases.fetch]

theorem sameButNick_of_apart {pNick : CStr} {r : World Gdbm × World Gdbm}
    (h : bobApart pNick r = true) : SameButNick r.1.db r.2.db "alice!a@h" ∧
      r.1.db.issuerNick (issuerOf "bob #c bye") = some "bob".toList ∧
      r.2.db.issuerNick (issuerOf "bob #c bye") = some pNick := by
  obtain ⟨huser, haccess, htarget, hnicks⟩ := of_decide_eq_true h
  exact ⟨⟨fetch_of_entries huser, fetch_of_entries haccess, htarget⟩, hnicks⟩

/-- Bob may not kick alice, who owns the channel; but as soon as he is called as the master is he
may. -/
theorem decisions_hang_on_nick : ∃ r, bobCalled "root" = some r ∧
    SameButNick r.1.db r.2.db "alice!a@h" ∧
    decision calmEnv "KICK " (kickCb "alice!a@h" "bob #c bye") r.1 = some false ∧
    decision calmEnv "KICK " (kickCb "alice!a@h" "bob #c bye") r.2 = some true ∧
    decision calmEnv "MODE " (setBanCb "alice!a@h" "bob #c") r.1 = some false ∧
    decision calmEnv "MODE " (setBanCb "alice!a@h" "bob #c") r.2 = some true := by
  have computed : (bobCalled "root").map (fun r => (bobApart "root" r,
      decision calmEnv "KICK " (kickCb "alice!a@h" "bob #c bye") r.1,
      decision calmEnv "KICK " (kickCb "alice!a@h" "bob #c bye") r.2,
      decision calmEnv "MODE " (setBanCb "alice!a@h" "bob #c") r.1,
      decision calmEnv "MODE " (setBanCb "alice!a@h" "bob #c") r.2)) =
      some (true, some false, some true, some false, some true) := by
    decide +kernel
  obtain ⟨r, hr, hfacts⟩ := Option.map_eq_some_iff.mp computed
  simp only [Prod.mk.injEq] at hfacts
  exact ⟨r, hr, (sameButNick_of_apart hfacts.1).1, hfacts.2⟩

/-- Under any name that is no master's he may not. -/
theorem decisions_without_nick_bobby : ∃ r, bobCalled "bobby" = some r ∧
    ∀ env, decision env "KICK " (kickCb "alice!a@h" "bob #c bye") r.1 =
      decision env "KICK " (kickCb "alice!a@h" "bob #c bye") r.2 := by
  have computed : (bobCalled "bobby").map (fun r => (bobApart "bobby" r,
      r.1.db.isMaster "bob", r.1.db.isMaster "bobby")) = some (true, false, false) := by
    decide +kernel
  obtain ⟨r, hr, hfacts⟩ := Option.map_eq_some_iff.mp computed
  simp only [Prod.mk.injEq] at hfacts
  obtain ⟨hapart, hbob, hbobby⟩ := hfacts
  obtain ⟨same, hnick, hnick'⟩ := sameButNick_of_apart hapart
  refine ⟨r, hr, (decisions_without_nick same).1.mpr ?_⟩
  rw [hnick, hnick']
  exact fun _ _ => hbob.trans hbobby.symm

end KickBan

end Ebotula
