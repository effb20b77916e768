import Ebotula.Laws.Grants

/-!
# Masters and owners are protected

`checkUserLevel` decides whether somebody may be kicked or banned. It looks at one record only,
the one in the channel or else the one of a master, and knows a master by its second character.
So a master is not seen behind a record in the channel, nor when he is the first master, whose
record is `m` alone; and without a target it looks at a pointer that was never written.

`Databases.mayActOn` says who may act on whom, and `masters_and_owners_protected` says in which
states, of those that acts can reach, that is what the code decides.
-/

set_option autoImplicit false

namespace Ebotula

open Library

section Protection

variable {G : Type} [DbLib G] {w w' : World G} {dbs dbs' : Databases G} {a : Act}
  {env : Env} {pCmdLogin pLogin pChannel : CStr} {target : Option CStr}

/-! ## What the code decides -/

/-- What `checkUserLevel` makes of the record it has found. -/
def recordDecision (env : Env) (issuerHeld : Bool) (pMod : Option CStr) : Bool :=
  pMod.all fun pMod =>
    charBehind env pMod ≠ 'm' && (issuerHeld || charBehind env pMod ≠ 'o')

theorem run_checkUserLevel_rest (pMod : Option CStr) :
    (match pMod with
      | none => return true
      | some pMod => do
        if (← secondChar pMod) = 'm' then return false
        else if ← existDb .access (some pCmdLogin) then return true
        else if (← secondChar pMod) ≠ 'o' then return true
        else return false : Quiet Bool).run (performQuiet env) w =
      some (recordDecision env (w.db.existDb .access (some pCmdLogin)) pMod, w) := by
  cases pMod with
  | none => rfl
  | some pMod =>
    simp only [Prog.run_bind, run_secondChar, Option.bind_some, recordDecision, Option.all_some]
    by_cases hmaster : charBehind env pMod = 'm'
    · simp [hmaster]
    · simp only [if_neg hmaster, Prog.run_bind, run_existDb, Option.bind_some]
      cases w.db.existDb .access (some pCmdLogin) with
      | true => simp [hmaster]
      | false =>
        simp only [Bool.false_eq_true, if_false, Prog.run_bind, run_secondChar, Option.bind_some]
        by_cases howner : charBehind env pMod = 'o' <;> simp [hmaster, howner]

/-- The record that decides is the one in the channel, or else the one under the login. -/
theorem run_checkUserLevel_target :
    (checkUserLevel pCmdLogin (some pLogin) (some pChannel)).run (performQuiet env) w =
      some (recordDecision env (w.db.existDb .access (some pCmdLogin))
        (oldMode w.db pChannel pLogin), w) := by
  unfold checkUserLevel
  simp only [Prog.run_bind, run_getDb, Option.bind_some, Databases.getDb_some, oldMode]
  cases w.db.fetch .access (key (pLogin ++ pChannel)) with
  | some pMod =>
    simp only [Option.some_or]
    exact run_checkUserLevel_rest (some pMod)
  | none =>
    simp only [Option.none_or]
    exact run_checkUserLevel_rest _

/-- Without a target the pointer decides that nobody has written. -/
theorem run_checkUserLevel_guest {pChannel : Option CStr} :
    (checkUserLevel pCmdLogin none pChannel).run (performQuiet env) w =
      env.unwrittenPointer.map fun pMod =>
        (recordDecision env (w.db.existDb .access (some pCmdLogin)) pMod, w) := by
  have hread : unwrittenPointer.run (performQuiet env) w =
      env.unwrittenPointer.map fun pMod => (pMod, w) := Prog.run_request _ _
  unfold checkUserLevel
  simp only [Prog.run_bind, hread]
  cases env.unwrittenPointer with
  | none => rfl
  | some pMod => exact run_checkUserLevel_rest pMod

/-! ## Who may act on whom -/

namespace Databases

/-- A master has a record under his login alone. -/
def isMaster (dbs : Databases G) (pLogin : CStr) : Bool :=
  (dbs.fetch .access (key pLogin)).isSome

/-- An owner has a record with the letter o in the channel. -/
def isOwner (dbs : Databases G) (pLogin pChannel : CStr) : Bool :=
  (dbs.fetch .access (key (pLogin ++ pChannel))).any fun pMod => 'o' ∈ pMod

/-- Whoever gives a command may act on anybody but a master, and on an owner if he is a master
himself. -/
def mayActOn (dbs : Databases G) (pCmdLogin : CStr) (target : Option CStr) (pChannel : CStr) :
    Bool :=
  match target with
  | none => true
  | some pLogin =>
    !dbs.isMaster pLogin && !(dbs.isOwner pLogin pChannel && !dbs.isMaster pCmdLogin)

/-- The targets for which the code finds out. A master must be known by his own record, and no
record in the channel may stand before it, unless it protects him as well. -/
def targetSeen (dbs : Databases G) (pCmdLogin : CStr) (target : Option CStr) (pChannel : CStr) :
    Prop :=
  ∃ pLogin ∈ target, dbs.isMaster pLogin →
    if dbs.fetch .access (key (pLogin ++ pChannel)) = none then
      dbs.fetch .access (key pLogin) ≠ some ['m']
    else dbs.isOwner pLogin pChannel ∧ ¬ dbs.isMaster pCmdLogin

end Databases

/-! ## The records that commands write -/

/-- Every record is written for a grant. -/
structure Recorded (dbs : Databases G) : Prop where
  named : Named dbs
  record : ∀ k r, dbs.fetch .access k = some r →
    ∃ g : Grant, g.Proper ∧ g.key = k ∧ g.Record r

namespace Recorded

theorem act (recorded : Recorded w.db) (h : Ebotula.act w a = some w') : Recorded w'.db := by
  refine ⟨recorded.named.act h, fun k r hafter => ?_⟩
  by_cases hbefore : w.db.fetch .access k = some r
  · exact recorded.record k r hbefore
  · obtain ⟨g, -, hgrant⟩ := recorded.named.granted h hafter hbefore
    exact ⟨g, hgrant⟩

/-- A record is the kind of record its grant has. -/
theorem record_of_grant (recorded : Recorded dbs) {g : Grant} (hg : g.Proper) {r : CStr}
    (h : dbs.fetch .access g.key = some r) : g.Record r := by
  obtain ⟨g', hg', hkey, hrecord⟩ := recorded.record _ r h
  exact Grant.key_inj hg' hg hkey ▸ hrecord

end Recorded

theorem Databases.NoRights.recorded (h : dbs.NoRights) : Recorded dbs := by
  refine ⟨h.owned.named, fun k r hr => ?_⟩
  rw [h.access] at hr
  cases hr

/-! ## The two agree where the code finds out -/

theorem owner_letter (c : Char) : decide ('o' ∈ cString ['+', c]) = decide (c = 'o') := by
  by_cases h : c = '\x00'
  · rw [h]
    rfl
  · simp [cString, h, eq_comm]

/-- With a target, what the code decides does not depend on what it finds in memory, and it is
what `mayActOn` says exactly where the target is seen. -/
theorem recordDecision_iff (recorded : Recorded dbs) (hlogin : (key pLogin).IsNick)
    (hchannel : (key pChannel).IsChannel) (env : Env) :
    recordDecision env (dbs.existDb .access (some pCmdLogin)) (oldMode dbs pChannel pLogin) =
        dbs.mayActOn pCmdLogin (some pLogin) pChannel ↔
      dbs.targetSeen pCmdLogin (some pLogin) pChannel := by
  have hown {r : CStr} (h : dbs.fetch .access (key pLogin) = some r) :
      r = ['m'] ∨ r = ['+', 'm'] :=
    recorded.record_of_grant (g := ⟨key pLogin, none⟩) ⟨hlogin, nofun⟩ h
  have hright {r : CStr} (h : dbs.fetch .access (key (pLogin ++ pChannel)) = some r) :
      ∃ c, c ≠ 'm' ∧ r = cString ['+', c] :=
    recorded.record_of_grant (g := ⟨key pLogin, some (key pChannel)⟩)
      ⟨hlogin, by rintro _ ⟨⟩; exact hchannel⟩ (by rwa [key_append] at h)
  have hissuer : dbs.existDb .access (some pCmdLogin) = dbs.isMaster pCmdLogin :=
    Databases.existDb_some
  simp only [Databases.targetSeen, Databases.mayActOn, Option.mem_def, Option.some.injEq,
    exists_eq_left', hissuer, oldMode]
  cases hr : dbs.fetch .access (key (pLogin ++ pChannel)) with
  | none =>
    have howner : dbs.isOwner pLogin pChannel = false := by rw [Databases.isOwner, hr]; rfl
    cases hm : dbs.fetch .access (key pLogin) with
    | none =>
      have hmaster : dbs.isMaster pLogin = false := by rw [Databases.isMaster, hm]; rfl
      simp [recordDecision, howner, hmaster]
    | some m =>
      have hmaster : dbs.isMaster pLogin = true := by rw [Databases.isMaster, hm]; rfl
      -- a master is known by the second character of his record
      rcases hown hm with rfl | rfl
      · simp [recordDecision, hmaster, charBehind, strAt]
      · simp [recordDecision, hmaster, charBehind, strAt]
  | some r =>
    obtain ⟨c, hc, rfl⟩ := hright hr
    have howner : dbs.isOwner pLogin pChannel = decide (c = 'o') := by
      rw [Databases.isOwner, hr, Option.any_some, owner_letter]
    simp only [recordDecision, Option.some_or, Option.all_some, charBehind_right, howner]
    cases dbs.isMaster pLogin <;> cases dbs.isMaster pCmdLogin <;> simp [hc]

/-- `checkUserLevel` protects masters and owners where it sees the target, and nowhere else. After
every run from empty databases, dialogs for new masters among it, its answer is the right one,
whatever stands in memory, exactly for the targets of `targetSeen`. -/
theorem masters_and_owners_protected {as : List Act} (start : w.db.NoRights)
    (run : Run Ebotula.act (fun _ _ => True) w as w') (hlogin : ∀ pLogin ∈ target, '#' ∉ pLogin)
    (hchannel : pChannel.head? = some '#') :
    (∀ env, (checkUserLevel pCmdLogin target (some pChannel)).run (performQuiet env) w' =
        some (w'.db.mayActOn pCmdLogin target pChannel, w')) ↔
      w'.db.targetSeen pCmdLogin target pChannel := by
  have recorded : Recorded w'.db :=
    run.invariant (I := fun w => Recorded w.db) (fun _ _ _ h _ hstep => h.act hstep)
      start.recorded
  cases target with
  | none =>
    refine ⟨fun h => ?_, fun ⟨_, hnone, _⟩ => nomatch hnone⟩
    -- a pointer that leads nowhere
    have hlost := h { calmEnv with unwrittenPointer := none }
    rw [run_checkUserLevel_guest] at hlost
    cases hlost
  | some pLogin =>
    have hiff (env : Env) : recordDecision env (w'.db.existDb .access (some pCmdLogin))
        (oldMode w'.db pChannel pLogin) = w'.db.mayActOn pCmdLogin (some pLogin) pChannel ↔
        w'.db.targetSeen pCmdLogin (some pLogin) pChannel :=
      recordDecision_iff recorded (key_isNick_of_notMem (hlogin pLogin rfl))
        (key_isChannel hchannel) env
    simp only [run_checkUserLevel_target, Option.some.injEq, Prod.mk.injEq, and_true, hiff]
    exact ⟨fun h => h calmEnv, fun h _ => h⟩

/-- An owner is protected from a friend: nobody who is no master may kick her. -/
theorem masters_and_owners_protected_owner : ∃ as w',
    Run Ebotula.act (fun _ _ => True) freshBot as w' ∧
    (checkUserLevel "bob" (some "alice") (some "#c")).run (performQuiet calmEnv) w' =
      some (false, w') ∧
    (checkUserLevel "root" (some "alice") (some "#c")).run (performQuiet calmEnv) w' =
      some (true, w') := by
  have computed : (receiveAll (fun _ _ => true) calmEnv freshBot ownedChannel).map
      (fun w => ((w.db.fetch .access (key "alice")), w.db.mayActOn "bob" (some "alice") "#c",
        w.db.mayActOn "root" (some "alice") "#c")) = some (none, false, true) := by
    decide +kernel
  obtain ⟨w', hw, hfacts⟩ := Option.map_eq_some_iff.mp computed
  simp only [Prod.mk.injEq] at hfacts
  obtain ⟨hnone, hbob, hroot⟩ := hfacts
  obtain ⟨es, run⟩ := run_of_receiveAll hw
  have hacts := acts_of_events run
  have seen (pCmdLogin : CStr) : w'.db.targetSeen pCmdLogin (some "alice".toList) "#c" := by
    refine ⟨_, rfl, fun hmaster => ?_⟩
    rw [Databases.isMaster, hnone] at hmaster
    cases hmaster
  have protect (pCmdLogin : CStr) :
      (checkUserLevel pCmdLogin (some "alice") (some "#c")).run (performQuiet calmEnv) w' =
        some (w'.db.mayActOn pCmdLogin (some "alice".toList) "#c", w') :=
    (masters_and_owners_protected freshBot_noRights hacts (by rintro _ ⟨⟩; decide) rfl).mpr
      (seen pCmdLogin) calmEnv
  exact ⟨_, w', hacts, hbob ▸ protect "bob", hroot ▸ protect "root"⟩

/-- The first master can be kicked by anybody; and without a target everything depends on what
stands in memory. -/
theorem first_master_not_protected : ∃ as w',
    Run Ebotula.act (fun _ _ => True) freshBot as w' ∧
    w'.db.mayActOn "alice" (some "root".toList) "#c" = false ∧
    (∀ env, (checkUserLevel "alice" (some "root") (some "#c")).run (performQuiet env) w' =
      some (true, w')) ∧
    w'.db.mayActOn "alice" none "#c" = true ∧
    (checkUserLevel "alice" none (some "#c")).run
      (performQuiet { calmEnv with unwrittenPointer := some (some "+m".toList) }) w' =
        some (false, w') := by
  have computed : (receiveAll (fun _ _ => true) calmEnv freshBot ownedChannel).map
      (fun w => (w.db.mayActOn "alice" (some "root".toList) "#c",
        oldMode w.db "#c" "root")) = some (false, some "m".toList) := by
    decide +kernel
  obtain ⟨w', hw, hfacts⟩ := Option.map_eq_some_iff.mp computed
  obtain ⟨hmay, hold⟩ := Prod.mk.inj hfacts
  obtain ⟨es, run⟩ := run_of_receiveAll hw
  refine ⟨_, w', acts_of_events run, hmay, fun env => ?_, rfl, ?_⟩
  · rw [run_checkUserLevel_target, hold]
    simp [recordDecision, charBehind, strAt]
  · rw [run_checkUserLevel_guest]
    simp [recordDecision, charBehind, strAt]

end Protection

end Ebotula
