import Ebotula.Laws.Change
import Ebotula.Laws.Sending

/-!
# What `accountmode` leaves

The longest handler of the bot. It checks its line, its caller and its target one after the
other, and any check that fails ends it there; `MsgItem.modeChange` says what is left to do when
all have passed. Then it deletes what cannot stand beside the new mode, writes or deletes one
record, and tells the server about the target if he is logged in. `accountmode_leaves` puts it
together: either nothing happened at all, or the change was made.
-/

set_option autoImplicit false

namespace Ebotula

open Library

variable {G : Type} [DbLib G] {env : Env} {pMsg : MsgItem} {w : World G} {e : Event}

/-! ## The changes of the records -/

theorem wp_secondChar {pMod : CStr} {Q : Char → World G → Prop} :
    (secondChar pMod).wp (performQuiet env) Q w ↔ Q (charBehind env pMod) w := by
  cases pMod with
  | nil => simp only [secondChar, Prog.wp_bind, wp_unwritten, Prog.wp_pure, charBehind]
  | cons c rest => simp only [secondChar, Prog.wp_pure, charBehind]

theorem run_secondChar {pMod : CStr} :
    (secondChar pMod).run (performQuiet env) w = some (charBehind env pMod, w) := by
  cases pMod <;> rfl

theorem wp_accountmodeIsMaster {oldmod : Option CStr} {Q : Bool → World G → Prop} :
    (accountmodeIsMaster oldmod).wp (performQuiet env) Q w ↔ Q (isOldMaster env oldmod) w := by
  cases oldmod with
  | none => simp only [accountmodeIsMaster, Prog.wp_pure, isOldMaster, Option.any_none]
  | some oldmod =>
    simp only [accountmodeIsMaster, Prog.wp_bind, wp_secondChar, Prog.wp_pure, isOldMaster,
      Option.any_some]

theorem wp_accountmodeClean {pLogin : CStr} {oldmod : Option CStr} {mod1 : Char}
    {Q : Unit → World G → Prop}
    (h : ∀ w', SameExcept [.access] w.db w'.db →
      w'.db.fetch .access = cleanedRights env w.db pLogin oldmod mod1 → Q () w') :
    (accountmodeClean pLogin oldmod mod1).wp (perform env) Q w := by
  simp only [accountmodeClean, Prog.wp_bind, Prog.liftM_eq, wp_perform_lift,
    wp_accountmodeIsMaster, Prog.wp_ite, wp_delDb, Prog.wp_pure]
  refine ⟨fun hm => ⟨fun hold => ?_, fun hold => ?_⟩, fun hm => ⟨fun hold => ?_, fun hold => ?_⟩⟩
  · refine h _ Databases.same_delDb ?_
    rw [cleanedRights, if_pos hm, if_pos hold, Databases.fetch_delDb]
  · refine h _ .refl ?_
    rw [cleanedRights, if_pos hm, if_neg hold]
  · refine wp_rmAccessRights fun w' same hacc => h w' same ?_
    rw [cleanedRights, if_neg hm, if_pos hold, hacc]
  · refine h _ .refl ?_
    rw [cleanedRights, if_neg hm, if_neg hold]

theorem wp_accountmodeWrite {pKey mod : CStr} {Q : Unit → World G → Prop}
    (h : ∀ w', SameExcept [.access] w.db w'.db →
      w'.db.fetch .access = Function.update (w.db.fetch .access) (key pKey)
        (if strAt mod 0 = '+' then some mod else none) → Q () w') :
    (accountmodeWrite pKey mod).wp (perform env) Q w := by
  simp only [accountmodeWrite, Prog.wp_bind, Prog.liftM_eq, wp_perform_lift, Prog.wp_ite]
  refine ⟨fun hplus => wp_quiet fun _ w₁ h₁ => ?_, fun hminus => wp_quiet fun _ w₁ h₁ => ?_⟩
  · rw [if_pos hplus] at h
    simp only [wp_addDb, wp_replaceDb, Prog.wp_pure, h₁]
    cases hold : w.db.fetch .access (key pKey) with
    | none =>
      have hacc := Databases.fetch_addDb_of_free mod (by decide) hold
      have hdone : (w.db.addDb .access (some pKey) (some mod)).1 = true := by
        rw [Databases.addDb_some, hold, Option.isSome_none, if_neg Bool.false_ne_true]
      simp only [hdone, Bool.not_true, Bool.false_eq_true, false_implies, not_false_eq_true,
        forall_const, true_and]
      exact h _ Databases.same_addDb hacc
    | some value =>
      have hheld : (w.db.fetch .access (key pKey)).isSome := by rw [hold, Option.isSome_some]
      have hacc := Databases.fetch_replaceDb_of_held mod (by decide) hheld
      simp only [Databases.addDb_some, if_pos hheld, Bool.not_false, forall_const,
        not_true_eq_false, false_implies, and_true]
      exact h _ Databases.same_replaceDb hacc
  · rw [if_neg hminus] at h
    simp only [wp_delDb, Prog.wp_pure, h₁]
    exact h _ Databases.same_delDb Databases.fetch_delDb

/-- The first character of a mode stays the first when it is read as a string. -/
theorem strAt_cString (c : Char) (s : CStr) : strAt (cString (c :: s)) 0 = c := by
  by_cases h : c = '\x00'
  · subst h
    rfl
  · rw [cString, List.takeWhile_cons, if_pos (decide_eq_true h)]
    rfl

/-! ## What the server is told -/

/-- The nickname under which an account is logged in. -/
def Databases.shownNick (dbs : Databases G) (pLogin : CStr) : Option CStr :=
  (dbs.getDb .userToNick (some pLogin)).bind getNickname

/-- The lines about the target: the mode taken back, or the new one given in place of the old. -/
def shownModes (pAccessChannel usernick : CStr) (oldmod : Option CStr) (mod : CStr) : List CStr :=
  if strAt mod 0 = '-' then [modeLine pAccessChannel mod usernick]
  else
    (match oldmod with
      | some oldmod =>
        if 'v' ∈ oldmod then [modeLine pAccessChannel "-v" usernick]
        else if !oldmod.isEmpty then [modeLine pAccessChannel "-o" usernick]
        else []
      | none => []) ++
    [modeLine pAccessChannel (if strAt mod 1 = 'v' then "+v" else "+o") usernick]

theorem shownModes_ne_nil {pAccessChannel usernick mod : CStr} {oldmod : Option CStr} :
    shownModes pAccessChannel usernick oldmod mod ≠ [] := by
  unfold shownModes
  split
  · exact List.cons_ne_nil _ _
  · exact List.append_ne_nil_of_right_ne_nil _ (List.cons_ne_nil _ _)

/-- The server is told about the target exactly if he is logged in under a nickname. -/
theorem issues_accountmodeShow {pAccessChannel pLogin mod : CStr} {oldmod : Option CStr} :
    Issues env "MODE " (accountmodeShow pAccessChannel pLogin oldmod mod) w
      ((w.db.shownNick pLogin).toList.flatMap fun usernick =>
        shownModes pAccessChannel usernick oldmod mod) := by
  unfold accountmodeShow
  refine issues_getDb ?_
  rw [Databases.shownNick]
  cases w.db.getDb .userToNick (some pLogin) with
  | none => exact .pure
  | some pNetmask =>
    refine issues_logger.after fun w' _ => ?_
    rw [Option.bind_some]
    cases getNickname pNetmask with
    | none => exact .pure
    | some usernick =>
      -- the new mode is always the last line
      have hset (w' : World G) : Issues env "MODE "
          (if strAt mod 1 = 'v' then mode pAccessChannel (some "+v") usernick
            else mode pAccessChannel (some "+o") usernick) w'
          [modeLine pAccessChannel (if strAt mod 1 = 'v' then "+v" else "+o") usernick] := by
        split
        · exact issues_mode
        · exact issues_mode
      simp only [Option.toList_some, List.flatMap_cons, List.flatMap_nil, List.append_nil]
      unfold shownModes
      split
      · exact issues_mode
      · cases oldmod with
        | none => exact hset w'
        | some oldmod =>
          dsimp only
          split
          · exact issues_mode.bind fun w'' _ => hset w''
          · split
            · exact issues_mode.bind fun w'' _ => hset w''
            · exact hset w'

section Silent

attribute [local irreducible] Prog.Calls

theorem silent_accountmodeClean {pLogin : CStr} {oldmod : Option CStr} {mod1 : Char} :
    (accountmodeClean pLogin oldmod mod1).Calls Silent := by
  have hsecond (pMod : CStr) : (secondChar pMod).Calls (fun o => Silent (.inl o)) := by
    cases pMod with
    | nil => exact .bind (.request fun _ h => nomatch h) fun _ => .pure _
    | cons c rest => exact .pure _
  have hmaster : ((accountmodeIsMaster oldmod).lift : Bot Bool).Calls Silent := by
    refine Prog.Calls.lift ?_
    cases oldmod with
    | none => exact .pure _
    | some oldmod => exact .bind (hsecond oldmod) fun _ => .pure _
  unfold accountmodeClean rmAccessRights
  simp only [Prog.liftM_eq]
  refine .bind hmaster fun oldMaster => ?_
  split
  · split
    · exact .bind (silent_write _) fun _ => .pure ()
    · exact .pure ()
  · split
    · refine .bind (silent_request nofun) fun _ => .bind (silent_write _) fun _ => ?_
      refine .bind (silent_request nofun) fun _ => .forEach fun _ => ?_
      exact .bind (silent_write _) fun _ => .pure ()
    · exact .pure ()

theorem silent_accountmodeWrite {pKey mod : CStr} :
    (accountmodeWrite pKey mod).Calls Silent := by
  unfold accountmodeWrite
  simp only [Prog.liftM_eq]
  split
  · refine .bind (silent_request nofun) fun _ => .bind (silent_write _) fun _ => ?_
    split
    · exact .bind (silent_write _) fun _ => .pure ()
    · exact .pure ()
  · exact .bind (silent_request nofun) fun _ => .bind (silent_write _) fun _ => .pure ()

end Silent

/-! ## The whole of it -/

/-- The lines about the target of a mode change. -/
def Databases.modeLines (dbs : Databases G) (pAccessChannel pLogin : CStr) (mod0 mod1 : Char) :
    List CStr :=
  (dbs.shownNick pLogin).toList.flatMap fun usernick =>
    shownModes pAccessChannel usernick (oldMode dbs pAccessChannel pLogin) (cString [mod0, mod1])

/-- The change was made, and the server was told. -/
structure Changed (env : Env) (pAccessChannel pLogin : CStr) (mod0 mod1 : Char) (w w' : World G) :
    Prop where
  same : SameExcept [.access] w.db w'.db
  access : w'.db.fetch .access = changedRights env w.db pAccessChannel pLogin mod0 mod1
  issued : w'.issued "MODE " =
    w.issued "MODE " ++ w.db.modeLines pAccessChannel pLogin mod0 mod1

/-- Nothing happened but talk. -/
structure Untouched (w w' : World G) : Prop where
  db : w'.db = w.db
  issued : w'.issued "MODE " = w.issued "MODE "

omit [DbLib G] in
theorem Untouched.trans {w₁ w₂ w₃ : World G} (h : Untouched w₁ w₂) (h' : Untouched w₂ w₃) :
    Untouched w₁ w₃ := ⟨h'.db.trans h.db, h'.issued.trans h.issued⟩

/-- A routine that sends no mode change. -/
theorem wp_talk {p : Quiet Unit} {Q : Unit → World G → Prop} (h : Issues env "MODE " p w [])
    (hQ : ∀ w', Untouched w w' → Q () w') : p.wp (performQuiet env) Q w :=
  h.wp fun w' hdb hissued => hQ w' ⟨hdb, hissued.trans (List.append_nil _)⟩

theorem wp_lift_talk {p : Quiet Unit} {Q : Unit → World G → Prop} (h : Issues env "MODE " p w [])
    (hQ : ∀ w', Untouched w w' → Q () w') : (p.lift : Bot Unit).wp (perform env) Q w :=
  (wp_perform_lift p Q w).mpr (wp_talk h hQ)

theorem Changed.after {w₁ w₂ w₃ : World G} {pAccessChannel pLogin : CStr} {mod0 mod1 : Char}
    (h : Untouched w₁ w₂) (h' : Changed env pAccessChannel pLogin mod0 mod1 w₂ w₃) :
    Changed env pAccessChannel pLogin mod0 mod1 w₁ w₃ := by
  obtain ⟨same, access, issued⟩ := h'
  exact ⟨h.db ▸ same, h.db ▸ access, by rw [issued, h.issued, h.db]⟩

theorem Changed.before {w₁ w₂ w₃ : World G} {pAccessChannel pLogin : CStr} {mod0 mod1 : Char}
    (h : Changed env pAccessChannel pLogin mod0 mod1 w₁ w₂) (h' : Untouched w₂ w₃) :
    Changed env pAccessChannel pLogin mod0 mod1 w₁ w₃ :=
  ⟨h'.db ▸ h.same, h'.db ▸ h.access, h'.issued.trans h.issued⟩

theorem wp_accountmodeApply {pAccessChannel pLogin : CStr} {mod0 mod1 : Char}
    {Q : Unit → World G → Prop}
    (h : ∀ w', Changed env pAccessChannel pLogin mod0 mod1 w w' → Q () w') :
    (accountmodeApply pAccessChannel pLogin (oldMode w.db pAccessChannel pLogin) mod0 mod1).wp
      (perform env) Q w := by
  simp only [accountmodeApply, Prog.wp_bind, Prog.liftM_eq, wp_perform_lift]
  refine wp_talk issues_logger fun w₁ h₁ => ?_
  rw [← h₁.db]
  -- the two writers send nothing
  have clean : (accountmodeClean pLogin (oldMode w₁.db pAccessChannel pLogin) mod1).wp (perform env)
      (fun _ w₂ => (SameExcept [.access] w₁.db w₂.db ∧ w₂.db.fetch .access =
        cleanedRights env w₁.db pLogin (oldMode w₁.db pAccessChannel pLogin) mod1) ∧
        w₂.sent = w₁.sent) w₁ :=
    Prog.wp_and (wp_accountmodeClean fun _ same hacc => ⟨same, hacc⟩)
      (wp_silent silent_accountmodeClean)
  refine Prog.wp_mono clean fun _ w₂ hclean => ?_
  obtain ⟨⟨same₂, hacc₂⟩, hsent₂⟩ := hclean
  have write : (accountmodeWrite (if mod1 = 'm' then pLogin else pLogin ++ pAccessChannel)
      (cString [mod0, mod1])).wp (perform env)
      (fun _ w₃ => (SameExcept [.access] w₂.db w₃.db ∧ w₃.db.fetch .access =
        Function.update (w₂.db.fetch .access)
          (key (if mod1 = 'm' then pLogin else pLogin ++ pAccessChannel))
          (if strAt (cString [mod0, mod1]) 0 = '+' then some (cString [mod0, mod1]) else none)) ∧
        w₃.sent = w₂.sent) w₂ :=
    Prog.wp_and (wp_accountmodeWrite fun _ same hacc => ⟨same, hacc⟩)
      (wp_silent silent_accountmodeWrite)
  refine Prog.wp_mono write fun _ w₃ hwrite => ?_
  obtain ⟨⟨same₃, hacc₃⟩, hsent₃⟩ := hwrite
  have same := same₂.trans same₃
  have hnick : w₃.db.shownNick pLogin = w₁.db.shownNick pLogin := by
    simp only [Databases.shownNick, Databases.getDb_some, same.fetch (d := .userToNick) (by decide)]
  have hshow : Issues env "MODE " (accountmodeShow pAccessChannel pLogin
      (oldMode w₁.db pAccessChannel pLogin) (cString [mod0, mod1])) w₃ _ := issues_accountmodeShow
  refine hshow.wp fun w₄ hdb hissued => h w₄ (.after h₁ ⟨hdb ▸ same, ?_, ?_⟩)
  · rw [hdb, hacc₃, hacc₂, strAt_cString, changedRights]
  · rw [hissued, World.issued, World.issued, hsent₃, hsent₂, hnick, Databases.modeLines]

theorem wp_accountmodeSwitch {pAccessChannel pLogin pPos : CStr} {Q : Unit → World G → Prop}
    (refused : pMsg.effectiveMode env pPos = none → ∀ w', Untouched w w' → Q () w')
    (changed : ∀ mod0 mod1 w', pMsg.effectiveMode env pPos = some (mod0, mod1) →
      Changed env pAccessChannel pLogin mod0 mod1 w w' → Q () w') :
    (accountmodeSwitch pMsg pAccessChannel pLogin (oldMode w.db pAccessChannel pLogin) pPos).wp
      (perform env) Q w := by
  -- with a mode of two characters the way is the same, whichever the second is
  have apply {mod1 : Char} {w₁ : World G} (h₁ : Untouched w w₁)
      (hmode : pMsg.effectiveMode env pPos = some (strAt pPos 0, mod1)) : (do
        accountmodeApply pAccessChannel pLogin (oldMode w.db pAccessChannel pLogin)
          (strAt pPos 0) mod1
        answer pMsg "The user mode of the account %s is changed." [.str pLogin] : Bot Unit).wp
        (perform env) Q w₁ := by
    rw [← h₁.db]
    simp only [Prog.wp_bind, Prog.liftM_eq, wp_perform_lift]
    refine wp_accountmodeApply fun w₂ hchanged => ?_
    refine wp_talk (issues_answer noTalk_mode [.str none] (by decide +kernel) rfl) fun w₃ h₃ => ?_
    exact changed _ _ w₃ hmode ((Changed.after h₁ hchanged).before h₃)
  unfold accountmodeSwitch
  dsimp only
  rw [Prog.wp_ite]
  refine ⟨fun hsign => (Prog.wp_pure () _ _).mpr
    (refused (by rw [MsgItem.effectiveMode, if_pos hsign]) w ⟨rfl, rfl⟩), fun hsign => ?_⟩
  split
  · next hv => exact apply ⟨rfl, rfl⟩ (by simp only [MsgItem.effectiveMode, if_neg hsign, hv])
  · next hv => exact apply ⟨rfl, rfl⟩ (by simp only [MsgItem.effectiveMode, if_neg hsign, hv])
  · next hv =>
    rw [Prog.wp_ite]
    refine ⟨fun hlevel => ?_, fun hlevel =>
      apply ⟨rfl, rfl⟩ (by simp only [MsgItem.effectiveMode, if_neg hsign, hv, if_neg hlevel])⟩
    rw [Prog.wp_bind, Prog.liftM_eq, wp_perform_lift]
    refine wp_talk (issues_answer noTalk_mode [] (by decide +kernel) rfl) fun w₁ h₁ => ?_
    rw [Prog.wp_bind, Prog.liftM_eq, wp_perform_lift, wp_unwritten]
    exact apply h₁ (by simp only [MsgItem.effectiveMode, if_neg hsign, hv, if_pos hlevel])
  · next c hv ho hm =>
    refine wp_lift_talk (issues_answer noTalk_mode [.chr ' '] (by decide +kernel) rfl)
      (refused ?_)
    simp only [MsgItem.effectiveMode, if_neg hsign]

/-- The target of `accountmode` is looked up, and the guard of a master is checked. -/
theorem wp_accountmodeTarget {pAccessChannel pLogin pPos : CStr} {Q : Unit → World G → Prop}
    (refused : (w.db.fetch .access (key (pLogin ++ pAccessChannel)) = none ∧
        'm' ∈ (w.db.fetch .access (key pLogin)).getD [] ∧ pMsg.userLevel ≠ .masterLevel) ∨
        pMsg.effectiveMode env pPos = none → ∀ w', Untouched w w' → Q () w')
    (changed : ∀ mod0 mod1 w',
      (w.db.fetch .access (key (pLogin ++ pAccessChannel)) = none →
        'm' ∈ (w.db.fetch .access (key pLogin)).getD [] → pMsg.userLevel = .masterLevel) →
      pMsg.effectiveMode env pPos = some (mod0, mod1) →
      Changed env pAccessChannel pLogin mod0 mod1 w w' → Q () w') :
    (accountmodeTarget pMsg pAccessChannel pLogin pPos).wp (perform env) Q w := by
  simp only [accountmodeTarget, Prog.wp_bind, Prog.liftM_eq, wp_perform_lift, wp_getDb,
    Databases.getDb_some]
  cases hold : w.db.fetch .access (key (pLogin ++ pAccessChannel)) with
  | some oldmod =>
    simp only [Prog.wp_bind, wp_perform_lift]
    refine wp_talk issues_logger fun w₁ h₁ => ?_
    have hmod : some oldmod = oldMode w₁.db pAccessChannel pLogin := by
      rw [oldMode, h₁.db, hold, Option.some_or]
    rw [hmod]
    refine wp_accountmodeSwitch (fun hmode w₂ h₂ => refused (.inr hmode) w₂ (h₁.trans h₂)) ?_
    intro mod0 mod1 w₂ hmode hchanged
    refine changed mod0 mod1 w₂ (fun h => ?_) hmode (.after h₁ hchanged)
    rw [hold] at h
    cases h
  | none =>
    simp only [Prog.wp_bind, wp_perform_lift, wp_getDb, Databases.getDb_some, Prog.wp_ite]
    refine ⟨fun hguard => ?_, fun hguard => ?_⟩
    · exact wp_talk (issues_answer noTalk_mode [] (by decide +kernel) rfl)
        (refused (.inl ⟨hold, hguard⟩))
    · refine wp_talk issues_logger fun w₁ h₁ => ?_
      have hmod : w.db.fetch .access (key pLogin) = oldMode w₁.db pAccessChannel pLogin := by
        rw [oldMode, h₁.db, hold, Option.none_or]
      rw [hmod]
      refine wp_accountmodeSwitch (fun hmode w₂ h₂ => refused (.inr hmode) w₂ (h₁.trans h₂)) ?_
      intro mod0 mod1 w₂ hmode hchanged
      refine changed mod0 mod1 w₂ (fun _ hm => ?_) hmode (.after h₁ hchanged)
      exact not_ne_iff.mp fun hlevel => hguard ⟨hm, hlevel⟩

theorem issues_answerNoChannel : Issues env "MODE " (answerNoChannel pMsg) w [] := by
  unfold answerNoChannel
  exact issues_answer noTalk_mode [] (by decide +kernel) rfl

theorem issues_answerNoParameters : Issues env "MODE " (answerNoParameters pMsg) w [] := by
  unfold answerNoParameters
  exact issues_answer noTalk_mode [] (by decide +kernel) rfl

/-- The last checks of `accountmode`: the target has an account, it is not the caller, and the
guard of a master holds. -/
theorem wp_accountmodeAsked {pAccessChannel pLogin pPos accesslogin : CStr}
    {Q : Unit → World G → Prop}
    (refused : (pLogin ≠ accesslogin → (w.db.fetch .user (key pLogin)).isSome →
        (w.db.fetch .access (key (pLogin ++ pAccessChannel)) = none →
          'm' ∈ (w.db.fetch .access (key pLogin)).getD [] → pMsg.userLevel = .masterLevel) →
        pMsg.effectiveMode env pPos ≠ none → False) → ∀ w', Untouched w w' → Q () w')
    (changed : ∀ mod0 mod1 w', pLogin ≠ accesslogin → (w.db.fetch .user (key pLogin)).isSome →
      (w.db.fetch .access (key (pLogin ++ pAccessChannel)) = none →
        'm' ∈ (w.db.fetch .access (key pLogin)).getD [] → pMsg.userLevel = .masterLevel) →
      pMsg.effectiveMode env pPos = some (mod0, mod1) →
      Changed env pAccessChannel pLogin mod0 mod1 w w' → Q () w') :
    (do
      if !(← existDb .user (some pLogin)) then
        answer pMsg "Couldn't find the account %s." [.str pLogin]
      else if pLogin = accesslogin then answer pMsg "You can't modify yourself" []
      else accountmodeTarget pMsg pAccessChannel pLogin pPos : Bot Unit).wp (perform env) Q w := by
  simp only [Prog.wp_bind, Prog.liftM_eq, wp_perform_lift, wp_existDb, Prog.wp_ite,
    Databases.existDb_some, Bool.not_eq_true', Bool.not_eq_false]
  refine ⟨fun huser => ?_, fun huser => ⟨fun hself => ?_, fun hother => ?_⟩⟩
  · refine wp_talk (issues_answer noTalk_mode [.str none] (by decide +kernel) rfl)
      (refused fun _ huser' _ _ => ?_)
    rw [huser] at huser'
    cases huser'
  · exact wp_talk (issues_answer noTalk_mode [] (by decide +kernel) rfl)
      (refused fun hother _ _ _ => hother hself)
  · refine wp_accountmodeTarget (fun hrefused => refused fun _ _ hmaster hmode => ?_)
      fun mod0 mod1 w' => changed mod0 mod1 w' hother huser
    rcases hrefused with ⟨hnone, hm, hlevel⟩ | hnone
    · exact hlevel (hmaster hnone hm)
    · exact hmode hnone

/-- `accountmode` stops at the first check that fails, or makes the change of its line. -/
theorem wp_accountmode_cases {Q : Unit → World G → Prop}
    (refused : pMsg.modeChange env w.db = none → ∀ w', Untouched w w' → Q () w')
    (changed : ∀ c w', pMsg.modeChange env w.db = some c →
      Changed env c.pAccessChannel c.pLogin c.mod0 c.mod1 w w' → Q () w') :
    (accountmode pMsg).wp (perform env) Q w := by
  have unasked (h : pMsg.modeRequest = none) : pMsg.modeChange env w.db = none := by
    rw [MsgItem.modeChange, h]
    rfl
  unfold accountmode
  cases hchan : pMsg.pAccessChannel with
  | none =>
    refine wp_lift_talk issues_answerNoChannel (refused (unasked ?_))
    rw [MsgItem.modeRequest, hchan]
    rfl
  | some pAccessChannel =>
    simp only [Prog.wp_bind, Prog.liftM_eq, wp_perform_lift, wp_getDb]
    cases hissuer : w.db.getDb .nickToUser pMsg.pNetmask with
    | none =>
      refine (Prog.wp_pure () _ _).mpr (refused ?_ w ⟨rfl, rfl⟩)
      rw [MsgItem.modeChange, hissuer]
      cases pMsg.modeRequest <;> rfl
    | some accesslogin =>
      simp only [Prog.wp_bind, wp_perform_lift, wp_existDb, Prog.wp_ite, Databases.existDb_some]
      refine ⟨fun hchannel => ?_, fun hchannel => ?_⟩
      · rw [Bool.not_eq_true'] at hchannel
        refine wp_talk (issues_answer noTalk_mode [] (by decide +kernel) rfl) (refused ?_)
        refine Option.eq_none_iff_forall_ne_some.mpr fun c hc => ?_
        obtain ⟨pPos, _, hrequest, -, -, hknown, -⟩ := modeChange_eq_some hc
        obtain rfl := Option.some.inj (hchan.symm.trans (modeRequest_eq_some hrequest).1)
        rw [hchannel] at hknown
        cases hknown
      rw [Bool.not_eq_true', Bool.not_eq_false] at hchannel
      cases hparam : pMsg.parameters with
      | none =>
        refine wp_lift_talk issues_answerNoParameters (refused (unasked ?_))
        rw [MsgItem.modeRequest, hchan, hparam]
        rfl
      | some pParameter =>
        simp only [Prog.wp_bind, wp_perform_lift]
        refine wp_talk issues_logger fun w₁ h₁ => ?_
        cases hcut : cutFirst ' ' pParameter with
        | none =>
          refine wp_lift_talk issues_answerNoParameters fun w₂ h₂ =>
            refused (unasked ?_) w₂ (h₁.trans h₂)
          simp only [MsgItem.modeRequest, hchan, hparam, hcut, Option.bind_eq_bind,
            Option.bind_some, Option.bind_none]
        | some cut =>
          obtain ⟨pLogin, pPos⟩ := cut
          have hrequest : pMsg.modeRequest = some (pAccessChannel, pLogin, pPos) := by
            simp only [MsgItem.modeRequest, hchan, hparam, hcut, Option.bind_eq_bind,
              Option.bind_some, Option.pure_def]
          refine wp_accountmodeAsked (w := w₁) (fun hrefused w₂ h₂ => ?_) ?_
          · rw [h₁.db] at hrefused
            refine refused (Option.eq_none_iff_forall_ne_some.mpr fun c hc => ?_) w₂ (h₁.trans h₂)
            obtain ⟨_, _, hrequest', hissuer', hother, -, huser, hmaster, hmode⟩ :=
              modeChange_eq_some hc
            rw [hrequest] at hrequest'
            rw [hissuer] at hissuer'
            cases hrequest'
            cases hissuer'
            exact hrefused hother huser hmaster fun hnone => by
              rw [hnone] at hmode
              cases hmode
          · rw [h₁.db]
            intro mod0 mod1 w₂ hother huser hmaster hmode hchanged
            exact changed _ _ (modeChange_eq hrequest hissuer hother hchannel huser hmaster hmode)
              (.after h₁ hchanged)

theorem wp_accountmode : (accountmode pMsg).wp (perform env)
    (fun _ w' => Change w.db (.command env .accountMode pMsg) w'.db) w := by
  refine wp_accountmode_cases (fun _ w' h => .of_eq h.db) fun c w' hc hchanged => ?_
  obtain ⟨pPos, accesslogin, hrequest, hissuer, hother, hchannel, huser, hmaster, hmode⟩ :=
    modeChange_eq_some hc
  exact .accountmode hrequest hissuer hother hchannel huser hmaster hmode hchanged.same
    hchanged.access

end Ebotula
