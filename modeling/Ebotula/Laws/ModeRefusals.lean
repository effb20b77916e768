import Ebotula.Laws.Names

/-!
# Refused mode changes

There are many reasons for which `accountmode` refuses, and most of its checks leave the function.
One does not: whoever asks for the letter `m` and is no master is told that he may not, and then
the function goes on with a letter that it has not written. Two others do not cover what they are
about. A target who is a master is looked at as one only where he has no record in the channel,
and the issuer himself is known by the spelling of his login alone, which the databases do not
look at. So a refused request leaves everything as it was where an earlier check stops it, or
where there is nothing left to change.
-/

set_option autoImplicit false

namespace Ebotula

open Library

variable {G : Type} [DbLib G] {env : Env} {pMsg : MsgItem} {w w' : World G} {dbs : Databases G}

/-! ## The handler comes back -/

section Total

attribute [local irreducible] Prog.Calls

theorem total_secondChar {pMod : CStr} : (secondChar pMod).Calls Op.Answers := by
  cases pMod with
  | nil => exact .bind (.request trivial) fun _ => .pure _
  | cons c rest => exact .pure _

theorem total_accountmodeClean {pLogin : CStr} {oldmod : Option CStr} {mod1 : Char} :
    Total (accountmodeClean pLogin oldmod mod1) := by
  have hmaster : Total ((accountmodeIsMaster oldmod).lift) := by
    refine Prog.Calls.lift (S := quietSig) (T := writeSig) ?_
    cases oldmod with
    | none => exact .pure _
    | some oldmod => exact .bind total_secondChar fun _ => .pure _
  unfold accountmodeClean rmAccessRights
  simp only [Prog.liftM_eq]
  refine .bind hmaster fun oldMaster => ?_
  split
  · split
    · exact .bind total_delDb fun _ => .pure ()
    · exact .pure ()
  · split
    · refine .bind total_logger fun _ => .bind total_delDb fun _ => ?_
      refine .bind (total_request trivial) fun _ => .forEach fun _ => ?_
      exact .bind total_delDb fun _ => .pure ()
    · exact .pure ()

theorem total_accountmodeWrite {pKey mod : CStr} : Total (accountmodeWrite pKey mod) := by
  unfold accountmodeWrite
  simp only [Prog.liftM_eq]
  split
  · refine .bind total_logger fun _ => .bind (calls_addDb trivial) fun _ => ?_
    split
    · exact .bind (calls_replaceDb trivial) fun _ => .pure ()
    · exact .pure ()
  · exact .bind total_logger fun _ => .bind total_delDb fun _ => .pure ()

theorem total_accountmodeShow {pAccessChannel pLogin mod : CStr} {oldmod : Option CStr} :
    Total (accountmodeShow pAccessChannel pLogin oldmod mod).lift := by
  refine Prog.Calls.lift (S := quietSig) (T := writeSig) ?_
  have hmode {pMod : CStr} {usernick : CStr} :
      (mode pAccessChannel (some pMod) usernick).Calls Op.Answers := talks_mode.answered
  unfold accountmodeShow
  refine .bind (.request (S := quietSig) trivial) fun pNetmask => ?_
  cases pNetmask with
  | none => exact .pure ()
  | some pNetmask =>
    refine .bind (.request (S := quietSig) trivial) fun _ => ?_
    cases getNickname pNetmask with
    | none => exact .pure ()
    | some usernick =>
      have hset : (if strAt mod 1 = 'v' then mode pAccessChannel (some "+v") usernick
          else mode pAccessChannel (some "+o") usernick).Calls Op.Answers := .ite hmode hmode
      refine .ite hmode ?_
      cases oldmod with
      | none => exact hset
      | some oldmod =>
        refine .ite (.bind hmode fun _ => hset) (.ite (.bind hmode fun _ => hset) hset)

theorem total_accountmodeSwitch {pAccessChannel pLogin pPos : CStr} {oldmod : Option CStr} :
    Total (accountmodeSwitch pMsg pAccessChannel pLogin oldmod pPos) := by
  have hchange (mod1 : Char) : Total (do
      accountmodeApply pAccessChannel pLogin oldmod (strAt pPos 0) mod1
      answer pMsg "The user mode of the account %s is changed." [.str pLogin]) := by
    simp only [Prog.liftM_eq]
    refine .bind ?_ fun _ => ?_
    · unfold accountmodeApply
      simp only [Prog.liftM_eq]
      refine .bind total_logger fun _ => .bind total_accountmodeClean fun _ => ?_
      exact .bind total_accountmodeWrite fun _ => total_accountmodeShow
    · exact Talks.total (talks_answer [.str none] (by decide +kernel) rfl)
  unfold accountmodeSwitch
  dsimp only
  split
  · exact .pure ()
  · split
    · exact hchange 'v'
    · exact hchange 'o'
    · split
      · simp only [Prog.liftM_eq]
        refine .bind (talks_answer [] (by decide +kernel) rfl).total fun _ => ?_
        exact .bind (total_request trivial) fun _ => hchange _
      · exact hchange 'm'
    · exact (talks_answer [.chr ' '] (by decide +kernel) rfl).total

theorem total_accountmode : Total (accountmode pMsg) := by
  have htarget {pAccessChannel pLogin pPos : CStr} :
      Total (accountmodeTarget pMsg pAccessChannel pLogin pPos) := by
    unfold accountmodeTarget
    simp only [Prog.liftM_eq]
    refine .bind (total_request trivial) fun oldmod => ?_
    split
    · exact .bind total_logger fun _ => total_accountmodeSwitch
    · refine .bind (total_request trivial) fun oldmod => ?_
      split
      · exact (talks_answer [] (by decide +kernel) rfl).total
      · exact .bind total_logger fun _ => total_accountmodeSwitch
  unfold accountmode
  simp only [Prog.liftM_eq]
  split
  · exact Talks.total (talks_answer [] (by decide +kernel) rfl)
  · refine .bind (total_request trivial) fun accesslogin => ?_
    split
    · exact .pure ()
    · refine .bind (total_request trivial) fun held => ?_
      split
      · exact (talks_answer [] (by decide +kernel) rfl).total
      · split
        · exact Talks.total (talks_answer [] (by decide +kernel) rfl)
        · refine .bind total_logger fun _ => ?_
          split
          · exact Talks.total (talks_answer [] (by decide +kernel) rfl)
          · refine .bind (total_request trivial) fun known => ?_
            split
            · exact (talks_answer [.str none] (by decide +kernel) rfl).total
            · split
              · exact (talks_answer [] (by decide +kernel) rfl).total
              · exact htarget

end Total

/-- What `accountmode` leaves, whichever way it goes. -/
theorem accountmode_outcome (env : Env) (pMsg : MsgItem) (w : World G) :
    ∃ w', (accountmode pMsg).run (perform env) w = some ((), w') ∧
      match pMsg.modeChange env w.db with
      | none => Untouched w w'
      | some c => Changed env c.pAccessChannel c.pLogin c.mod0 c.mod1 w w' := by
  obtain ⟨⟨⟨⟩, w'⟩, hrun⟩ := total_accountmode.run env w
  have leaves : (accountmode pMsg).wp (perform env) (fun _ w' =>
      match pMsg.modeChange env w.db with
      | none => Untouched w w'
      | some c => Changed env c.pAccessChannel c.pLogin c.mod0 c.mod1 w w') w := by
    refine wp_accountmode_cases (fun hnone w'' hw => ?_) fun c w'' hc hchanged => ?_
    · rw [hnone]
      exact hw
    · rw [hc]
      exact hchanged
  exact ⟨w', hrun, leaves () w' hrun⟩

/-! ## When nothing is left to change -/

/-- The key of the record that a mode change is about. -/
def ModeChange.pKey (c : ModeChange) : CStr :=
  if c.mod1 = 'm' then c.pLogin else c.pLogin ++ c.pAccessChannel

/-- The record it leaves there. -/
def ModeChange.record (c : ModeChange) : Option CStr :=
  if c.mod0 = '+' then some (cString [c.mod0, c.mod1]) else none

/-- The rights after a mode change. -/
def ModeChange.rights (c : ModeChange) (env : Env) (dbs : Databases G) : Key → Option CStr :=
  changedRights env dbs c.pAccessChannel c.pLogin c.mod0 c.mod1

/-- The target's record already is as the change would leave it, and he has none of the other
kind that would be deleted. -/
def ModeChange.Done (c : ModeChange) (dbs : Databases G) : Prop :=
  (∀ m ∈ oldMode dbs c.pAccessChannel c.pLogin, m ≠ [] ∧ (strAt m 1 = 'm' ↔ c.mod1 = 'm')) ∧
    dbs.fetch .access (key c.pKey) = c.record

theorem Key.ne_append_channel {u c : Key} (hc : c.IsChannel) : u ≠ u ++ c := by
  intro h
  have hval := congrArg Subtype.val h
  rw [Key.val_append, hc.val_eq] at hval
  have hlength := congrArg List.length hval
  rw [List.length_append, List.length_cons] at hlength
  omega

/-- On one machine the rights stay as they are if the old mode is of the kind of the new, so that
nothing is deleted, and the record is there already or is not there to be deleted. -/
theorem ModeChange.rights_eq_iff {c : ModeChange} (hhead : c.pAccessChannel.head? = some '#')
    (hchannel : (dbs.fetch .channel (key c.pAccessChannel)).isSome) :
    c.rights env dbs = dbs.fetch .access ↔
      (∀ m ∈ oldMode dbs c.pAccessChannel c.pLogin, charBehind env m = 'm' ↔ c.mod1 = 'm') ∧
        dbs.fetch .access (key c.pKey) = c.record := by
  have hne : key c.pLogin ≠ key (c.pLogin ++ c.pAccessChannel) :=
    key_append _ _ ▸ Key.ne_append_channel (key_isChannel hhead)
  -- a record that is written does not make the target a master of the other kind
  have hrecord {m : CStr} (h : c.record = some m) : charBehind env m = 'm' ↔ c.mod1 = 'm' := by
    rw [ModeChange.record] at h
    split at h
    · next hplus =>
      cases h
      rw [hplus, charBehind_right]
    · cases h
  unfold ModeChange.rights ModeChange.pKey changedRights
  rw [show (if c.mod0 = '+' then some (cString [c.mod0, c.mod1]) else none) = c.record from rfl]
  cases hold : oldMode dbs c.pAccessChannel c.pLogin with
  | none =>
    have hclean : cleanedRights env dbs c.pLogin none c.mod1 = dbs.fetch .access := by
      simp [cleanedRights, isOldMaster]
    rw [hclean, Function.update_eq_self_iff]
    simp [eq_comm]
  | some m =>
    simp only [Option.mem_def, Option.some.injEq, forall_eq']
    by_cases hkind : charBehind env m = 'm' ↔ c.mod1 = 'm'
    · have hclean : cleanedRights env dbs c.pLogin (some m) c.mod1 = dbs.fetch .access := by
        by_cases hm : c.mod1 = 'm' <;> simp [cleanedRights, isOldMaster, hkind, hm]
      rw [hclean, Function.update_eq_self_iff]
      simp [hkind, eq_comm]
    · refine ⟨fun heq => absurd ?_ hkind, fun h => absurd h.1 hkind⟩
      -- the old record was not deleted, so it is the one that was written
      have hboth := hold
      rw [oldMode] at hboth
      by_cases hm : c.mod1 = 'm'
      · have hnot : charBehind env m ≠ 'm' := fun h => hkind (iff_of_true h hm)
        simp only [if_pos hm] at heq
        have hmem : key (c.pLogin ++ c.pAccessChannel) ∈
            rightKeys (dbs.listDb .channel) c.pLogin := by
          refine List.mem_cons_of_mem _
            (List.mem_map.mpr ⟨_, Databases.val_mem_listDb hchannel, ?_⟩)
          rw [key_append, key_append, key_val]
        have hgone := congrFun heq (key (c.pLogin ++ c.pAccessChannel))
        rw [Function.update_of_ne hne.symm, cleanedRights, if_neg (not_not_intro hm),
          if_pos (by simp [isOldMaster, hnot]), dropKeys_of_mem hmem] at hgone
        rw [← hgone, Option.none_or] at hboth
        have hwritten := congrFun heq (key c.pLogin)
        rw [Function.update_self, hboth] at hwritten
        exact hrecord hwritten
      · have hmaster : charBehind env m = 'm' := by
          by_contra h
          exact hkind (iff_of_false h hm)
        simp only [if_neg hm] at heq
        have hgone := congrFun heq (key c.pLogin)
        rw [Function.update_of_ne hne, cleanedRights, if_pos hm,
          if_pos (by simp [isOldMaster, hmaster]), Function.update_self] at hgone
        rw [← hgone, Option.or_none] at hboth
        have hwritten := congrFun heq (key (c.pLogin ++ c.pAccessChannel))
        rw [Function.update_self, hboth] at hwritten
        exact hrecord hwritten

/-- On every machine. -/
theorem ModeChange.rights_eq_forall {c : ModeChange} (hhead : c.pAccessChannel.head? = some '#')
    (hchannel : (dbs.fetch .channel (key c.pAccessChannel)).isSome) :
    (∀ env, c.rights env dbs = dbs.fetch .access) ↔ c.Done dbs := by
  simp only [rights_eq_iff hhead hchannel, Done]
  refine ⟨fun h => ⟨fun m hm => ?_, (h calmEnv).2⟩, fun h env => ⟨fun m hm => ?_, h.2⟩⟩
  · cases m with
    | nil =>
      -- an empty record is that of a master or not, as the byte behind it has it
      have hcalm := (h calmEnv).1 [] hm
      have hmaster := (h { calmEnv with unwritten := fun _ => ['m'] }).1 [] hm
      exact absurd (hmaster.trans hcalm.symm) (by decide)
    | cons a m => exact ⟨List.cons_ne_nil _ _, (h calmEnv).1 (a :: m) hm⟩
  · obtain ⟨hne, hkind⟩ := h.1 m hm
    cases m with
    | nil => exact absurd rfl hne
    | cons a m => exact hkind

/-! ## The change a line asks for -/

/-- The mode change that a line asks for, if it passes all checks but the last one, which does not
leave the function. -/
def MsgItem.askedChange (pMsg : MsgItem) (dbs : Databases G) : Option ModeChange := do
  let (pAccessChannel, pLogin, pPos) ← pMsg.modeRequest
  let accesslogin ← dbs.getDb .nickToUser pMsg.pNetmask
  let refused := (dbs.fetch .access (key (pLogin ++ pAccessChannel))).isNone ∧
    'm' ∈ (dbs.fetch .access (key pLogin)).getD [] ∧ pMsg.userLevel ≠ .masterLevel
  if (strAt pPos 0 = '+' ∨ strAt pPos 0 = '-') ∧
      (strAt pPos 1 = 'v' ∨ strAt pPos 1 = 'o' ∨ strAt pPos 1 = 'm') ∧
      dbs.existDb .channel (some pAccessChannel) ∧ dbs.existDb .user (some pLogin) ∧
      pLogin ≠ accesslogin ∧ ¬ refused then
    some ⟨pAccessChannel, pLogin, strAt pPos 0, strAt pPos 1⟩
  else none

/-- What becomes of it on a machine: whoever asks for `m` and is no master gets another letter. -/
def ModeChange.made (c : ModeChange) (userLevel : UserLevel) (env : Env) : ModeChange :=
  if c.mod1 = 'm' ∧ userLevel ≠ .masterLevel then
    { c with mod1 := strAt (env.unwritten .accountmodeMod) 0 }
  else c

theorem MsgItem.effectiveMode_eq {pPos : CStr} (hsign : strAt pPos 0 = '+' ∨ strAt pPos 0 = '-')
    (hletter : strAt pPos 1 = 'v' ∨ strAt pPos 1 = 'o' ∨ strAt pPos 1 = 'm') :
    pMsg.effectiveMode env pPos =
      some (strAt pPos 0, if strAt pPos 1 = 'm' ∧ pMsg.userLevel ≠ .masterLevel then
        strAt (env.unwritten .accountmodeMod) 0 else strAt pPos 1) := by
  have hsign' : ¬ (strAt pPos 0 ≠ '+' ∧ strAt pPos 0 ≠ '-') := by tauto
  rw [effectiveMode]
  simp only [if_neg hsign']
  rcases hletter with h | h | h <;> simp only [h]
  · simp
  · simp
  · by_cases hlevel : pMsg.userLevel = .masterLevel <;> simp [hlevel]

theorem MsgItem.effectiveMode_none {pPos : CStr}
    (h : ¬ ((strAt pPos 0 = '+' ∨ strAt pPos 0 = '-') ∧
      (strAt pPos 1 = 'v' ∨ strAt pPos 1 = 'o' ∨ strAt pPos 1 = 'm'))) :
    pMsg.effectiveMode env pPos = none := by
  rw [effectiveMode]
  split
  · rfl
  · next hsign =>
    have hletter : ¬ (strAt pPos 1 = 'v' ∨ strAt pPos 1 = 'o' ∨ strAt pPos 1 = 'm') :=
      fun hletter => h ⟨by tauto, hletter⟩
    simp only [not_or] at hletter
    split
    · next hv => exact absurd hv hletter.1
    · next ho => exact absurd ho hletter.2.1
    · next hm => exact absurd hm hletter.2.2
    · rfl

theorem MsgItem.modeChange_of_asked (pMsg : MsgItem) (env : Env) (dbs : Databases G) :
    pMsg.modeChange env dbs = (pMsg.askedChange dbs).map (·.made pMsg.userLevel env) := by
  unfold modeChange askedChange
  cases hrequest : pMsg.modeRequest with
  | none => rfl
  | some request =>
    obtain ⟨pAccessChannel, pLogin, pPos⟩ := request
    cases hissuer : dbs.getDb .nickToUser pMsg.pNetmask with
    | none => rfl
    | some accesslogin =>
      simp only [Option.bind_eq_bind, Option.bind_some]
      by_cases hmode : (strAt pPos 0 = '+' ∨ strAt pPos 0 = '-') ∧
          (strAt pPos 1 = 'v' ∨ strAt pPos 1 = 'o' ∨ strAt pPos 1 = 'm')
      · rw [effectiveMode_eq hmode.1 hmode.2, Option.bind_some]
        simp only [hmode.1, hmode.2, true_and]
        split
        · simp only [Option.map_some, ModeChange.made]
          split <;> rfl
        · rfl
      · rw [effectiveMode_none hmode, Option.bind_none]
        rw [if_neg fun h => hmode ⟨h.1, h.2.1⟩]
        rfl

/-- The change asked for comes to nothing on any machine. -/
def ModeChange.Void (c : ModeChange) (userLevel : UserLevel) (dbs : Databases G) : Prop :=
  if c.mod1 = 'm' ∧ userLevel ≠ .masterLevel then
    c.mod0 = '-' ∧ dbs.fetch .access (key c.pLogin) = none ∧
      dbs.fetch .access (key (c.pLogin ++ c.pAccessChannel)) = none
  else c.Done dbs

/-- A machine that finds a letter where none was written. -/
def letterEnv (letter : Char) : Env := { calmEnv with unwritten := fun _ => [letter] }

theorem ModeChange.made_rights_iff {c : ModeChange} {userLevel : UserLevel}
    (hsign : c.mod0 = '+' ∨ c.mod0 = '-') (hhead : c.pAccessChannel.head? = some '#')
    (hchannel : (dbs.fetch .channel (key c.pAccessChannel)).isSome) :
    (∀ env, (c.made userLevel env).rights env dbs = dbs.fetch .access) ↔
      c.Void userLevel dbs := by
  unfold Void made
  split
  · -- the letter is any
    have hletter (env : Env) (letter : Char) :
        ({ c with mod1 := letter } : ModeChange).rights env dbs = dbs.fetch .access ↔ _ :=
      rights_eq_iff hhead hchannel
    refine ⟨fun h => ?_, fun ⟨hminus, hown, hright⟩ env => ?_⟩
    · have hwritten (letter : Char) := ((hletter _ letter).mp (h (letterEnv letter))).2
      have hright (letter : Char) (h : letter ≠ 'm') :
          dbs.fetch .access (key (c.pLogin ++ c.pAccessChannel)) =
            if c.mod0 = '+' then some (cString [c.mod0, letter]) else none := by
        have hwritten := hwritten letter
        rwa [pKey, if_neg h] at hwritten
      rcases hsign with hplus | hminus
      · -- no record is that of two letters
        have hv := hright 'v' (by decide)
        have hx := hright 'x' (by decide)
        rw [hv, hplus] at hx
        exact absurd hx (by decide)
      · have hno : ¬ c.mod0 = '+' := by rw [hminus]; decide
        have hown := hwritten 'm'
        have hv := hright 'v' (by decide)
        rw [pKey, if_pos rfl, record, if_neg hno] at hown
        rw [if_neg hno] at hv
        exact ⟨hminus, hown, hv⟩
    · have hno : ¬ c.mod0 = '+' := by rw [hminus]; decide
      refine (hletter env _).mpr ⟨fun m hm => ?_, ?_⟩
      · simp [oldMode, hown, hright] at hm
      · rw [record, if_neg hno, pKey]
        split
        · exact hown
        · exact hright
  · exact rights_eq_forall hhead hchannel

/-- What the change asked for has passed. -/
theorem askedChange_eq_some {c : ModeChange} (h : pMsg.askedChange dbs = some c) :
    (c.mod0 = '+' ∨ c.mod0 = '-') ∧ c.pAccessChannel.head? = some '#' ∧
      (dbs.fetch .channel (key c.pAccessChannel)).isSome ∧
      (dbs.fetch .user (key c.pLogin)).isSome := by
  obtain ⟨⟨pAccessChannel, pLogin, pPos⟩, hrequest, h⟩ := Option.bind_eq_some_iff.mp h
  obtain ⟨accesslogin, -, h⟩ := Option.bind_eq_some_iff.mp h
  dsimp only at h
  split at h
  · next hguards =>
    obtain ⟨hsign, -, hchannel, huser, -⟩ := hguards
    cases h
    exact ⟨hsign, modeRequest_head hrequest, hchannel, huser⟩
  · cases h

/-- The databases after `accountmode`, as far as the rights go, and the server. -/
theorem accountmode_asked (env : Env) (pMsg : MsgItem) (w : World G) :
    ∃ w', (accountmode pMsg).run (perform env) w = some ((), w') ∧
      match pMsg.askedChange w.db with
      | none => Untouched w w'
      | some c =>
        w'.db.fetch .access = (c.made pMsg.userLevel env).rights env w.db ∧
          (w'.issued "MODE " = w.issued "MODE " ↔ w.db.shownNick c.pLogin = none) := by
  obtain ⟨w', hrun, hleaves⟩ := accountmode_outcome env pMsg w
  refine ⟨w', hrun, ?_⟩
  rw [pMsg.modeChange_of_asked] at hleaves
  cases hasked : pMsg.askedChange w.db with
  | none =>
    rw [hasked] at hleaves
    exact hleaves
  | some c =>
    rw [hasked] at hleaves
    refine ⟨hleaves.access, ?_⟩
    have hlogin : (c.made pMsg.userLevel env).pLogin = c.pLogin := by
      unfold ModeChange.made
      split <;> rfl
    rw [hleaves.issued, List.append_right_eq_self, Databases.modeLines, hlogin]
    cases w.db.shownNick c.pLogin with
    | none => simp
    | some usernick => simp [shownModes_ne_nil]

/-! ## Refusals -/

/-- The reasons to refuse an `accountmode`. Accounts are the same if the databases take them for
the same, and a target is a master by his own record, whatever he has in the channel. -/
inductive Refusal (dbs : Databases G) (pMsg : MsgItem) : Prop
  | noChannel (h : pMsg.pAccessChannel = none)
  | unknownChannel {pAccessChannel : CStr} (hchannel : pMsg.pAccessChannel = some pAccessChannel)
      (h : dbs.existDb .channel (some pAccessChannel) = false)
  | guest (h : dbs.getDb .nickToUser pMsg.pNetmask = none)
  | noModeWord (h : pMsg.parameters.bind (cutFirst ' ') = none)
  | unknownAccount {pLogin pPos : CStr}
      (hwords : pMsg.parameters.bind (cutFirst ' ') = some (pLogin, pPos))
      (h : dbs.existDb .user (some pLogin) = false)
  | oneself {pLogin pPos accesslogin : CStr}
      (hwords : pMsg.parameters.bind (cutFirst ' ') = some (pLogin, pPos))
      (hissuer : dbs.getDb .nickToUser pMsg.pNetmask = some accesslogin)
      (h : key pLogin = key accesslogin)
  | master {pLogin pPos : CStr}
      (hwords : pMsg.parameters.bind (cutFirst ' ') = some (pLogin, pPos))
      (hmaster : 'm' ∈ (dbs.fetch .access (key pLogin)).getD [])
      (h : pMsg.userLevel ≠ .masterLevel)
  | sign {pLogin pPos : CStr}
      (hwords : pMsg.parameters.bind (cutFirst ' ') = some (pLogin, pPos))
      (h : strAt pPos 0 ≠ '+' ∧ strAt pPos 0 ≠ '-')
  | letter {pLogin pPos : CStr}
      (hwords : pMsg.parameters.bind (cutFirst ' ') = some (pLogin, pPos))
      (h : strAt pPos 1 ≠ 'v' ∧ strAt pPos 1 ≠ 'o' ∧ strAt pPos 1 ≠ 'm')
  | masterLetter {pLogin pPos : CStr}
      (hwords : pMsg.parameters.bind (cutFirst ' ') = some (pLogin, pPos))
      (hm : strAt pPos 1 = 'm') (h : pMsg.userLevel ≠ .masterLevel)

/-- The handler comes back, with the rights as they were, and no mode was sent. -/
def ChangesNothing (env : Env) (pMsg : MsgItem) (w : World G) : Prop :=
  ∃ w', (accountmode pMsg).run (perform env) w = some ((), w') ∧
    w'.db.fetch .access = w.db.fetch .access ∧ w'.issued "MODE " = w.issued "MODE "

theorem changesNothing_iff (pMsg : MsgItem) (w : World G) :
    (∀ env, ChangesNothing env pMsg w) ↔ ∀ c ∈ pMsg.askedChange w.db,
      w.db.shownNick c.pLogin = none ∧ c.Void pMsg.userLevel w.db := by
  cases hasked : pMsg.askedChange w.db with
  | none =>
    refine ⟨fun _ _ hc => absurd hc nofun, fun _ env => ?_⟩
    obtain ⟨w', hrun, hleaves⟩ := accountmode_asked env pMsg w
    rw [hasked] at hleaves
    exact ⟨w', hrun, by rw [hleaves.db], hleaves.issued⟩
  | some c =>
    obtain ⟨hsign, hhead, hchannel, -⟩ := askedChange_eq_some hasked
    have hiff (env : Env) : ChangesNothing env pMsg w ↔
        (c.made pMsg.userLevel env).rights env w.db = w.db.fetch .access ∧
          w.db.shownNick c.pLogin = none := by
      obtain ⟨w', hrun, hleaves⟩ := accountmode_asked env pMsg w
      rw [hasked] at hleaves
      obtain ⟨haccess, hissued⟩ := hleaves
      rw [← haccess, ← hissued]
      refine ⟨fun ⟨w'', hrun', hsame⟩ => ?_, fun hsame => ⟨w', hrun, hsame⟩⟩
      rw [hrun] at hrun'
      cases hrun'
      exact hsame
    simp only [hiff, Option.mem_def, Option.some.injEq, forall_eq', forall_and,
      ModeChange.made_rights_iff hsign hhead hchannel]
    exact ⟨fun h => ⟨h.2 calmEnv, h.1⟩, fun h => ⟨h.2, fun _ => h.1⟩⟩

/-- A rejected `accountmode` changes nothing where nothing is left to change, and nowhere else.
Whatever reason there is to refuse a line: on every machine the rights stay as they were and no
mode is sent, if and only if an earlier check stops the line, or the target is not logged in and
the change that it asks for is void. -/
theorem refused_changes_nothing (pMsg : MsgItem) (w : World G) :
    (Refusal w.db pMsg → ∀ env, ChangesNothing env pMsg w) ↔
      (Refusal w.db pMsg → ∀ c ∈ pMsg.askedChange w.db,
        w.db.shownNick c.pLogin = none ∧ c.Void pMsg.userLevel w.db) :=
  imp_congr_right fun _ => changesNothing_iff pMsg w

/-- Alice, who owns the channel and is no master, asks to make bob one. -/
def aliceMakesMaster : MsgItem :=
  fillItem ":alice!a@h PRIVMSG ebotula :!accountmode #c bob +m" .ownerLevel true

/-- She is refused; but bob gets a record in the channel, and is made an operator. -/
theorem refused_changes_something : ∃ w,
    receiveAll (fun _ _ => true) calmEnv freshBot ownedChannel = some w ∧
    w.db.userLevel (some "#c") (some "alice!a@h") = .ownerLevel ∧
    Refusal w.db aliceMakesMaster ∧
    ∃ w', (accountmode aliceMakesMaster).run (perform calmEnv) w = some ((), w') ∧
      w.db.fetch .access (key "bob#c") = none ∧
      w'.db.fetch .access (key "bob#c") = some "+".toList ∧
      w'.issued "MODE " = w.issued "MODE " ++ [modeLine "#c" "+o" "bob"] := by
  have computed : (receiveAll (fun _ _ => true) calmEnv freshBot ownedChannel).bind (fun w =>
      ((accountmode aliceMakesMaster).run (perform calmEnv) w).map fun r =>
        (w.db.userLevel (some "#c") (some "alice!a@h"), w.db.fetch .access (key "bob#c"),
          r.2.db.fetch .access (key "bob#c"),
          decide (r.2.issued "MODE " = w.issued "MODE " ++ [modeLine "#c" "+o" "bob"]))) =
      some (.ownerLevel, none, some "+".toList, true) := by
    decide +kernel
  obtain ⟨w, hw, hrest⟩ := Option.bind_eq_some_iff.mp computed
  obtain ⟨⟨⟨⟩, w'⟩, hrun, hfacts⟩ := Option.map_eq_some_iff.mp hrest
  simp only [Prod.mk.injEq, decide_eq_true_eq] at hfacts
  obtain ⟨hlevel, hchanged⟩ := hfacts
  refine ⟨w, hw, hlevel, ?_, w', hrun, hchanged⟩
  have hwords : aliceMakesMaster.parameters.bind (cutFirst ' ') =
      some ("bob".toList, "+m".toList) := by decide +kernel
  exact .masterLetter hwords (by decide) (by decide)

/-! ## Oneself -/

/-- A mode change leaves all rights that are not the target's. -/
theorem ModeChange.rights_other {c : ModeChange} (checked : Checked dbs)
    (hhead : c.pAccessChannel.head? = some '#') {k : Key} (hk : ¬ k.BelongsTo (key c.pLogin)) :
    c.rights env dbs k = dbs.fetch .access k := by
  have hown : k ≠ key c.pLogin := fun h => hk (.inl h)
  have hright {channel : CStr} (h : (key channel).IsChannel) : k ≠ key (c.pLogin ++ channel) :=
    fun heq => hk (.inr ⟨key channel, h, heq.trans (key_append _ _)⟩)
  have hkept : k ∉ rightKeys (dbs.listDb .channel) c.pLogin := by
    intro hmem
    rcases List.mem_cons.mp hmem with h | h
    · exact hown h
    · obtain ⟨channel, hchannel, h⟩ := List.mem_map.mp h
      exact hright (checked.isChannel hchannel) h.symm
  have hclean : cleanedRights env dbs c.pLogin (oldMode dbs c.pAccessChannel c.pLogin) c.mod1 k =
      dbs.fetch .access k := by
    unfold cleanedRights
    split
    · split
      · exact Function.update_of_ne hown _ _
      · rfl
    · split
      · exact if_neg hkept
      · rfl
  rw [rights, changedRights, Function.update_of_ne, hclean]
  split
  · exact hown
  · exact hright (key_isChannel hhead)

/-- The handler comes back with the rights of an account as they were. -/
def KeepsRightsOf (u : Key) (env : Env) (pMsg : MsgItem) (w : World G) : Prop :=
  ∃ w', (accountmode pMsg).run (perform env) w = some ((), w') ∧
    ∀ k : Key, k.BelongsTo u → w'.db.fetch .access k = w.db.fetch .access k

theorem keepsRightsOf_iff (env : Env) (pMsg : MsgItem) (w : World G) (u : Key) :
    KeepsRightsOf u env pMsg w ↔ ∀ c ∈ pMsg.askedChange w.db, ∀ k : Key, k.BelongsTo u →
      (c.made pMsg.userLevel env).rights env w.db k = w.db.fetch .access k := by
  obtain ⟨w', hrun, hleaves⟩ := accountmode_asked env pMsg w
  have hkeeps : KeepsRightsOf u env pMsg w ↔
      ∀ k : Key, k.BelongsTo u → w'.db.fetch .access k = w.db.fetch .access k := by
    refine ⟨fun ⟨w'', hrun', hsame⟩ => ?_, fun hsame => ⟨w', hrun, hsame⟩⟩
    rw [hrun] at hrun'
    cases hrun'
    exact hsame
  rw [hkeeps]
  cases hasked : pMsg.askedChange w.db with
  | none =>
    rw [hasked] at hleaves
    exact ⟨fun _ c hc => absurd hc nofun, fun _ k _ => by rw [hleaves.db]⟩
  | some c =>
    rw [hasked] at hleaves
    simp only [Option.mem_def, Option.some.injEq, forall_eq', hleaves.1]

/-- Nobody modifies his own account mode under the spelling he has logged in with, but under
another one he does. For every state whose names were checked when they came in, as they were in
every state that is reached, and every account that is logged in: a line of that user leaves the
rights of his account as they are on every machine, if and only if the change it asks for, if it
passes the checks, is about another account or comes to nothing. -/
theorem own_rights_kept (checked : Checked w.db) (pMsg : MsgItem) :
    ∀ accesslogin, w.db.getDb .nickToUser pMsg.pNetmask = some accesslogin →
      (w.db.fetch .user (key accesslogin)).isSome →
      ((∀ env, KeepsRightsOf (key accesslogin) env pMsg w) ↔
        ∀ c ∈ pMsg.askedChange w.db, key c.pLogin = key accesslogin →
          c.Void pMsg.userLevel w.db) := by
  intro accesslogin _ haccount
  simp only [keepsRightsOf_iff]
  cases hasked : pMsg.askedChange w.db with
  | none => exact ⟨fun _ c hc => absurd hc nofun, fun _ env c hc => absurd hc nofun⟩
  | some c =>
    simp only [Option.mem_def, Option.some.injEq, forall_eq']
    obtain ⟨hsign, hhead, hchannel, huser⟩ := askedChange_eq_some hasked
    have hmade (env : Env) : (c.made pMsg.userLevel env).pLogin = c.pLogin ∧
        (c.made pMsg.userLevel env).pAccessChannel = c.pAccessChannel := by
      unfold ModeChange.made
      split <;> exact ⟨rfl, rfl⟩
    have hother (env : Env) {k : Key} (hk : ¬ k.BelongsTo (key c.pLogin)) :
        (c.made pMsg.userLevel env).rights env w.db k = w.db.fetch .access k :=
      ModeChange.rights_other checked (by rwa [(hmade env).2]) (by rwa [(hmade env).1])
    by_cases hself : key c.pLogin = key accesslogin
    · simp only [hself, forall_const]
      rw [← ModeChange.made_rights_iff hsign hhead hchannel]
      refine forall_congr' fun env => ⟨fun h => funext fun k => ?_, fun h k _ => congrFun h k⟩
      by_cases hk : k.BelongsTo (key accesslogin)
      · exact h k hk
      · exact hother env (hself ▸ hk)
    · refine ⟨fun _ h => absurd h hself, fun _ env k hk => hother env fun hk' => hself ?_⟩
      exact hk'.unique (checked.named.nick _ huser) (checked.named.nick _ haccount) hk

/-- Alice about herself. -/
def aliceAboutHerself (pLogin : CStr) : MsgItem :=
  fillItem (":alice!a@h PRIVMSG ebotula :!accountmode #c ".toList ++ pLogin ++ " -o".toList)
    .ownerLevel true

/-- As she is spelled she stays the owner. -/
theorem own_rights_kept_alice : ∃ w,
    receiveAll (fun _ _ => true) calmEnv freshBot ownedChannel = some w ∧
    ∀ env, KeepsRightsOf (key "alice") env (aliceAboutHerself "alice") w := by
  have computed : (receiveAll (fun _ _ => true) calmEnv freshBot ownedChannel).map (fun w =>
      (w.db.getDb .nickToUser (aliceAboutHerself "alice").pNetmask,
        (w.db.fetch .user (key "alice")).isSome,
        ((aliceAboutHerself "alice").askedChange w.db).isNone)) =
      some (some "alice".toList, true, true) := by
    decide +kernel
  obtain ⟨w, hw, hfacts⟩ := Option.map_eq_some_iff.mp computed
  simp only [Prod.mk.injEq] at hfacts
  obtain ⟨hissuer, haccount, hnone⟩ := hfacts
  refine ⟨w, hw, (own_rights_kept (checked_of_receiveAll hw) (aliceAboutHerself "alice") _ hissuer
    haccount).mpr fun c hc => ?_⟩
  rw [Option.isNone_iff_eq_none.mp hnone] at hc
  cases hc

/-- As Alice she can take the channel away from herself. -/
theorem own_rights_lost : ∃ w,
    receiveAll (fun _ _ => true) calmEnv freshBot ownedChannel = some w ∧
    w.db.getDb .nickToUser (aliceAboutHerself "Alice").pNetmask = some "alice".toList ∧
    w.db.userLevel (some "#c") (some "alice!a@h") = .ownerLevel ∧
    ∃ w', (accountmode (aliceAboutHerself "Alice")).run (perform calmEnv) w = some ((), w') ∧
      w.db.fetch .access (key "alice" ++ key "#c") = some "+o".toList ∧
      w'.db.fetch .access (key "alice" ++ key "#c") = none := by
  have computed : (receiveAll (fun _ _ => true) calmEnv freshBot ownedChannel).bind (fun w =>
      ((accountmode (aliceAboutHerself "Alice")).run (perform calmEnv) w).map fun r =>
        (w.db.getDb .nickToUser (aliceAboutHerself "Alice").pNetmask,
          w.db.userLevel (some "#c") (some "alice!a@h"),
          w.db.fetch .access (key "alice" ++ key "#c"),
          r.2.db.fetch .access (key "alice" ++ key "#c"))) =
      some (some "alice".toList, .ownerLevel, some "+o".toList, none) := by
    decide +kernel
  obtain ⟨w, hw, hrest⟩ := Option.bind_eq_some_iff.mp computed
  obtain ⟨⟨⟨⟩, w'⟩, hrun, hfacts⟩ := Option.map_eq_some_iff.mp hrest
  simp only [Prod.mk.injEq] at hfacts
  exact ⟨w, hw, hfacts.1, hfacts.2.1, w', hrun, hfacts.2.2⟩

end Ebotula
