import Ebotula.Laws.AccountMode
import Ebotula.Laws.Hostmasks

/-!
# Mode protection

When somebody else has changed the mode of a user, `ModeResetCb` is run with the channel, the sign
and the letter of the change. It should see to it that the user ends with the mode of his record.
But it compares the letter of the record with the second character of the channel's name, not with
the letter that was changed. So it takes away any mode of whoever is logged on, except in a channel
whose name happens to go on with that letter, and there it does nothing.

The server keeps the modes. `UserModes` is its side, and the theorem is about what the lines that
the callback sends do to it.
-/

set_option autoImplicit false

namespace Ebotula

open Library

/-! ## The server's side -/

/-- The modes that a user has in a channel. -/
abbrev UserModes := Char → Bool

/-- The channel, the mode and the nickname in a line that changes the mode of a user. -/
def userModeOf (line : CStr) : Option (CStr × CStr × CStr) := do
  let (command, rest) ← cutFirst ' ' line
  guard (command = "MODE".toList)
  let (pChannel, rest) ← cutFirst ' ' rest
  let (pMod, rest) ← cutFirst ' ' rest
  let (pNick, _) ← cutString "\r\n" rest
  return (pChannel, pMod, pNick)

/-- What the server makes of a line, for one user in one channel. -/
def UserModes.apply (pChannel pNick : CStr) (modes : UserModes) (line : CStr) : UserModes :=
  match userModeOf line with
  | some (c, [sign, letter], n) =>
    if strcaseeq c pChannel && strcaseeq n pNick then
      Function.update modes letter (sign = '+')
    else modes
  | _ => modes

/-- What it makes of the lines that were sent between two states. -/
def UserModes.after {G : Type} (pChannel pNick : CStr) (modes : UserModes) (w w' : World G) :
    UserModes :=
  ((w'.issued "MODE ").drop (w.issued "MODE ").length).foldl (UserModes.apply pChannel pNick) modes

section Server

variable {G : Type} {w w' : World G} {pChannel pNick : CStr} {modes : UserModes}

theorem userModeOf_modeLine {pMod : CStr} (hchannel : ' ' ∉ pChannel) (hmod : ' ' ∉ pMod)
    (hnick : '\r' ∉ pNick) :
    userModeOf (modeLine pChannel pMod pNick) = some (pChannel, pMod, pNick) := by
  have hcommand : cutFirst ' ' (modeLine pChannel pMod pNick) =
      some ("MODE".toList, pChannel ++ ' ' :: (pMod ++ ' ' :: (pNick ++ "\r\n".toList))) := by
    rw [show modeLine pChannel pMod pNick =
      "MODE".toList ++ ' ' :: (pChannel ++ ' ' :: (pMod ++ ' ' :: (pNick ++ "\r\n".toList))) by
        simp only [modeLine, modeHead, List.append_assoc]; rfl]
    exact cutFirst_append _ (by decide)
  have hend : cutString "\r\n" (pNick ++ "\r\n".toList) = some (pNick, []) := by
    rw [show "\r\n".toList = '\r' :: ['\n'] from rfl, cutString_skip hnick,
      show cutString ['\r', '\n'] ['\r', '\n'] = some ([], []) from rfl, Option.map_some,
      List.append_nil]
  simp only [userModeOf, hcommand, Option.bind_eq_bind, Option.bind_some, guard, if_true,
    cutFirst_append _ hchannel, cutFirst_append _ hmod, hend]
  rfl

theorem strcaseeq_refl (s : CStr) : strcaseeq s s = true := beq_self_eq_true _

/-- A line that takes a mode away. -/
theorem UserModes.apply_minus {letter : Char} (hchannel : ' ' ∉ pChannel) (hletter : letter ≠ ' ')
    (hnick : '\r' ∉ pNick) :
    UserModes.apply pChannel pNick modes (modeLine pChannel ['-', letter] pNick) =
      Function.update modes letter false := by
  have hmod : ' ' ∉ ['-', letter] := by simp [Ne.symm hletter]
  rw [UserModes.apply, userModeOf_modeLine hchannel hmod hnick]
  dsimp only
  rw [strcaseeq_refl, strcaseeq_refl, Bool.and_self, if_pos rfl]
  rfl

theorem UserModes.after_nil (h : w'.issued "MODE " = w.issued "MODE " ++ []) :
    UserModes.after pChannel pNick modes w w' = modes := by
  rw [UserModes.after, h, List.append_nil, List.drop_length, List.foldl_nil]

theorem UserModes.after_minus {letter : Char} (hchannel : ' ' ∉ pChannel) (hletter : letter ≠ ' ')
    (hnick : '\r' ∉ pNick)
    (h : w'.issued "MODE " = w.issued "MODE " ++ [modeLine pChannel ['-', letter] pNick]) :
    UserModes.after pChannel pNick modes w w' = Function.update modes letter false := by
  rw [UserModes.after, h, List.drop_left, List.foldl_cons, List.foldl_nil,
    UserModes.apply_minus hchannel hletter hnick]

end Server

/-! ## The bot's side -/

section Callback

variable {G : Type} [DbLib G] {env : Env} {w : World G} {pNetmask pNick pChannel : CStr}
  {sign letter e : Char}

/-- What `hResetModes` means to leave for the callback. -/
def reported (pChannel : CStr) (sign letter : Char) : CStr := pChannel ++ [' ', sign, letter]

theorem getFirstPart_reported (h : ' ' ∉ pChannel) :
    getFirstPart (reported pChannel sign letter) none = (some pChannel, some [sign, letter]) := by
  rw [getFirstPart, reported, cutFirst_append [sign, letter] h]
  rfl

theorem issues_secondChar {command pMod : CStr} {f : Char → Quiet Unit} {lines : List CStr}
    (h : Issues env command (f (charBehind env pMod)) w lines) :
    Issues env command (secondChar pMod >>= f) w lines := by
  obtain ⟨w', hrun, hrest⟩ := h
  exact ⟨w', by rw [Prog.run_bind, run_secondChar, Option.bind_some, hrun], hrest⟩

theorem issues_setModeSign {command rest : CStr} {a c : Char} {f : CStr → Quiet Unit}
    {lines : List CStr} (h : Issues env command (f (c :: rest)) w lines) :
    Issues env command (setModeSign (some (a :: rest)) c >>= f) w lines := h

/-- Without a nickname the callback does nothing. -/
theorem issues_modeResetCb_none {data : CStr} (hnick : getNickname pNetmask = none) :
    Issues env "MODE " (modeResetCb pNetmask data) w [] := by
  unfold modeResetCb
  refine .after issues_logger fun w₁ _ => ?_
  dsimp only
  rw [hnick]
  exact .pure

/-- Who is logged on with a right in the channel loses the mode, unless the name of the channel goes
on with the letter of the right. -/
theorem issues_modeResetCb_logged {pLogin : CStr} (hnick : getNickname pNetmask = some pNick)
    (hchannel : ' ' ∉ pChannel) (hne : pChannel ≠ []) (hminus : strAt pChannel 0 ≠ '-')
    (session : w.db.fetch .nickToUser (key pNetmask) = some pLogin)
    (record : w.db.fetch .access (key (pLogin ++ pChannel)) = some ['+', e]) :
    Issues env "MODE " (modeResetCb pNetmask (reported pChannel sign letter)) w
      (if strAt pChannel 1 = e then [] else [modeLine pChannel ['-', letter] pNick]) := by
  unfold modeResetCb
  refine .after issues_logger fun w₁ h₁ => ?_
  rw [getFirstPart_reported hchannel]
  dsimp only
  rw [hnick]
  dsimp only
  refine issues_getDb ?_
  rw [h₁, Databases.getDb_some, session]
  dsimp only
  refine .after issues_logger fun w₂ h₂ => ?_
  refine issues_getDb ?_
  rw [h₂, h₁, Option.getD_some, Databases.getDb_some, record]
  dsimp only
  refine issues_secondChar (issues_secondChar ?_)
  obtain ⟨a, rest, rfl⟩ := List.exists_cons_of_ne_nil hne
  rw [show charBehind env ['+', e] = e from rfl,
    show charBehind env (a :: rest) = strAt (a :: rest) 1 from rfl, if_neg hminus]
  by_cases heq : strAt (a :: rest) 1 = e
  · rw [if_pos heq.symm, if_pos heq]
    exact .pure
  · rw [if_neg (Ne.symm heq), if_neg heq]
    exact issues_setModeSign issues_mode

/-- Who is not logged on and is not the bot loses what he was given. -/
theorem issues_modeResetCb_guest (hnick : getNickname pNetmask = some pNick)
    (hchannel : ' ' ∉ pChannel) (guest : w.db.fetch .nickToUser (key pNetmask) = none)
    (hbot : strcaseeq pNick w.pBotname = false) :
    Issues env "MODE " (modeResetCb pNetmask (reported pChannel sign letter)) w
      (if sign = '+' then [modeLine pChannel ['-', letter] pNick] else []) := by
  unfold modeResetCb
  refine issues_logging ?_
  rw [getFirstPart_reported hchannel]
  dsimp only
  rw [hnick]
  dsimp only
  refine issues_getDb ?_
  rw [World.logging_db, Databases.getDb_some, guest]
  dsimp only
  refine issues_botname ?_
  rw [World.logging_pBotname, hbot, show strAt [sign, letter] 0 = sign from rfl]
  by_cases hsign : sign = '+'
  · rw [if_pos ⟨hsign, rfl⟩, if_pos hsign]
    refine .after issues_logger fun w₁ _ => ?_
    exact issues_setModeSign issues_mode
  · rw [if_neg fun h => hsign h.1, if_neg hsign]
    exact .pure

theorem notMem_of_nickStringCheck {c : Char} (h : nickStringCheck pNick = true)
    (hc : (c.isAlphanum || userAllowChar.contains c) = false) : c ∉ pNick := by
  intro hmem
  rw [nickStringCheck, Bool.and_eq_true, List.all_eq_true] at h
  exact absurd ((h.2 c hmem).symm.trans hc) nofun

/-- Which mode is left to a user. One with a right in the channel ends with the mode of that right,
after the change of one mode and what the callback sends, exactly where the change was in order and
the callback kept still, or it was of the other mode and the callback did not. One who is not logged
on loses what he was given wherever the bot takes his nickname for one. -/
theorem mode_protection {pLogin' pDomain : CStr} (hnick : IsPart pNick) (huser : IsPart pLogin')
    (hdomain : IsPart pDomain) (hcolon : pNick.head? ≠ some ':') (hchannel : ' ' ∉ pChannel)
    (hne : pChannel ≠ []) (hminus : strAt pChannel 0 ≠ '-') (hletter : letter = 'o' ∨ letter = 'v')
    (modes : UserModes) (hafter : modes letter = decide (sign = '+')) :
    (∀ pLogin, w.db.fetch .nickToUser (key (hostmask pNick pLogin' pDomain)) = some pLogin →
      w.db.fetch .access (key (pLogin ++ pChannel)) = some ['+', e] →
      ∃ w', (modeResetCb (hostmask pNick pLogin' pDomain) (reported pChannel sign letter)).run
          (performQuiet env) w = some ((), w') ∧
        ((UserModes.after pChannel pNick modes w w' letter = true ↔ letter = e) ↔
          if nickStringCheck pNick = true ∧ strAt pChannel 1 ≠ e then letter ≠ e
          else (sign = '+' ↔ letter = e))) ∧
    (w.db.fetch .nickToUser (key (hostmask pNick pLogin' pDomain)) = none →
      strcaseeq pNick w.pBotname = false →
      ∃ w', (modeResetCb (hostmask pNick pLogin' pDomain) (reported pChannel sign letter)).run
          (performQuiet env) w = some ((), w') ∧
        ((sign = '+' → UserModes.after pChannel pNick modes w w' letter = false) ↔
          (sign = '+' → nickStringCheck pNick = true))) := by
  have hread := getNickname_hostmask hnick huser hdomain hcolon
  have hblank : letter ≠ ' ' := by rcases hletter with rfl | rfl <;> decide
  have hreturn (h : nickStringCheck pNick = true) : '\r' ∉ pNick :=
    notMem_of_nickStringCheck h (by decide)
  have kept {w' : World G} (h : w'.issued "MODE " = w.issued "MODE " ++ []) :
      UserModes.after pChannel pNick modes w w' letter = decide (sign = '+') := by
    rw [UserModes.after_nil h, hafter]
  have taken {w' : World G} (hcheck : nickStringCheck pNick = true)
      (h : w'.issued "MODE " = w.issued "MODE " ++ [modeLine pChannel ['-', letter] pNick]) :
      UserModes.after pChannel pNick modes w w' letter = false := by
    rw [UserModes.after_minus hchannel hblank (hreturn hcheck) h, Function.update_self]
  refine ⟨fun pLogin session record => ?_, fun guest hbot => ?_⟩
  · by_cases hcheck : nickStringCheck pNick = true
    · rw [if_pos hcheck] at hread
      obtain ⟨w', hrun, -, hissued⟩ : Issues env "MODE "
          (modeResetCb (hostmask pNick pLogin' pDomain) (reported pChannel sign letter)) w _ :=
        issues_modeResetCb_logged hread hchannel hne hminus session record
      refine ⟨w', hrun, ?_⟩
      by_cases hsecond : strAt pChannel 1 = e
      · rw [if_pos hsecond] at hissued
        rw [kept hissued, if_neg fun h => h.2 hsecond, decide_eq_true_eq]
      · rw [if_neg hsecond] at hissued
        rw [taken hcheck hissued, if_pos ⟨hcheck, hsecond⟩]
        simp
    · rw [if_neg hcheck] at hread
      obtain ⟨w', hrun, -, hissued⟩ : Issues env "MODE "
          (modeResetCb (hostmask pNick pLogin' pDomain) (reported pChannel sign letter)) w _ :=
        issues_modeResetCb_none hread
      exact ⟨w', hrun, by rw [kept hissued, if_neg fun h => hcheck h.1, decide_eq_true_eq]⟩
  · by_cases hcheck : nickStringCheck pNick = true
    · rw [if_pos hcheck] at hread
      obtain ⟨w', hrun, -, hissued⟩ : Issues env "MODE "
          (modeResetCb (hostmask pNick pLogin' pDomain) (reported pChannel sign letter)) w _ :=
        issues_modeResetCb_guest hread hchannel guest hbot
      refine ⟨w', hrun, iff_of_true (fun hsign => ?_) fun _ => hcheck⟩
      rw [if_pos hsign] at hissued
      exact taken hcheck hissued
    · rw [if_neg hcheck] at hread
      obtain ⟨w', hrun, -, hissued⟩ : Issues env "MODE "
          (modeResetCb (hostmask pNick pLogin' pDomain) (reported pChannel sign letter)) w _ :=
        issues_modeResetCb_none hread
      refine ⟨w', hrun, ?_⟩
      rw [kept hissued, decide_eq_false_iff_not]
      simp [hcheck]

end Callback

theorem isPart_alice : IsPart "alice" ∧ IsPart "a" ∧ IsPart "h" :=
  ⟨⟨by decide, by decide, by decide, by decide⟩, ⟨by decide, by decide, by decide, by decide⟩,
    ⟨by decide, by decide, by decide, by decide⟩⟩

/-- The owner of a channel is given the other mode, and the bot takes it away. -/
theorem mode_protection_other : ∃ w w',
    receiveAll (fun _ _ => true) calmEnv freshBot ownedChannel = some w ∧
    (modeResetCb (hostmask "alice" "a" "h") (reported "#c" '+' 'v')).run (performQuiet calmEnv) w =
      some ((), w') ∧
    (UserModes.after "#c" "alice" (fun _ => true) w w' 'v' = true ↔ 'v' = 'o') := by
  have computed : (receiveAll (fun _ _ => true) calmEnv freshBot ownedChannel).map (fun w =>
      (w.db.fetch .nickToUser (key (hostmask "alice" "a" "h")),
        w.db.fetch .access (key "alice#c"))) = some (some "alice".toList, some "+o".toList) := by
    decide +kernel
  obtain ⟨w, hw, hfacts⟩ := Option.map_eq_some_iff.mp computed
  obtain ⟨session, record⟩ := Prod.mk.inj hfacts
  obtain ⟨hnick, huser, hhost⟩ := isPart_alice
  obtain ⟨w', hrun, hiff⟩ := (@mode_protection _ _ calmEnv w "alice" "#c" '+' 'v' 'o' "a" "h" hnick
    huser hhost (by decide) (by decide) (by decide) (by decide) (.inr rfl) (fun _ => true) rfl).1
    "alice" session record
  exact ⟨w, w', hw, hrun, hiff.mpr (by decide)⟩

/-- She is made an operator once more, and the bot takes the mode of her own record away. -/
theorem entitled_mode_taken : ∃ w w',
    receiveAll (fun _ _ => true) calmEnv freshBot ownedChannel = some w ∧
    w.db.fetch .nickToUser (key (hostmask "alice" "a" "h")) = some "alice".toList ∧
    w.db.fetch .access (key "alice#c") = some "+o".toList ∧
    (modeResetCb (hostmask "alice" "a" "h") (reported "#c" '+' 'o')).run (performQuiet calmEnv) w =
      some ((), w') ∧
    ¬ (UserModes.after "#c" "alice" (fun _ => true) w w' 'o' = true ↔ 'o' = 'o') := by
  have computed : (receiveAll (fun _ _ => true) calmEnv freshBot ownedChannel).bind (fun w =>
      ((modeResetCb (hostmask "alice" "a" "h") (reported "#c" '+' 'o')).run (performQuiet calmEnv)
        w).map fun r =>
      (w.db.fetch .nickToUser (key (hostmask "alice" "a" "h")),
        w.db.fetch .access (key "alice#c"),
        UserModes.after "#c" "alice" (fun _ => true) w r.2 'o')) =
      some (some "alice".toList, some "+o".toList, false) := by
    decide +kernel
  obtain ⟨w, hw, hrest⟩ := Option.bind_eq_some_iff.mp computed
  obtain ⟨⟨⟨⟩, w'⟩, hrun, hfacts⟩ := Option.map_eq_some_iff.mp hrest
  simp only [Prod.mk.injEq] at hfacts
  obtain ⟨session, record, hafter⟩ := hfacts
  refine ⟨w, w', hw, session, record, hrun, ?_⟩
  rw [hafter]
  decide

end Ebotula
