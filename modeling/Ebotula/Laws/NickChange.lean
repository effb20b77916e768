import Ebotula.Laws.Authorization
import Ebotula.Laws.Hostmasks
import Ebotula.Laws.Password
import Ebotula.Laws.Rights

/-!
# Nick changes

A user with a session who takes another nick has another netmask, and `hNickChange` takes
the session over to it. It reads the new nick off the last word of the line, and takes the
first character of that word for the colon of a trailing parameter. The law says that this
is right for a line with the colon, and says what becomes of the session without it.
-/

set_option autoImplicit false

namespace Ebotula

open Library

/-! ## The line -/

/-- The two ways of writing the last parameter of a line. -/
inductive LastParam
  | trailing | plain
  deriving DecidableEq

/-- The parameter as a word of the line. -/
def LastParam.word : LastParam → CStr → CStr
  | trailing, text => ':' :: text
  | plain, text => text

/-- The line of the sender `pNetmask` that takes the nick `new`. -/
def nickLine (pNetmask : CStr) (form : LastParam) (new : CStr) : CStr :=
  sentBy pNetmask ("NICK ".toList ++ form.word new)

/-- The item its handler is given to a caller of this level. -/
def nickItem (pNetmask : CStr) (form : LastParam) (new : CStr) (level : UserLevel) : MsgItem :=
  fillItem (nickLine pNetmask form new) level (bIsCommand .onNickChg)

section Line

variable {pNetmask new : CStr} {form : LastParam} {level : UserLevel} {c : Char}

theorem notMem_nick {s : CStr} (h : nickStringCheck s = true) (hc : c.isAlphanum = false)
    (hallow : c ∉ userAllowChar) : c ∉ s := by
  intro hmem
  rw [nickStringCheck, Bool.and_eq_true, List.all_eq_true] at h
  have hcheck := h.2 c hmem
  simp only [hc, List.contains_eq_mem, Bool.false_or, decide_eq_true_eq] at hcheck
  exact hallow hcheck

/-- A NICK line has no text that begins with a mark which is none of the nick. -/
theorem cutString_nickLine (hmask : ' ' ∉ pNetmask) (hnick : nickStringCheck new = true)
    (hc : c ∉ new) : cutString [' ', ':', c] (nickLine pNetmask form new) = none := by
  have hblank : ' ' ∉ form.word new := by
    have := notMem_nick hnick (c := ' ') (by decide) (by decide)
    cases form <;> simp [LastParam.word, this]
  have hword : ¬ [':', c] <+: form.word new := by
    intro hhead
    cases form with
    | trailing => exact hc ((List.cons_prefix_cons.mp hhead).2.subset (List.mem_singleton_self _))
    | plain =>
      exact notMem_nick hnick (c := ':') (by decide) (by decide)
        (hhead.subset List.mem_cons_self)
  have hlast : cutString [' ', ':', c] (' ' :: form.word new) = none := by
    rw [cutString_cons fun h => hword (List.cons_prefix_cons.mp h).2,
      ← List.append_nil (form.word new), cutString_skip hblank]
    rfl
  have hskip : ' ' ∉ ':' :: pNetmask := by simp [hmask]
  have hcommand : cutString [' ', ':', c] (' ' :: ("NICK ".toList ++ form.word new)) = none := by
    have hno : ¬ [' ', ':', c] <+: ' ' :: 'N' :: ("ICK ".toList ++ form.word new) := fun h =>
      absurd (List.cons_prefix_cons.mp (List.cons_prefix_cons.mp h).2).1 (by decide)
    rw [cutString_cons (s := "NICK ".toList ++ form.word new) hno,
      show "NICK ".toList ++ form.word new = "NICK".toList ++ ' ' :: form.word new from rfl,
      cutString_skip (by decide), hlast]
    rfl
  rw [nickLine, sentBy, cutString_skip hskip, hcommand]
  rfl

/-- The extractors leave a NICK line as it is. -/
theorem nickItem_pRawLine (hmask : ' ' ∉ pNetmask) (hnick : nickStringCheck new = true) :
    (nickItem pNetmask form new level).pRawLine = nickLine pNetmask form new := by
  have hargument : getArgument (nickLine pNetmask form new) =
      (none, nickLine pNetmask form new) := by
    rw [getArgument, show " :!".toList = [' ', ':', '!'] from rfl,
      cutString_nickLine hmask hnick (notMem_nick hnick (by decide) (by decide))]
  have haccess : (getAccessChannel (nickLine pNetmask form new)).2 =
      nickLine pNetmask form new := by
    rw [getAccessChannel_of_argument hargument (fun _ h => by cases h),
      show " :#".toList = [' ', ':', '#'] from rfl,
      cutString_nickLine hmask hnick (notMem_nick hnick (by decide) (by decide))]
    cases getChannel (nickLine pNetmask form new) <;> rfl
  rw [nickItem, fillItem]
  dsimp only
  rw [haccess, getParameters, hargument]

theorem nickItem_pNetmask (hmask : IsNetmask pNetmask) :
    (nickItem pNetmask form new level).pNetmask = some pNetmask := getNetmask_sender hmask

/-- The last word of the line is the parameter. -/
theorem cutLast_nickLine (hnick : nickStringCheck new = true) :
    cutLast ' ' (nickLine pNetmask form new) =
      some (sentBy pNetmask "NICK".toList, form.word new) := by
  have hblank : ' ' ∉ form.word new := by
    have := notMem_nick hnick (c := ' ') (by decide) (by decide)
    cases form <;> simp [LastParam.word, this]
  have hline : nickLine pNetmask form new =
      sentBy pNetmask "NICK".toList ++ ' ' :: form.word new := by
    simp only [nickLine, sentBy, List.cons_append, List.append_assoc]
    rfl
  rw [hline, cutLast_append _ hblank]

end Line

/-! ## What the handler takes for the new netmask -/

section Netmask

variable {nick user host new : CStr} {form : LastParam} {level : UserLevel}

theorem isNetmask_hostmask (hnick : IsPart nick) (huser : IsPart user) (hhost : IsPart host) :
    IsNetmask (hostmask nick user host) :=
  ⟨hostmask_no_blank hnick huser hhost, .inl (by simp [hostmask])⟩

theorem cutFirst_hostmask (hnick : IsPart nick) :
    cutFirst '!' (hostmask nick user host) = some (nick, user ++ '@' :: host) := by
  rw [hostmask, List.append_assoc, List.cons_append, cutFirst_append _ hnick.no_bang]

/-- The first character of the last word is left out, whatever it is. -/
theorem newNetmask_nickItem (hnick : IsPart nick) (huser : IsPart user) (hhost : IsPart host)
    (hcheck : nickStringCheck new = true) :
    (nickItem (hostmask nick user host) form new level).newNetmask =
      if 1 < (form.word new).length then some (hostmask (form.word new).tail user host)
      else none := by
  have hmask := isNetmask_hostmask hnick huser hhost
  have hrest : strtokBuf ' ' ('!' :: (user ++ '@' :: host)) = '!' :: (user ++ '@' :: host) := by
    refine strtokBuf_of_not_mem ?_
    simp [huser.no_blank, hhost.no_blank]
  simp only [MsgItem.newNetmask, nickItem_pNetmask hmask, nickItem_pRawLine hmask.no_blank hcheck,
    cutLast_nickLine hcheck, cutFirst_hostmask hnick, Option.bind_eq_bind, Option.bind_some, hrest,
    gt_iff_lt]
  simp only [hostmask, List.append_assoc, List.cons_append, Nat.succ_lt_succ_iff]

end Netmask

/-! ## The handler -/

section Handler

attribute [local irreducible] Prog.Calls

variable {G : Type} [DbLib G] {w : World G} {env : Env} {pMsg : MsgItem}
  {pNetmask pLogin before word nick userHost : CStr}

/-- With a new netmask in the line the session is moved, and without one nothing happens. -/
theorem wp_hNickChange_session (hmask : pMsg.pNetmask = some pNetmask)
    (hlogin : w.db.fetch .nickToUser (key pNetmask) = some pLogin)
    (hword : cutLast ' ' pMsg.pRawLine = some (before, word))
    (hhost : cutFirst '!' pNetmask = some (nick, userHost)) :
    (hNickChange pMsg).wp (perform env) (fun _ w' =>
      SameExcept (.timelog :: sessionDbs) w.db w'.db ∧ w'.db.sessions =
        match pMsg.newNetmask with
        | some pNew => (w.db.sessions.unbind (key pLogin)).rebind (key pLogin) (some (key pNew))
        | none => w.db.sessions) w := by
  unfold hNickChange
  simp only [hmask, Prog.wp_bind, Prog.liftM_eq, wp_perform_lift, wp_getDb, Databases.getDb_some,
    hlogin, hword, Prog.wp_ite, Prog.wp_pure, hhost]
  have hnew : pMsg.newNetmask = if word.length + 1 > 2 then
      some (word.tail ++ strtokBuf ' ' ('!' :: userHost)) else none := by
    simp only [MsgItem.newNetmask, hmask, hword, hhost, Option.bind_eq_bind, Option.bind_some]
  refine ⟨fun hlen => ?_, fun hlen => ?_⟩
  · rw [if_pos hlen] at hnew
    refine wp_logOut fun w₁ same₁ hs₁ => wp_logOn fun w₂ same₂ hs₂ => ?_
    refine wp_quiet fun _ w₃ h₃ => ?_
    rw [h₃, hnew]
    exact ⟨(same₁.mono (by decide)).trans same₂, hs₁ ▸ hs₂⟩
  · rw [if_neg hlen] at hnew
    rw [hnew]
    exact ⟨.refl, rfl⟩

theorem total_hNickChange (hmask : pMsg.pNetmask = some pNetmask)
    (hword : cutLast ' ' pMsg.pRawLine = some (before, word))
    (hhost : cutFirst '!' pNetmask = some (nick, userHost)) : Total (hNickChange pMsg) := by
  unfold hNickChange
  simp only [hmask, hword, hhost, Prog.liftM_eq]
  refine .bind (total_request trivial) fun (session : Option CStr) => ?_
  cases session with
  | none => exact .pure ()
  | some pLogin =>
    refine .ite ?_ (.pure ())
    exact .bind (total_logOut pLogin) fun _ => .bind total_logOn fun _ => total_logger

end Handler

/-! ## The session after a nick change -/

section Session

variable {G : Type} [DbLib G] {w w' : World G} {env : Env} {pLogin nick user host new : CStr}
  {form : LastParam} {level : UserLevel}

/-- The level of a netmask rests on its account and on the rights. -/
theorem Databases.userLevel_congr {dbs dbs' : Databases G} {pNetmask pNetmask' : CStr}
    (hsession : (dbs'.fetch .nickToUser (key pNetmask')).map key =
      (dbs.fetch .nickToUser (key pNetmask)).map key)
    (haccess : dbs'.fetch .access = dbs.fetch .access) (pChannel : Option CStr) :
    dbs'.userLevel pChannel (some pNetmask') = dbs.userLevel pChannel (some pNetmask) := by
  simp only [Databases.userLevel, Databases.getDb_some]
  cases hlogin : dbs.fetch .nickToUser (key pNetmask) with
  | none =>
    rw [hlogin, Option.map_none, Option.map_eq_none_iff] at hsession
    rw [hsession]
  | some pLogin =>
    rw [hlogin, Option.map_some] at hsession
    obtain ⟨pLogin', hlogin', hkey⟩ := Option.map_eq_some_iff.mp hsession
    have hright : dbs'.channelRight pLogin' pChannel = dbs.channelRight pLogin pChannel := by
      simp only [Databases.channelRight, haccess, key_append, hkey]
    simp only [hlogin', hright, haccess, hkey]

/-- The session of `u` has gone over from one netmask to another, with its level in every
channel. -/
structure SessionCarried (w w' : World G) (u : Key) (pOld pNew : CStr) : Prop where
  moved : w.db.sessions.Moved w'.db.sessions u (key pNew)
  old_free : key pOld ≠ key pNew → w'.db.fetch .nickToUser (key pOld) = none
  level : ∀ pChannel env env', ∃ level,
    (getUserLevel pChannel (some pOld)).run (performQuiet env) w = some (level, w) ∧
    (getUserLevel pChannel (some pNew)).run (performQuiet env') w' = some (level, w')

/-- A session that has moved takes everything along, if no right has changed. -/
theorem sessionCarried_iff {pOld : CStr} (pNew : CStr)
    (hlogin : w.db.fetch .nickToUser (key pOld) = some pLogin)
    (haccess : w'.db.fetch .access = w.db.fetch .access) :
    SessionCarried w w' (key pLogin) pOld pNew ↔
      w.db.sessions.Moved w'.db.sessions (key pLogin) (key pNew) := by
  refine ⟨SessionCarried.moved, fun moved => ⟨moved, fun hne => ?_, fun pChannel _ _ => ?_⟩⟩
  · have hold : w.db.sessions.bwd (key pOld) = some (key pLogin) := by
      rw [Databases.sessions_bwd, hlogin, Option.map_some]
    exact Option.map_eq_none_iff.mp (moved.left hold hne)
  · have hnew : (w'.db.fetch .nickToUser (key pNew)).map key = some (key pLogin) :=
      (moved.only (key pNew)).mpr rfl
    refine ⟨_, run_getUserLevel, ?_⟩
    have hsame := Databases.userLevel_congr (hnew.trans (congrArg (Option.map key) hlogin).symm)
      haccess pChannel
    rw [run_getUserLevel, hsame]

/-- Two netmasks of one user and host are one exactly if the nicks are. -/
theorem key_hostmask {nick' : CStr} :
    key (hostmask nick user host) = key (hostmask nick' user host) ↔ key nick = key nick' := by
  simp only [hostmask, List.append_assoc, List.cons_append, key_append, Subtype.ext_iff]
  exact List.append_left_inj _

theorem length_key (s : CStr) : (key s).val.length = s.length := List.length_map _

/-- What a nick change makes of the session tables. -/
theorem run_hNickChange (env : Env) (form : LastParam) (level : UserLevel)
    (hnick : IsPart nick) (huser : IsPart user) (hhost : IsPart host)
    (hlogin : w.db.fetch .nickToUser (key (hostmask nick user host)) = some pLogin)
    (hcheck : nickStringCheck new = true) :
    ∃ w', (hNickChange (nickItem (hostmask nick user host) form new level)).run (perform env) w =
        some ((), w') ∧
      SameExcept (.timelog :: sessionDbs) w.db w'.db ∧
      w'.db.sessions = if 1 < (form.word new).length then
        (w.db.sessions.unbind (key pLogin)).rebind (key pLogin)
          (some (key (hostmask (form.word new).tail user host)))
        else w.db.sessions := by
  have hmask := isNetmask_hostmask hnick huser hhost
  have hitem : (nickItem (hostmask nick user host) form new level).pNetmask = _ :=
    nickItem_pNetmask hmask
  have hraw : (nickItem (hostmask nick user host) form new level).pRawLine = _ :=
    nickItem_pRawLine hmask.no_blank hcheck
  have hword := (congrArg (cutLast ' ') hraw).trans (cutLast_nickLine hcheck)
  have hmark : cutFirst '!' (hostmask nick user host) = _ := cutFirst_hostmask hnick
  obtain ⟨⟨⟨⟩, w'⟩, hrun⟩ := (total_hNickChange hitem hword hmark).run env w
  obtain ⟨same, hsessions⟩ := wp_hNickChange_session hitem hlogin hword hmark () w' hrun
  refine ⟨w', hrun, same, ?_⟩
  rw [hsessions, newNetmask_nickItem hnick huser hhost hcheck]
  by_cases hlong : 1 < (form.word new).length
  · rw [if_pos hlong, if_pos hlong]
  · rw [if_neg hlong, if_neg hlong]

/-- A session is carried over exactly where the new nick is a trailing parameter, or is the old
one and a single character. -/
theorem nick_change_carries_iff (inverse : w.db.sessions.Inverse)
    (hnick : IsPart nick) (huser : IsPart user) (hhost : IsPart host)
    (hlogin : w.db.fetch .nickToUser (key (hostmask nick user host)) = some pLogin)
    (hne : new ≠ []) (hcheck : nickStringCheck new = true)
    (hfree : ∀ owner, w.db.fetch .nickToUser (key (hostmask new user host)) = some owner →
      key owner = key pLogin) :
    (∃ w', (hNickChange (nickItem (hostmask nick user host) form new level)).run (perform env) w =
        some ((), w') ∧
      SessionCarried w w' (key pLogin) (hostmask nick user host) (hostmask new user host)) ↔
    form = .trailing ∨ new.length = 1 ∧ key nick = key new := by
  obtain ⟨w', hrun, same, hsessions⟩ :=
    run_hNickChange env form level hnick huser hhost hlogin hcheck
  have hcarried := sessionCarried_iff (hostmask new user host) hlogin
    (same.fetch (d := .access) (by decide))
  have hold : w.db.sessions.fwd (key pLogin) = some (key (hostmask nick user host)) := by
    refine inverse.backed _ _ ?_
    rw [Databases.sessions_bwd, hlogin, Option.map_some]
  have hlength := List.length_pos_iff.mpr hne
  suffices hiff : w.db.sessions.Moved w'.db.sessions (key pLogin) (key (hostmask new user host)) ↔
      form = .trailing ∨ new.length = 1 ∧ key nick = key new by
    rw [← hiff, ← hcarried]
    refine ⟨fun ⟨w'', hrun', carried⟩ => ?_, fun carried => ⟨w', hrun, carried⟩⟩
    cases hrun.symm.trans hrun'
    exact carried
  cases form with
  | trailing =>
    have hlong : 1 < (LastParam.trailing.word new).length := Nat.succ_lt_succ hlength
    rw [if_pos hlong] at hsessions
    refine iff_of_true ?_ (.inl rfl)
    rw [hsessions]
    refine inverse.moved fun x hx => ?_
    obtain ⟨owner, howner, rfl⟩ := Option.map_eq_some_iff.mp hx
    exact hfree owner howner
  | plain =>
    by_cases hlong : 1 < new.length
    · rw [if_pos (show 1 < (LastParam.plain.word new).length from hlong)] at hsessions
      refine iff_of_false (fun moved => ?_) (by simp; omega)
      have htarget : w'.db.sessions.fwd (key pLogin) =
          some (key (hostmask new.tail user host)) := by
        rw [hsessions]
        exact Paired.rebind_target _ _
      have hkey := key_hostmask.mp (Option.some.inj (htarget.symm.trans moved.target))
      have hlen := congrArg (fun k : Key => k.val.length) hkey
      simp only [length_key, List.length_tail] at hlen
      omega
    · rw [if_neg (show ¬ 1 < (LastParam.plain.word new).length from hlong)] at hsessions
      rw [hsessions, inverse.moved_refl, hold, Option.some.injEq, key_hostmask]
      have hone : new.length = 1 := by omega
      simp [hone]

theorem isPart_letters {part : CStr} (hne : part ≠ []) (h : part.all Char.isAlphanum = true) :
    IsPart part := by
  rw [List.all_eq_true] at h
  exact ⟨hne, fun hc => absurd (h _ hc) (by decide), fun hc => absurd (h _ hc) (by decide),
    fun hc => absurd (h _ hc) (by decide)⟩

end Session

/-! ## A nick change of one user -/

/-- The bot after `alice` has registered, and before she takes another nick. -/
theorem alice_registered : ∃ w : World Gdbm, w.db.sessions.Inverse ∧
    w.db.fetch .nickToUser (key (hostmask "alice" "a" "h")) = some "alice".toList ∧
    w.db.fetch .nickToUser (key (hostmask "bob" "a" "h")) = none := by
  have computed : (receiveAll (fun w e => e.undisputed w.db) calmEnv freshBot
      [":alice!a@h PRIVMSG ebotula :!hello"]).map (fun w =>
        (w.db.fetch .nickToUser (key "alice!a@h"), w.db.fetch .nickToUser (key "bob!a@h"))) =
      some (some "alice".toList, none) := by
    decide +kernel
  obtain ⟨w, hw, hsession⟩ := Option.map_eq_some_iff.mp computed
  obtain ⟨hold, hfree⟩ := Prod.mk.inj hsession
  obtain ⟨es, run⟩ := run_of_receiveAll hw
  exact ⟨w, freshBot_noSessions.inverse_run run, hold, hfree⟩

/-- `alice` becomes `bob` with a trailing parameter. -/
theorem nick_change_carries_bob : ∃ w w' : World Gdbm,
    (hNickChange (nickItem "alice!a@h" .trailing "bob" .loggedLevel)).run (perform calmEnv) w =
      some ((), w') ∧
    SessionCarried w w' (key "alice") "alice!a@h" "bob!a@h" := by
  obtain ⟨w, inverse, hlogin, hfree⟩ := alice_registered
  have hcheck : nickStringCheck "bob" = true := by decide +kernel
  obtain ⟨w', hrun, carried⟩ := (nick_change_carries_iff inverse
    (isPart_letters (by decide) (by decide)) (isPart_letters (by decide) (by decide))
    (isPart_letters (by decide) (by decide)) hlogin (by decide) hcheck
    (fun owner howner => by cases hfree.symm.trans howner)).mpr (.inl rfl)
  exact ⟨w, w', hrun, carried⟩

/-- With a plain parameter her session goes over to `ob`. -/
theorem nick_change_cut : ∃ w w' : World Gdbm, w.db.sessions.Inverse ∧
    w.db.fetch .nickToUser (key "alice!a@h") = some "alice".toList ∧
    w.db.fetch .nickToUser (key "bob!a@h") = none ∧
    (hNickChange (nickItem "alice!a@h" .plain "bob" .loggedLevel)).run (perform calmEnv) w =
      some ((), w') ∧
    w'.db.sessions.fwd (key "alice") = some (key "ob!a@h") ∧
    ¬ SessionCarried w w' (key "alice") "alice!a@h" "bob!a@h" := by
  obtain ⟨w, inverse, hlogin, hfree⟩ := alice_registered
  have hcheck : nickStringCheck "bob" = true := by decide +kernel
  obtain ⟨w', hrun, -, hsessions⟩ := run_hNickChange calmEnv .plain .loggedLevel
    (isPart_letters (by decide) (by decide)) (isPart_letters (by decide) (by decide))
    (isPart_letters (by decide) (by decide)) hlogin hcheck
  have htarget : w'.db.sessions.fwd (key "alice") = some (key "ob!a@h") := by
    rw [hsessions, if_pos (by decide)]
    exact Paired.rebind_target _ _
  refine ⟨w, w', inverse, hlogin, hfree, hrun, htarget, ?_⟩
  intro carried
  have hkey := Option.some.inj (htarget.symm.trans carried.moved.target)
  exact absurd (congrArg (fun k : Key => k.val) hkey) (by decide +kernel)

end Ebotula
