import Ebotula.Laws.Handlers
import Ebotula.Laws.Lines
import Ebotula.Laws.Requests
import Ebotula.Laws.Sessions

/-!
# Passwords

`!pass p` stores the hash of a password and `!ident u p` compares with it. The two take
the password out of their lines in different ways: `!pass` takes its parameters as a whole,
and parameters that begin with a channel sign are taken for a channel and left out;
`!ident` takes what stands behind the login. So the password that was set is the one that
is accepted exactly when both come to the same hash.
-/

set_option autoImplicit false

namespace Ebotula

open Library

variable {G : Type} [DbLib G] {env : Env} {w w' : World G} {pMsg : MsgItem}

/-! ## The handlers come back -/

section Total

attribute [local irreducible] Prog.Calls

theorem total_logOn {pNetmask : Option CStr} {pLogin : CStr} : Total (logOn pNetmask pLogin) := by
  refine .bind ?_ fun _ => ?_
  · unfold bindSession
    simp only [Prog.liftM_eq]
    refine .bind (total_request trivial) fun _ => ?_
    split
    · refine .bind (total_request trivial) fun pOldNetmask => ?_
      split
      · refine .bind total_delDb fun _ => .bind (calls_addDb trivial) fun _ => ?_
        exact .bind (calls_replaceDb trivial) fun _ => .pure ()
      · exact .pure ()
    · exact .bind (calls_addDb trivial) fun _ => .bind (calls_addDb trivial) fun _ => .pure ()
  · unfold stampLogin
    simp only [Prog.liftM_eq]
    refine .bind total_logger fun _ => .bind (total_request trivial) fun _ => ?_
    refine .bind (total_request trivial) fun _ => ?_
    split
    · exact .bind (calls_replaceDb trivial) fun _ => total_logger
    · exact .bind (calls_addDb trivial) fun _ => total_logger

theorem total_identChannels {pLogin : CStr} : Total (identChannels pMsg pLogin).lift := by
  refine Prog.Calls.lift (S := quietSig) (T := writeSig) ?_
  unfold identChannels
  refine .bind (.request trivial) fun isMaster => ?_
  refine .bind (.request (S := quietSig) trivial) fun pChannelQueue => ?_
  refine .bind (.request (S := quietSig) trivial) fun _ => .forEach fun _ => ?_
  unfold identChannel
  split
  · exact talks_mode.answered
  · refine .bind (.request trivial) fun pMod => ?_
    split
    · exact talks_mode.answered
    · exact .pure ()

theorem total_ident : Total (ident pMsg) := by
  unfold ident
  simp only [Prog.liftM_eq]
  refine .bind total_logger fun _ => .bind (total_request trivial) fun _ => ?_
  split
  · exact (talks_answer [] (by decide +kernel) rfl).total
  · split
    · exact Talks.total (talks_answer [] (by decide +kernel) rfl)
    · refine total_talkIf (talks_answer [] (by decide +kernel) rfl) ?_
      refine .bind total_logger fun _ => .bind (total_request trivial) fun _ => ?_
      split
      · refine .bind total_logger fun _ => .bind total_logOn fun _ => ?_
        refine .bind (talks_answer [] (by decide +kernel) rfl).total fun _ => ?_
        exact total_identChannels
      · exact (talks_answer [] (by decide +kernel) rfl).total

theorem total_password : Total (password pMsg) := by
  unfold password
  simp only [Prog.liftM_eq]
  refine .bind (total_request trivial) fun pLogin => ?_
  split
  · exact .pure ()
  · refine .bind total_logger fun _ => ?_
    split
    · refine total_talkIf (talks_answer [] (by decide +kernel) rfl) ?_
      refine .bind (calls_replaceDb trivial) fun _ => ?_
      exact (talks_answer [] (by decide +kernel) rfl).total
    · exact .pure ()

end Total

/-! ## What they do -/

/-- A netmask is logged on as an account. -/
def Databases.LoggedOnAs (dbs : Databases G) (pNetmask pLogin : CStr) : Prop :=
  (dbs.fetch .nickToUser (key pNetmask)).map key = some (key pLogin)

/-- `password` stores the hash of its parameters, or that of the empty text. -/
theorem wp_password_stores {pNetmask pLogin : CStr} (hmask : pMsg.pNetmask = some pNetmask)
    (session : w.db.fetch .nickToUser (key pNetmask) = some pLogin) (hne : pLogin ≠ [])
    (account : (w.db.fetch .user (key pLogin)).isSome) :
    (password pMsg).wp (perform env) (fun _ w' => w'.db.fetch .user (key pLogin) =
      some (DbLib.crypt G (pMsg.parameters.getD []))) w := by
  have hsession : w.db.getDb .nickToUser (some pNetmask) = some pLogin := session
  simp only [password, Prog.wp_bind, Prog.liftM_eq, wp_perform_lift, wp_getDb, hmask, hsession]
  refine wp_quiet fun _ w₁ h₁ => ?_
  rw [List.isEmpty_eq_false_iff.mpr hne, Bool.not_false, if_pos rfl]
  simp only [Prog.wp_ite, Prog.wp_bind, wp_perform_lift, wp_replaceDb]
  refine wp_answerIf fun w₂ h₂ => wp_quiet fun _ w₃ h₃ => ?_
  rw [h₃, h₂, h₁, Databases.fetch_replaceDb, if_pos account, Function.update_self]
  rfl

/-- `ident` logs on a netmask that was not yet exactly when the password is the account's. -/
theorem wp_ident_guest {pNetmask pParameter : CStr} (hmask : pMsg.pNetmask = some pNetmask)
    (guest : w.db.fetch .nickToUser (key pNetmask) = none)
    (hparameter : pMsg.parameters = some pParameter) :
    (ident pMsg).wp (perform env) (fun _ w' =>
      w'.db.LoggedOnAs pNetmask (strtokBuf ' ' pParameter) ↔
        w.db.fetch .user (key (strtokBuf ' ' pParameter)) =
          some (DbLib.crypt G (((cutFirst ' ' pParameter).map Prod.snd).getD []))) w := by
  have hguest : w.db.existDb .nickToUser (some pNetmask) = false := by
    rw [Databases.existDb_some, guest, Option.isSome_none]
  have unbound : w.db.sessions.bwd (key pNetmask) = none := by
    rw [Databases.sessions_bwd, guest, Option.map_none]
  simp only [ident, Prog.wp_bind, Prog.liftM_eq, wp_perform_lift]
  refine wp_quiet fun _ w₁ h₁ => ?_
  simp only [wp_existDb, Prog.wp_ite, wp_perform_lift, h₁, hmask, hguest, hparameter,
    Bool.false_eq_true, false_implies, true_and, not_false_eq_true, forall_const]
  simp only [Prog.wp_ite, Prog.wp_bind, wp_perform_lift, wp_checkDb]
  refine wp_answerIf fun w₂ h₂ => wp_quiet fun _ w₃ h₃ => ?_
  rw [h₃, h₂, h₁, Databases.checkDb_eq_true]
  refine ⟨fun hcheck => ?_, fun hcheck => ?_⟩
  · refine wp_quiet fun _ w₄ h₄ => wp_logOn fun w₅ _ hsessions => ?_
    refine wp_quiet fun _ w₆ h₆ => wp_quiet fun _ w₇ h₇ => iff_of_true ?_ hcheck
    show w₇.db.sessions.bwd (key pNetmask) = _
    rw [h₇, h₆, hsessions, h₄, h₃, h₂, h₁, Option.map_some, Paired.rebind_free unbound]
  · refine wp_quiet fun _ w₄ h₄ => iff_of_false (fun hlogged => ?_) hcheck
    rw [h₄, h₃, h₂, h₁] at hlogged
    cases unbound.symm.trans hlogged

/-! ## The two ways to a password -/

/-- The password that `!pass` takes from its line. -/
def passTaken (head p : CStr) : CStr := (parameterOf (argumentSeen head p)).getD []

/-- The password that `!ident` takes from its line, behind the login. -/
def identTaken (head p : CStr) : CStr :=
  if (getChannel (head ++ [' '])).isSome then p else argumentLeft p

section Extract

variable {head p u : CStr}

/-- The characters of a nick are no white space and no marks. -/
theorem nick_chars (hnick : nickStringCheck u = true) {c : Char} (hc : c ∈ u) :
    IsPlain c ∧ c ≠ ':' ∧ c ≠ '#' := by
  rw [nickStringCheck, Bool.and_eq_true, List.all_eq_true] at hnick
  have hallowed := hnick.2 c hc
  refine ⟨⟨?_, ?_, ?_, ?_⟩, ?_, ?_⟩ <;>
  · rintro rfl
    revert hallowed
    decide

theorem nick_word (hu : u ≠ []) (hnick : nickStringCheck u = true) : IsWord u :=
  ⟨hu, fun _ hc => (nick_chars hnick hc).1⟩

theorem nick_no_blank (hnick : nickStringCheck u = true) : ' ' ∉ u :=
  fun h => (nick_chars hnick h).1.1 rfl

theorem nick_head (hnick : nickStringCheck u = true) (t : CStr) : u ≠ [] →
    (u ++ t).head? ≠ some '#' := by
  intro hu hhead
  rw [List.head?_append_of_ne_nil _ hu] at hhead
  exact (nick_chars hnick (List.mem_of_mem_head? hhead)).2.2 rfl

/-- No text begins at a nick. -/
theorem cutString_nick (hu : u ≠ []) (hnick : nickStringCheck u = true) (t : CStr) :
    cutString " :#".toList (' ' :: (u ++ t)) =
      (cutString " :#".toList t).map fun p => (' ' :: u ++ p.1, p.2) := by
  have hfirst : ¬ " :#".toList <+: ' ' :: (u ++ t) := by
    intro hpat
    cases u with
    | nil => exact hu rfl
    | cons c u =>
      have hc := (List.cons_prefix_cons.mp (List.cons_prefix_cons.mp hpat).2).1
      exact (nick_chars hnick List.mem_cons_self).2.1 hc.symm
  rw [cutString_cons hfirst, show " :#".toList = ' ' :: ":#".toList from rfl,
    cutString_skip (nick_no_blank hnick), Option.map_map]
  rfl

theorem argumentSeen_login (hu : u ≠ []) (hnick : nickStringCheck u = true) :
    argumentSeen head (u ++ ' ' :: p) = u ++ ' ' :: identTaken head p := by
  rw [argumentSeen, identTaken]
  by_cases hchannel : (getChannel (head ++ [' '])).isSome
  · rw [if_pos (.inr hchannel), if_pos hchannel]
  · rw [if_neg (not_or.mpr ⟨nick_head hnick _ hu, hchannel⟩), if_neg hchannel]
    have hlogin := cutString_nick hu hnick (' ' :: p)
    cases hcut : cutString " :#".toList (' ' :: p) with
    | none => rw [argumentLeft, argumentLeft, hlogin, hcut, Option.map_none]
    | some split =>
      obtain ⟨before, rest⟩ := split
      rw [hcut, Option.map_some] at hlogin
      have hleft := argumentLeft_blank hlogin
      rw [List.append_assoc (' ' :: u), List.append_assoc (' ' :: u), argumentLeft_blank hcut]
        at hleft
      exact (List.cons.inj hleft).2.symm

theorem argumentSeen_nick (hu : u ≠ []) (hnick : nickStringCheck u = true) :
    argumentSeen head u = u := by
  rw [argumentSeen]
  split
  · rfl
  · have hcut := cutString_nick hu hnick []
    rw [List.append_nil] at hcut
    rw [argumentLeft, hcut]
    rfl

theorem identTaken_ne (hp : p ≠ []) (htrim : IsTrimmed p) : identTaken head p ≠ [] := by
  rw [identTaken]
  split
  · exact hp
  · exact (argumentLeft_append hp htrim).1

end Extract

/-! ## The password that was set -/

/-- The line with which a netmask sends a bot command, as its handler is given it. -/
def itemOf (pNetmask middle word arg : CStr) (userLevel : UserLevel) : MsgItem :=
  fillItem (commandLine (sentBy pNetmask middle) word arg) userLevel true

section Accepted

variable {env' : Env} {m m' middle middle' p u pLogin : CStr} {level level' : UserLevel}

/-- What `!pass` leaves in the account. -/
theorem password_stores (hm : IsNetmask m) (hhead : IsHead (sentBy m middle)) (hp : p ≠ [])
    (htrim : IsTrimmed p) (hlogin : pLogin ≠ [])
    (session : w.db.fetch .nickToUser (key m) = some pLogin)
    (account : (w.db.fetch .user (key pLogin)).isSome) :
    ∃ w', (password (itemOf m middle "pass" p level)).run (perform env) w = some ((), w') ∧
      w'.db.fetch .user (key pLogin) =
        some (DbLib.crypt G (passTaken (sentBy m middle) p)) := by
  obtain ⟨⟨⟨⟩, w'⟩, hrun⟩ := total_password.run env w
  refine ⟨w', hrun, ?_⟩
  have hstored := wp_password_stores (getNetmask_sentBy hm) session hlogin account () w' hrun
  rwa [itemOf, parameters_commandLine hhead (by decide) hp htrim] at hstored

/-- Whether `!ident` logs on. -/
theorem ident_accepts {arg pParameter : CStr} (hm : IsNetmask m) (hhead : IsHead (sentBy m middle))
    (harg : arg ≠ []) (htrim : IsTrimmed arg)
    (hseen : parameterOf (argumentSeen (sentBy m middle) arg) = some pParameter)
    (guest : w.db.fetch .nickToUser (key m) = none) :
    ∃ w', (ident (itemOf m middle "ident" arg level)).run (perform env) w = some ((), w') ∧
      (w'.db.LoggedOnAs m (strtokBuf ' ' pParameter) ↔
        w.db.fetch .user (key (strtokBuf ' ' pParameter)) =
          some (DbLib.crypt G (((cutFirst ' ' pParameter).map Prod.snd).getD []))) := by
  obtain ⟨⟨⟨⟩, w'⟩, hrun⟩ := total_ident.run env w
  refine ⟨w', hrun, wp_ident_guest (getNetmask_sentBy hm) guest ?_ () w' hrun⟩
  exact (parameters_commandLine hhead (by decide) harg htrim).trans hseen

/-- After `!pass p` the login with `p` is accepted and the one without a password is not,
exactly when what `!pass` and `!ident` take for the password has one hash. -/
theorem password_accepted (hcrypt : ∀ q ≠ [], DbLib.crypt G q ≠ DbLib.crypt G [])
    (hm : IsNetmask m) (hhead : IsHead (sentBy m middle))
    (hm' : IsNetmask m') (hhead' : IsHead (sentBy m' middle'))
    (hp : p ≠ []) (htrim : IsTrimmed p) (hu : u ≠ []) (hnick : nickStringCheck u = true)
    (session : w.db.fetch .nickToUser (key m) = some pLogin) (login : key pLogin = key u)
    (account : (w.db.fetch .user (key u)).isSome) :
    ∃ w₁, (password (itemOf m middle "pass" p level)).run (perform env) w = some ((), w₁) ∧
      ∀ w₂ : World G, w₂.db.fetch .user (key u) = w₁.db.fetch .user (key u) →
        w₂.db.fetch .nickToUser (key m') = none →
        ∃ w₃ w₄, (ident (itemOf m' middle' "ident" (u ++ ' ' :: p) level')).run (perform env') w₂ =
            some ((), w₃) ∧
          (ident (itemOf m' middle' "ident" u level')).run (perform env') w₂ = some ((), w₄) ∧
          ((w₃.db.LoggedOnAs m' u ∧ ¬ w₄.db.LoggedOnAs m' u) ↔
            DbLib.crypt G (passTaken (sentBy m middle) p) =
              DbLib.crypt G (identTaken (sentBy m' middle') p)) := by
  have hlogin : pLogin ≠ [] := by
    rintro rfl
    exact hu (List.map_eq_nil_iff.mp (congrArg Subtype.val login).symm)
  have hblank := nick_no_blank hnick
  obtain ⟨w₁, hpass, hstored⟩ := @password_stores _ _ env w _ middle p _ level hm hhead hp htrim
    hlogin session (login ▸ account)
  refine ⟨w₁, hpass, fun w₂ hsame guest => ?_⟩
  obtain ⟨w₃, hwith, haccepts⟩ := @ident_accepts _ _ env' w₂ _ _ level' (u ++ ' ' :: p)
    (u ++ ' ' :: identTaken (sentBy m' middle') p) hm' hhead' (by simp)
    (.word (nick_word hu hnick) hp htrim)
    (by rw [argumentSeen_login hu hnick]; exact if_neg (nick_head hnick _ hu)) guest
  obtain ⟨w₄, hwithout, hrefuses⟩ := @ident_accepts _ _ env' w₂ _ _ level' u u hm' hhead' hu
    (nick_word hu hnick).trimmed
    (by rw [argumentSeen_nick hu hnick]
        exact if_neg fun h => nick_head hnick [] hu (by rwa [List.append_nil])) guest
  refine ⟨w₃, w₄, hwith, hwithout, ?_⟩
  have hrecord : w₂.db.fetch .user (key u) =
      some (DbLib.crypt G (passTaken (sentBy m middle) p)) := by
    rw [hsame, ← login, hstored]
  rw [strtokBuf_append hu hblank, cutFirst_append _ hblank, hrecord] at haccepts
  rw [strtokBuf_of_not_mem hblank, cutFirst_eq_none_iff.mpr hblank, hrecord] at hrefuses
  simp only [Option.map_some, Option.map_none, Option.getD_some, Option.getD_none,
    Option.some.injEq] at haccepts hrefuses
  rw [haccepts, hrefuses]
  refine ⟨And.left, fun h => ⟨h, fun hempty => ?_⟩⟩
  exact hcrypt _ (identTaken_ne hp htrim) (h.symm.trans hempty)

end Accepted

/-- Where the password begins with no channel sign, and both lines name a channel in front
of the text or neither does, both take the same. -/
theorem passTaken_eq_identTaken {head head' p : CStr} (hp : p.head? ≠ some '#')
    (hp' : (argumentLeft p).head? ≠ some '#')
    (hchannel : (getChannel (head ++ [' '])).isSome = (getChannel (head' ++ [' '])).isSome) :
    passTaken head p = identTaken head' p := by
  rw [passTaken, identTaken, argumentSeen, ← hchannel]
  by_cases h : (getChannel (head ++ [' '])).isSome
  · rw [if_pos (.inr h), if_pos h, parameterOf, if_neg hp]
    rfl
  · rw [if_neg (not_or.mpr ⟨hp, h⟩), if_neg h, parameterOf, if_neg hp']
    rfl

/-! ## A password with a channel sign -/

/-- Database files with the hashes of three passwords. What crypt makes of others does not
matter here, but it is another hash. -/
def HashedGdbm : Type := Assoc CStr CStr

instance : Table HashedGdbm CStr CStr := inferInstanceAs (Table (Assoc CStr CStr) CStr CStr)

instance : DbLib HashedGdbm where
  crypt q :=
    if q = [] then "SLW/he1AY2Gzc".toList
    else if q = "secret".toList then "SLQ058p.rJC7A".toList
    else if q = "#secret".toList then "SLTw2U.m3xMkA".toList
    else "SL ".toList ++ q

theorem crypt_hashedGdbm (q : CStr) (hq : q ≠ []) :
    DbLib.crypt HashedGdbm q ≠ DbLib.crypt HashedGdbm [] := by
  show (if q = [] then _ else _) ≠ (if ([] : CStr) = [] then _ else _)
  rw [if_neg hq, if_pos rfl]
  split
  · decide
  · split
    · decide
    · exact fun h => absurd (List.cons.inj (List.cons.inj (List.cons.inj h).2).2).1 (by decide)

/-- A bot whose only account is logged on. -/
def aliceLoggedOn : World HashedGdbm where
  db db := match db with
    | .user => Table.store Table.empty "alice".toList (DbLib.crypt HashedGdbm [])
    | .userToNick => Table.store Table.empty "alice".toList "alice!a@h".toList
    | .nickToUser => Table.store Table.empty "alice!a@h".toList "alice".toList
    | _ => Table.empty
  callbackList := .init
  pBotname := "ebotula"
  stop := false
  again := false
  sent := []
  log := []

/-- Alice sets a password, and logs on with it from home. -/
theorem password_accepted_secret : ∃ w₁ w₃ w₄ : World HashedGdbm,
    (password (itemOf "alice!a@h" "PRIVMSG ebotula" "pass" "secret" .loggedLevel)).run
      (perform calmEnv) aliceLoggedOn = some ((), w₁) ∧
    (ident (itemOf "alice!a@home" "PRIVMSG ebotula" "ident" "alice secret" .noneLevel)).run
      (perform calmEnv) w₁ = some ((), w₃) ∧
    (ident (itemOf "alice!a@home" "PRIVMSG ebotula" "ident" "alice" .noneLevel)).run
      (perform calmEnv) w₁ = some ((), w₄) ∧
    w₃.db.LoggedOnAs "alice!a@home" "alice" ∧ ¬ w₄.db.LoggedOnAs "alice!a@home" "alice" := by
  obtain ⟨w₁, hpass, hlater⟩ := @password_accepted HashedGdbm _ calmEnv aliceLoggedOn calmEnv
    "alice!a@h" "alice!a@home" "PRIVMSG ebotula" "PRIVMSG ebotula" "secret" "alice" "alice"
    .loggedLevel .noneLevel crypt_hashedGdbm
    ⟨by decide, .inl (by decide)⟩ (by decide) ⟨by decide, .inl (by decide)⟩ (by decide)
    (by decide) (by decide) (by decide) (by decide +kernel) (by decide +kernel) rfl
    (by decide +kernel)
  have guest : w₁.db.fetch .nickToUser (key "alice!a@home") = none := by
    have computed : ((password (itemOf "alice!a@h" "PRIVMSG ebotula" "pass" "secret"
        .loggedLevel)).run (perform calmEnv) aliceLoggedOn).map
        (fun r => r.2.db.fetch .nickToUser (key "alice!a@home")) = some none := by
      decide +kernel
    rw [hpass] at computed
    exact Option.some.inj computed
  obtain ⟨w₃, w₄, hwith, hwithout, haccepted⟩ := hlater w₁ rfl guest
  have htaken := @passTaken_eq_identTaken (sentBy "alice!a@h" "PRIVMSG ebotula")
    (sentBy "alice!a@home" "PRIVMSG ebotula") "secret" (by decide) (by decide)
    (by decide)
  obtain ⟨hlogged, hrefused⟩ := haccepted.mpr (by rw [htaken])
  exact ⟨w₁, w₃, w₄, hpass, hwith, hwithout, hlogged, hrefused⟩

/-- The password `#secret` is taken for a channel: it is not accepted, and the account is open
to everybody who gives none. -/
theorem password_lost_channelSign : IsTrimmed "#secret" ∧ ∃ w₁ w₃ w₄ : World HashedGdbm,
    (password (itemOf "alice!a@h" "PRIVMSG ebotula" "pass" "#secret" .loggedLevel)).run
      (perform calmEnv) aliceLoggedOn = some ((), w₁) ∧
    (ident (itemOf "alice!a@home" "PRIVMSG ebotula" "ident" "alice #secret" .noneLevel)).run
      (perform calmEnv) w₁ = some ((), w₃) ∧
    (ident (itemOf "alice!a@home" "PRIVMSG ebotula" "ident" "alice" .noneLevel)).run
      (perform calmEnv) w₁ = some ((), w₄) ∧
    ¬ w₃.db.LoggedOnAs "alice!a@home" "alice" ∧ w₄.db.LoggedOnAs "alice!a@home" "alice" := by
  have computed : ((password (itemOf "alice!a@h" "PRIVMSG ebotula" "pass" "#secret"
      .loggedLevel)).run (perform calmEnv) aliceLoggedOn).bind (fun r₁ =>
      ((ident (itemOf "alice!a@home" "PRIVMSG ebotula" "ident" "alice #secret" .noneLevel)).run
        (perform calmEnv) r₁.2).bind fun r₃ =>
      ((ident (itemOf "alice!a@home" "PRIVMSG ebotula" "ident" "alice" .noneLevel)).run
        (perform calmEnv) r₁.2).map fun r₄ =>
        ((r₃.2.db.fetch .nickToUser (key "alice!a@home")).map key,
          (r₄.2.db.fetch .nickToUser (key "alice!a@home")).map key)) =
      some (none, some (key "alice")) := by
    decide +kernel
  obtain ⟨⟨⟨⟩, w₁⟩, hpass, hrest⟩ := Option.bind_eq_some_iff.mp computed
  obtain ⟨⟨⟨⟩, w₃⟩, hwith, hrest⟩ := Option.bind_eq_some_iff.mp hrest
  obtain ⟨⟨⟨⟩, w₄⟩, hwithout, hfacts⟩ := Option.map_eq_some_iff.mp hrest
  obtain ⟨hrefused, hlogged⟩ := Prod.mk.inj hfacts
  refine ⟨by decide, w₁, w₃, w₄, hpass, hwith, hwithout, fun h => ?_, hlogged⟩
  exact absurd (hrefused.symm.trans h) nofun

end Ebotula
