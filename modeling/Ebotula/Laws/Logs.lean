import Ebotula.Laws.Authorization
import Ebotula.Laws.Recognition
import Ebotula.Laws.Sending
import Ebotula.Log

/-!
# The log, routine by routine

The rules by which the log of a routine is put together: one for each call, in the order of the
calls. What a routine only asks is not seen; what it says depends on nothing but the lines that were
sent before. The receive loop and the parser come out as two messages in front of whatever the
worker does: the line, or a text in its place if `ident` stands in it, and the name of the command.
-/

set_option autoImplicit false

namespace Ebotula

open Library

variable {G : Type} {env : Env} {count : SendCount} {w w' : World G}

/-! ## What a routine logs -/

/-- A request that the log does not show. -/
def Op.Silent : Op → Prop
  | .sendLine _ | .logger _ => False
  | _ => True

theorem Op.Silent.logs {o : Op} (h : o.Silent) (w : World G) : o.logs env count w = [] := by
  cases o <;> first | exact h.elim | rfl

variable [DbLib G]

section Logs

variable {α β : Type}

theorem botLog_lift (p : Quiet α) : botLog env count (p.lift : Bot α) w = quietLog env count p w :=
  Prog.emits_lift p w

/-- A routine that writes nothing, and what comes behind it. -/
theorem botLog_bind_of_run {p : Quiet α} {f : α → Bot β} {a : α}
    (h : p.run (performQuiet env) w = some (a, w')) :
    botLog env count (p.lift >>= f) w = quietLog env count p w ++ botLog env count (f a) w' := by
  rw [← botLog_lift]
  exact Prog.emits_bind_of_run (h := (run_perform_lift p).trans h)

theorem quietLog_bind_of_run {p : Quiet α} {f : α → Quiet β} {a : α}
    (h : p.run (performQuiet env) w = some (a, w')) :
    quietLog env count (p >>= f) w = quietLog env count p w ++ quietLog env count (f a) w' :=
  Prog.emits_bind_of_run h

theorem quietLog_logger {priority : LogLevel} {format : CStr} {args : List FmtArg} :
    quietLog env count (logger priority format args) w = [⟨priority, format, args⟩] :=
  Prog.emits_request (S := quietSig) _ _

theorem botLog_logger {priority : LogLevel} {format : CStr} {args : List FmtArg}
    {f : Unit → Bot α} : botLog env count ((logger priority format args).lift >>= f) w =
      ⟨priority, format, args⟩ :: botLog env count (f ()) (w.logging ⟨priority, format, args⟩) := by
  rw [botLog_bind_of_run run_logger, quietLog_logger]
  rfl

/-- A question that is not shown. -/
theorem botLog_silent {p : Quiet α} {f : α → Bot β} {a : α} (hp : p.Calls Op.Silent)
    (h : p.run (performQuiet env) w = some (a, w')) :
    botLog env count (p.lift >>= f) w = botLog env count (f a) w' := by
  have hnil : quietLog env count p w = [] := hp.emits_nil (fun _ ho w => ho.logs w) w
  rw [botLog_bind_of_run h, hnil, List.nil_append]

variable {db : DatabaseID} {k v : Option CStr}

theorem botLog_getDb {f : Option CStr → Bot α} :
    botLog env count ((getDb db k).lift >>= f) w = botLog env count (f (w.db.getDb db k)) w :=
  botLog_silent (.request (S := quietSig) trivial) run_getDb

theorem botLog_existDb {f : Bool → Bot α} :
    botLog env count ((existDb db k).lift >>= f) w = botLog env count (f (w.db.existDb db k)) w :=
  botLog_silent (.request (S := quietSig) trivial) run_existDb

theorem botLog_checkDb {f : Bool → Bot α} : botLog env count ((checkDb db k v).lift >>= f) w =
    botLog env count (f (w.db.checkDb db k v)) w :=
  botLog_silent (.request (S := quietSig) trivial) (Prog.run_request (S := quietSig) _ _)

theorem silent_getDb (db : DatabaseID) (k : Option CStr) : (getDb db k).Calls Op.Silent :=
  .request (S := quietSig) trivial

theorem silent_masterLevel (pLogin : CStr) : (do
    match ← getDb .access (some pLogin) with
    | some _ => return UserLevel.masterLevel
    | none => return .loggedLevel : Quiet UserLevel).Calls Op.Silent := by
  refine .bind (silent_getDb _ _) fun pLevel => ?_
  cases pLevel <;> exact .pure _

theorem silent_getUserLevel (pChannel pNetmask : Option CStr) :
    (getUserLevel pChannel pNetmask).Calls Op.Silent := by
  unfold getUserLevel
  refine .bind (silent_getDb _ _) fun pLogin => ?_
  cases pLogin with
  | none => exact .pure _
  | some pLogin =>
    cases pChannel with
    | none => exact silent_masterLevel pLogin
    | some pChannel =>
      refine .bind (silent_getDb _ _) fun pLevel => ?_
      cases pLevel with
      | none => exact silent_masterLevel pLogin
      | some pLevel => exact .ite (.pure _) (.ite (.pure _) (.pure _))

theorem botLog_getUserLevel {pChannel pNetmask : Option CStr} {f : UserLevel → Bot α} :
    botLog env count ((getUserLevel pChannel pNetmask).lift >>= f) w =
      botLog env count (f (w.db.userLevel pChannel pNetmask)) w :=
  botLog_silent (silent_getUserLevel _ _) run_getUserLevel

/-- A write is not shown. -/
theorem botLog_replaceDb (f : Bool → Bot α) : ∃ (b : Bool) (dbs : Databases G),
    botLog env count (replaceDb db k v >>= f) w = botLog env count (f b) { w with db := dbs } :=
  ⟨_, _, Prog.emits_request_bind (S := quietSig.sum writeSig) (o := .inr (.replaceDb db k v)) rfl⟩

/-! ### Talk -/

/-- What talk logs depends on the lines that were sent before, and on nothing else. -/
theorem Talks.log_congr {p : Quiet α} (h : Talks p) (hsent : w.sent = w'.sent) :
    quietLog env count p w = quietLog env count p w' := by
  refine Prog.Calls.emits_congr (R := fun w w' : World G => w.sent = w'.sent) h
    (fun o ho w w' hsent => ?_) hsent
  cases o with
  | sendLine pMsg =>
    refine ⟨congrArg (sendLog env count · pMsg) hsent, _, _, _, rfl, rfl, ?_⟩
    exact congrArg (· ++ [pMsg]) hsent
  | logger line => exact ⟨rfl, _, _, _, rfl, rfl, hsent⟩
  | _ => exact ho.elim

/-- How much it logs does not even depend on these. -/
theorem Talks.length_log {p : Quiet α} (h : Talks p) (w w' : World G) :
    (quietLog env count p w).length = (quietLog env count p w').length := by
  have hlength (w : World G) : (quietLog env count p w).length =
      ((quietLog env count p w).map fun _ => ()).length := (List.length_map _).symm
  rw [hlength, hlength, quietLog, quietLog, Prog.map_emits, Prog.map_emits]
  refine congrArg List.length (Prog.Calls.emits_congr (R := fun _ _ => True) h
    (fun o ho w w' _ => ?_) trivial)
  cases o with
  | sendLine pMsg =>
    refine ⟨?_, _, _, _, rfl, rfl, trivial⟩
    simp only [Op.logs, sendLog, List.map_append, List.map_cons, List.map_nil]
  | logger line => exact ⟨rfl, _, _, _, rfl, rfl, trivial⟩
  | _ => exact ho.elim

end Logs

/-! ## Answers are seen -/

section Answers

attribute [local irreducible] Prog.Calls

variable {pMsg : MsgItem}

theorem Talks.runs {p : Quiet Unit} (h : Talks p) (env : Env) (w : World G) :
    ∃ w', p.run (performQuiet env) w = some ((), w') ∧ w'.db = w.db := by
  obtain ⟨⟨⟨⟩, w'⟩, hrun⟩ := Prog.Calls.total h.answered
    (fun _ ho w => performQuiet_answers ho w) w
  exact ⟨w', hrun, wp_quiet (Q := fun _ w' => w'.db = w.db) (fun _ _ hdb => hdb) () w' hrun⟩

/-- What is said behind a write is not about the write. -/
theorem botLog_replaceDb_talk {db : DatabaseID} {k v : Option CStr} {p : Quiet Unit}
    (h : Talks p) :
    botLog env count (replaceDb db k v >>= fun _ => p.lift) w = quietLog env count p w := by
  obtain ⟨_, dbs, hlog⟩ : ∃ (b : Bool) (dbs : Databases G),
      botLog env count (replaceDb db k v >>= fun _ => p.lift) w =
        botLog env count (p.lift : Bot Unit) { w with db := dbs } :=
    botLog_replaceDb fun _ => p.lift
  rw [hlog, botLog_lift]
  exact h.log_congr rfl

/-- A message of `SendLine`, or of a routine that has nothing to send. -/
def LogLine.OfSending (line : LogLine) : Prop :=
  line.priority ≠ .debug ∨ ∃ text, vsprintf line.format line.args = some ('S' :: text)

theorem vsprintf_send (nCharPerMinute limit : Int) (pMsg : CStr) : ∃ text,
    vsprintf "Send(%d/%d): \"%s\"" [.int nCharPerMinute, .int limit, .str pMsg] =
      some ('S' :: text) := by
  have hrest : Formats "end(%d/%d): \"%s\"" [.int 0, .int 0, .str none] := by decide +kernel
  obtain ⟨text, htext⟩ : ∃ text, vsprintf "end(%d/%d): \"%s\""
      [.int nCharPerMinute, .int limit, .str pMsg] = some text := hrest.of_kinds rfl
  have hformat : "Send(%d/%d): \"%s\"".toList = 'S' :: "end(%d/%d): \"%s\"".toList := by
    decide +kernel
  refine ⟨text, ?_⟩
  rw [hformat, vsprintf_cons (by decide), htext, Option.map_some]

theorem sendCommand_shown {format : CStr} {args : List (CStr × Option CStr)}
    (kinds : List FmtArg) (h : Formats format kinds)
    (hargs : (args.map fun arg => FmtArg.str arg.2).map FmtArg.blank = kinds) :
    ∃ line rest, quietLog env count (sendCommand format args) w = line :: rest ∧
      line.OfSending := by
  obtain ⟨buffer, hbuffer⟩ := h.of_kinds hargs
  unfold sendCommand
  split
  · exact ⟨_, _, quietLog_logger, .inl nofun⟩
  · rw [hbuffer]
    have hsent : quietLog env count (sendLine buffer) w = sendLog env count w.sent buffer :=
      Prog.emits_request (S := quietSig) _ _
    dsimp only
    rw [hsent, sendLog]
    split
    · exact ⟨_, _, rfl, .inr (vsprintf_send _ _ _)⟩
    · exact ⟨_, _, rfl, .inl nofun⟩

/-- Whatever is answered leaves a message of this kind. -/
theorem answer_shown {format : CStr} {args : List FmtArg} (kinds : List FmtArg)
    (h : Formats format kinds) (hargs : args.map FmtArg.blank = kinds) :
    ∃ line rest, quietLog env count (answer pMsg format args) w = line :: rest ∧
      line.OfSending := by
  obtain ⟨text, htext⟩ := h.of_kinds hargs
  unfold answer sendText
  rw [htext]
  dsimp only
  split
  · rw [notice]
    exact sendCommand_shown [.str none, .str none] (by decide +kernel) rfl
  · rw [privmsg]
    exact sendCommand_shown [.str none, .str none] (by decide +kernel) rfl

end Answers

/-! ## From the line to the handler -/

section Line

variable {pLine pPos : CStr} {c : Cmd}

/-- The message for a bot command that was found. -/
def foundLine (c : Cmd) : LogLine := ⟨.debug, "Found command %s", [.str (pCmdString c)]⟩

theorem identifyMessage_command (hc : c ∈ Cmd.commands) (h : textCommand pLine = c) :
    identifyMessage pLine =
      logger .debug "Found command %s" [.str (pCmdString c)] >>= fun _ => pure c := by
  have hnone : c ≠ .cmdNone := fun he => cmdNone_not_command (he ▸ hc)
  unfold textCommand at h
  unfold identifyMessage
  cases hmark : cutString " :!".toList pLine with
  | some parts =>
    rw [hmark] at h
    dsimp only at h ⊢
    cases hfind : Cmd.commands.find? (startsWith · parts.2) with
    | none =>
      rw [hfind] at h
      exact absurd h.symm hnone
    | some i =>
      rw [hfind] at h
      obtain rfl : i = c := h
      rfl
  | none =>
    -- a CTCP command is none of the bot commands
    rw [hmark] at h
    dsimp only at h
    have hctcp : c ∈ ctcpCommands ∨ c = .cmdNone := by
      cases hcut : cutString " :\x01".toList pLine with
      | none =>
        rw [hcut] at h
        exact .inr h.symm
      | some parts =>
        rw [hcut] at h
        dsimp only at h
        cases hfind : [Cmd.ctcpPing, .ctcpVersion, .ctcpTime].find?
            (startsWith · ('\x01' :: parts.2)) with
        | none =>
          rw [hfind] at h
          exact .inr h.symm
        | some i =>
          rw [hfind] at h
          obtain rfl : i = c := h
          exact .inl (mem_of_find_startsWith hfind).1
    have happart : ∀ c ∈ ctcpCommands, c ∉ Cmd.commands := by decide
    exact absurd hc (happart c (hctcp.resolve_right hnone))

theorem identifyLine_command (hc : c ∈ Cmd.commands) (h : identified pLine pPos = c) :
    identifyLine pLine pPos =
      logger .debug "Found command %s" [.str (pCmdString c)] >>= fun _ => pure c := by
  have hnone : c ≠ .cmdNone := fun he => cmdNone_not_command (he ▸ hc)
  unfold identified at h
  unfold identifyLine
  split at h
  · exact absurd h.symm hnone
  · next hping =>
    rw [if_neg hping]
    cases hevent : eventOrder.find? (startsWith · pPos) with
    | some event =>
      rw [hevent] at h
      obtain rfl : event = c := h
      have hevents : ∀ c ∈ eventOrder, c ∉ Cmd.commands := by decide
      exact absurd hc (hevents _ (mem_of_find_startsWith hevent).1)
    | none =>
      rw [hevent] at h
      dsimp only at h ⊢
      split at h
      · next hmessage =>
        rw [if_pos hmessage]
        exact identifyMessage_command hc h
      · exact absurd h.symm hnone

/-- A bot command is logged by its name. -/
theorem preParser_command (hc : c ∈ Cmd.commands) (h : identity pLine = c) :
    preParser pLine =
      logger .debug "Found command %s" [.str (pCmdString c)] >>= fun _ => pure ⟨c, pLine⟩ := by
  have hnone : c ≠ .cmdNone := fun he => cmdNone_not_command (he ▸ hc)
  have hfinish : (logger .debug "Found command %s" [.str (pCmdString c)] >>= fun _ => pure c) >>=
      preParser.finish pLine =
        logger .debug "Found command %s" [.str (pCmdString c)] >>= fun _ => pure ⟨c, pLine⟩ := by
    rw [bind_assoc]
    refine congrArg _ (funext fun _ => ?_)
    rw [pure_bind, preParser.finish, if_neg hnone]
  unfold identity at h
  unfold preParser
  cases hcommand : getCommand pLine with
  | none =>
    rw [hcommand] at h
    dsimp only at h ⊢
    rw [identifyLine_command hc h, hfinish]
  | some pPreamble =>
    rw [hcommand] at h
    dsimp only at h ⊢
    cases hcut : cutFirst ' ' pPreamble with
    | none =>
      rw [hcut] at h
      exact absurd h.symm hnone
    | some parts =>
      rw [hcut] at h
      dsimp only at h ⊢
      rw [identifyLine_command hc h, hfinish]

/-- The name of `ident` stands somewhere in the line. -/
def MentionsIdent (pLine : CStr) : Prop := pCmdString .ident <:+: pLine

instance (pLine : CStr) : Decidable (MentionsIdent pLine) := inferInstanceAs (Decidable (_ <:+: _))

/-- What the receive loop logs of a line. -/
def receiveText (pLine : CStr) : CStr :=
  if MentionsIdent pLine then "!ident <nickname> <password>" else pLine

def receiveLog (pLine : CStr) : LogLine :=
  ⟨.debug, "Receive: \"%s\"", [.str (receiveText pLine)]⟩

/-- Two lines leave the same message there if they are the same, or if neither is shown. -/
theorem receiveText_eq_iff {pLine' : CStr} : receiveText pLine = receiveText pLine' ↔
    pLine = pLine' ∨ MentionsIdent pLine ∧ MentionsIdent pLine' := by
  have hmask : MentionsIdent "!ident <nickname> <password>" := by decide
  unfold receiveText
  split
  · next h =>
    split
    · next h' => exact iff_of_true rfl (.inr ⟨h, h'⟩)
    · next h' =>
      refine iff_of_false (fun he => h' (he ▸ hmask)) ?_
      rintro (rfl | hboth)
      · exact h' h
      · exact h' hboth.2
  · next h =>
    split
    · next h' =>
      refine iff_of_false (fun he => h (he ▸ hmask)) ?_
      rintro (rfl | hboth)
      · exact h h'
      · exact h hboth.1
    · exact ⟨.inl, fun hor => hor.resolve_right fun hboth => h hboth.1⟩

theorem receiveLine_eq (pLine : CStr) : receiveLine pLine =
    logger .debug "Receive: \"%s\"" [.str (receiveText pLine)] >>= fun _ => preParser pLine := by
  cases hcut : cutString (pCmdString .ident) pLine with
  | none =>
    have htext : receiveText pLine = pLine := if_neg (cutString_eq_none_iff.mp hcut)
    rw [htext, receiveLine, hcut]
  | some parts =>
    have hmention : MentionsIdent pLine := by
      by_contra hno
      rw [cutString_eq_none_iff.mpr hno] at hcut
      cases hcut
    have htext : receiveText pLine = "!ident <nickname> <password>" := if_pos hmention
    rw [htext, receiveLine, hcut]

end Line

end Ebotula
