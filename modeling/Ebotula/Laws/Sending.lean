import Ebotula.Laws.Effects
import Ebotula.Laws.Requests

/-!
# What a routine sends

A routine that asks the databases and talks to the server always runs to its end, and what
it leaves behind can be written down: the lines it has sent and the lines it has logged.
Here are the runs of the routines of `irc.c`, each as the one line it sends.
-/

set_option autoImplicit false

namespace Ebotula

open Library

variable {G : Type}

/-- The world after a line was given to the server. -/
def World.sending (w : World G) (env : Env) (line : CStr) : World G :=
  { w with sent := w.sent ++ [line], stop := w.stop || !env.sendOk }

section World

variable {w : World G} {env : Env} {line : CStr} {entry : LogLine}

@[simp] theorem World.sending_sent : (w.sending env line).sent = w.sent ++ [line] := rfl
@[simp] theorem World.sending_db : (w.sending env line).db = w.db := rfl
@[simp] theorem World.sending_pBotname : (w.sending env line).pBotname = w.pBotname := rfl
@[simp] theorem World.logging_sent : (w.logging entry).sent = w.sent := rfl
@[simp] theorem World.logging_db : (w.logging entry).db = w.db := rfl
@[simp] theorem World.logging_pBotname : (w.logging entry).pBotname = w.pBotname := rfl

end World

/-- The lines with a command that were given to the server. -/
def World.issued (w : World G) (command : CStr) : List CStr := w.sent.filter command.isPrefixOf

section World

variable {w : World G} {env : Env} {command line : CStr} {entry : LogLine}

@[simp] theorem World.issued_logging : (w.logging entry).issued command = w.issued command := rfl

theorem World.issued_sending_of (h : command.isPrefixOf line = true) :
    (w.sending env line).issued command = w.issued command ++ [line] := by
  simp [issued, List.filter_append, h]

theorem World.issued_sending_other (h : command.isPrefixOf line = false) :
    (w.sending env line).issued command = w.issued command := by
  simp [issued, List.filter_append, h]

end World

/-! ## Runs -/

section Runs

variable [DbLib G] {env : Env} {w : World G}

/-- A line whose arguments are all there is sent as its format has it. -/
theorem run_sendCommand {format buffer : CStr} {args : List (CStr × Option CStr)}
    (hargs : args.find? (·.2.isNone) = none)
    (hbuffer : vsprintf format (args.map fun arg => .str arg.2) = some buffer) :
    (sendCommand format args).run (performQuiet env) w = some ((), w.sending env buffer) := by
  rw [sendCommand, hargs]
  dsimp only
  rw [hbuffer]
  exact Prog.run_request _ _

theorem run_crash {α : Type} : (crash : Quiet α).run (performQuiet env) w = none :=
  Prog.run_bind (Prog.request (S := quietSig) .crash) Empty.elim w

variable {pChannel pNick pMod pMsgStr : CStr}

theorem run_join : (join (some pChannel)).run (performQuiet env) w =
    some ((), w.sending env ("JOIN ".toList ++ pChannel ++ "\r\n".toList)) := by
  refine run_sendCommand rfl ?_
  simp [vsprintf]

theorem run_topic : (topic (some pChannel) (some pMsgStr)).run (performQuiet env) w =
    some ((), w.sending env
      ("TOPIC ".toList ++ pChannel ++ " :".toList ++ pMsgStr ++ "\r\n".toList)) := by
  refine run_sendCommand rfl ?_
  simp [vsprintf]

/-- The line of a notice. -/
def noticeLine (pNick pMsgStr : CStr) : CStr :=
  "NOTICE ".toList ++ pNick ++ " :".toList ++ pMsgStr ++ "\r\n".toList

theorem noticeLine_inj {n s t : CStr} : noticeLine n s = noticeLine n t ↔ s = t := by
  constructor
  · intro h
    exact List.append_cancel_left (List.append_cancel_right h)
  · rintro rfl
    rfl

theorem run_notice {n t : CStr} : (notice (some n) (some t)).run (performQuiet env) w =
    some ((), w.sending env (noticeLine n t)) := by
  have hline : vsprintf "NOTICE %s :%s\r\n" [.str n, .str t] = some (noticeLine n t) := by
    delta noticeLine
    simp [vsprintf]
  exact run_sendCommand rfl hline

/-- The line of a private message. -/
def privmsgLine (pTarget pMsgStr : CStr) : CStr :=
  "PRIVMSG ".toList ++ pTarget ++ " :".toList ++ pMsgStr ++ "\r\n".toList

theorem privmsgLine_inj {c t t' : CStr} (h : privmsgLine c t = privmsgLine c t') : t = t' :=
  List.append_cancel_left (List.append_cancel_right h)

theorem run_privmsg {c t : CStr} : (privmsg (some c) (some t)).run (performQuiet env) w =
    some ((), w.sending env (privmsgLine c t)) := by
  have hline : vsprintf "PRIVMSG %s :%s\r\n" [.str c, .str t] = some (privmsgLine c t) := by
    delta privmsgLine
    simp [vsprintf]
  exact run_sendCommand rfl hline

/-- A line with an argument missing is not sent. -/
theorem run_sendCommand_missing {format : CStr} {args : List (CStr × Option CStr)}
    (hargs : (args.find? (·.2.isNone)).isSome) :
    ∃ entry, (sendCommand format args).run (performQuiet env) w = some ((), w.logging entry) := by
  obtain ⟨⟨name, arg⟩, harg⟩ := Option.isSome_iff_exists.mp hargs
  rw [sendCommand, harg]
  exact ⟨_, Prog.run_request _ _⟩

end Runs

/-! ## The lines with one command -/

section Issues

variable [DbLib G] {env : Env} {w : World G} {command : CStr}

/-- The routine comes to its end, leaves the databases alone, and gives the server these lines
with the command. -/
def Issues (env : Env) (command : CStr) (p : Quiet Unit) (w : World G) (lines : List CStr) :
    Prop :=
  ∃ w', p.run (performQuiet env) w = some ((), w') ∧ w'.db = w.db ∧
    w'.issued command = w.issued command ++ lines

namespace Issues

theorem pure : Issues env command (Pure.pure ()) w [] :=
  ⟨w, rfl, rfl, (List.append_nil _).symm⟩

theorem bind {p q : Quiet Unit} {lines lines' : List CStr} (hp : Issues env command p w lines)
    (hq : ∀ w' : World G, w'.db = w.db → Issues env command q w' lines') :
    Issues env command (p >>= fun _ => q) w (lines ++ lines') := by
  obtain ⟨w₁, hrun₁, hdb₁, hissued₁⟩ := hp
  obtain ⟨w₂, hrun₂, hdb₂, hissued₂⟩ := hq w₁ hdb₁
  refine ⟨w₂, ?_, hdb₂.trans hdb₁, ?_⟩
  · rw [Prog.run_bind, hrun₁, Option.bind_some, hrun₂]
  · rw [hissued₂, hissued₁, List.append_assoc]

/-- What is true of the world after these lines is true after the routine. -/
theorem wp {p : Quiet Unit} {lines : List CStr} {Q : Unit → World G → Prop}
    (h : Issues env command p w lines) (hQ : ∀ w' : World G, w'.db = w.db →
      w'.issued command = w.issued command ++ lines → Q () w') :
    p.wp (performQuiet env) Q w := by
  obtain ⟨w₁, hrun, hdb, hissued⟩ := h
  intro a w' hrun'
  rw [hrun] at hrun'
  cases hrun'
  exact hQ w₁ hdb hissued

/-- A routine that gives the server nothing with the command. -/
theorem wp_nil (command : CStr) {p : Quiet Unit} {Q : Unit → World G → Prop}
    (h : Issues env command p w [])
    (hQ : ∀ w', w'.db = w.db → w'.issued command = w.issued command → Q () w') :
    p.wp (performQuiet env) Q w :=
  h.wp fun w' hdb hissued => hQ w' hdb (hissued.trans (List.append_nil _))

theorem wp_if (command : CStr) {ask : Prop} {q : Quiet Unit} {Q : Unit → World G → Prop}
    (h : Issues env command q w [])
    (hQ : ∀ w', w'.db = w.db → w'.issued command = w.issued command → Q () w') :
    (ask → q.wp (performQuiet env) Q w) ∧ (¬ ask → Q () w) :=
  ⟨fun _ => wp_nil command h hQ, fun _ => hQ w rfl rfl⟩

/-- A step that issues nothing comes first. -/
theorem after {p q : Quiet Unit} {lines : List CStr} (hp : Issues env command p w [])
    (hq : ∀ w' : World G, w'.db = w.db → Issues env command q w' lines) :
    Issues env command (p >>= fun _ => q) w lines := hp.bind hq

theorem forEach {β : Type} {l : List β} {body : β → Quiet Unit} {lines : β → List CStr}
    (h : ∀ x ∈ l, ∀ w' : World G, w'.db = w.db → Issues env command (body x) w' (lines x)) :
    Issues env command (Prog.forEach body l) w (l.flatMap lines) := by
  induction l generalizing w with
  | nil => exact pure
  | cons x l ih =>
    rw [Prog.forEach, List.flatMap_cons]
    refine bind (h x List.mem_cons_self w rfl) fun w' hdb => ?_
    exact ih fun y hy w'' hdb' => h y (List.mem_cons_of_mem _ hy) w'' (hdb'.trans hdb)

end Issues

theorem issues_logger {priority : LogLevel} {format : CStr} {args : List FmtArg} :
    Issues env command (logger priority format args) w [] :=
  ⟨_, run_logger, rfl, (List.append_nil _).symm⟩

theorem issues_getDb {d : DatabaseID} {k : Option CStr} {f : Option CStr → Quiet Unit}
    {lines : List CStr} (h : Issues env command (f (w.db.getDb d k)) w lines) :
    Issues env command (getDb d k >>= f) w lines := by
  obtain ⟨w', hrun, hrest⟩ := h
  exact ⟨w', by rw [Prog.run_bind, run_getDb, Option.bind_some, hrun], hrest⟩

theorem issues_existDb {d : DatabaseID} {k : Option CStr} {f : Bool → Quiet Unit}
    {lines : List CStr} (h : Issues env command (f (w.db.existDb d k)) w lines) :
    Issues env command (existDb d k >>= f) w lines := by
  obtain ⟨w', hrun, hrest⟩ := h
  exact ⟨w', by rw [Prog.run_bind, run_existDb, Option.bind_some, hrun], hrest⟩

theorem issues_listDb {d : DatabaseID} {f : List CStr → Quiet Unit} {lines : List CStr}
    (h : Issues env command (f (w.db.listDb d)) w lines) :
    Issues env command (listDb d >>= f) w lines := by
  obtain ⟨w', hrun, hrest⟩ := h
  exact ⟨w', by rw [Prog.run_bind, run_listDb, Option.bind_some, hrun], hrest⟩

theorem issues_botname {f : CStr → Quiet Unit} {lines : List CStr}
    (h : Issues env command (f w.pBotname) w lines) :
    Issues env command (botname >>= f) w lines := by
  obtain ⟨w', hrun, hrest⟩ := h
  exact ⟨w', by rw [Prog.run_bind, run_botname, Option.bind_some, hrun], hrest⟩

/-- The entry of the log is all that changes. -/
theorem issues_logging {priority : LogLevel} {format : CStr} {args : List FmtArg}
    {q : Quiet Unit} {lines : List CStr}
    (h : Issues env command q (w.logging ⟨priority, format, args⟩) lines) :
    Issues env command (logger priority format args >>= fun _ => q) w lines := by
  obtain ⟨w', hrun, hdb, hissued⟩ := h
  exact ⟨w', by rw [Prog.run_bind, run_logger, Option.bind_some, hrun], hdb, hissued⟩

theorem issues_setFirstChar {a c : Char} {rest : CStr} {f : CStr → Quiet Unit}
    {lines : List CStr} (h : Issues env command (f (c :: rest)) w lines) :
    Issues env command (setFirstChar (a :: rest) c >>= f) w lines := h

/-- A line with the command. -/
theorem issues_sendCommand {format buffer : CStr} {args : List (CStr × Option CStr)}
    (hargs : args.find? (·.2.isNone) = none)
    (hbuffer : vsprintf format (args.map fun arg => .str arg.2) = some buffer)
    (hcommand : command.isPrefixOf buffer = true) :
    Issues env command (sendCommand format args) w [buffer] :=
  ⟨_, run_sendCommand hargs hbuffer, rfl, World.issued_sending_of hcommand⟩

theorem issues_missing {format : CStr} {args : List (CStr × Option CStr)}
    (hargs : (args.find? (·.2.isNone)).isSome) :
    Issues env command (sendCommand format args) w [] := by
  obtain ⟨entry, hrun⟩ : ∃ entry, (sendCommand format args).run (performQuiet env) w =
      some ((), w.logging entry) := run_sendCommand_missing hargs
  exact ⟨_, hrun, rfl, (List.append_nil _).symm⟩

variable {pChannel pNick pMod pMask pReason pMsgStr : Option CStr}

/-- No notice and no private message has the command. -/
def NoTalk (command : CStr) : Prop :=
  ∀ rest, command.isPrefixOf ("NOTICE ".toList ++ rest) = false ∧
    command.isPrefixOf ("PRIVMSG ".toList ++ rest) = false

theorem noTalk_mode : NoTalk "MODE " := fun _ => ⟨rfl, rfl⟩

theorem noTalk_kick : NoTalk "KICK " := fun _ => ⟨rfl, rfl⟩

theorem issues_other {format buffer : CStr} {args : List (CStr × Option CStr)}
    (hargs : args.find? (·.2.isNone) = none)
    (hbuffer : vsprintf format (args.map fun arg => .str arg.2) = some buffer)
    (hcommand : command.isPrefixOf buffer = false) :
    Issues env command (sendCommand format args) w [] := by
  refine ⟨_, run_sendCommand hargs hbuffer, rfl, ?_⟩
  rw [World.issued_sending_other hcommand, List.append_nil]

theorem issues_notice (h : NoTalk command) : Issues env command (notice pNick pMsgStr) w [] := by
  cases pNick with
  | none => exact issues_missing rfl
  | some n =>
    cases pMsgStr with
    | none => exact issues_missing rfl
    | some m =>
      refine issues_other rfl ?_ (h (n ++ " :".toList ++ m ++ "\r\n".toList)).1
      simp [vsprintf]

theorem issues_privmsg (h : NoTalk command) :
    Issues env command (privmsg pNick pMsgStr) w [] := by
  cases pNick with
  | none => exact issues_missing rfl
  | some n =>
    cases pMsgStr with
    | none => exact issues_missing rfl
    | some m =>
      refine issues_other rfl ?_ (h (n ++ " :".toList ++ m ++ "\r\n".toList)).2
      simp [vsprintf]

/-- An answer to the caller whose format takes its arguments. -/
theorem issues_answer (h : NoTalk command) {pMsg : MsgItem} {format : CStr}
    {args : List FmtArg} (kinds : List FmtArg) (hformat : Formats format kinds)
    (hargs : args.map FmtArg.blank = kinds) :
    Issues env command (answer pMsg format args) w [] := by
  obtain ⟨text, htext⟩ := hformat.of_kinds hargs
  unfold answer sendText
  rw [htext]
  dsimp only
  split
  · exact issues_notice h
  · exact issues_privmsg h

/-- What a mode change of a channel begins with. -/
def modeHead (pChannel : CStr) : CStr := "MODE ".toList ++ pChannel ++ " ".toList

/-- The line of a mode change. -/
def modeLine (pChannel pMod pNick : CStr) : CStr :=
  modeHead pChannel ++ pMod ++ " ".toList ++ pNick ++ "\r\n".toList

theorem vsprintf_mode (pChannel pMod pNick : CStr) :
    vsprintf "MODE %s %s %s\r\n" [.str pChannel, .str pMod, .str pNick] =
      some (modeLine pChannel pMod pNick) := by
  simp [vsprintf, modeLine, modeHead]

/-- A mode change is a line with every command it begins with. -/
theorem issues_mode_of {pChannel pMod : CStr}
    (h : command.isPrefixOf (modeLine pChannel pMod (pNick.getD [])) = true) :
    Issues env command (mode (some pChannel) (some pMod) pNick) w
      [modeLine pChannel pMod (pNick.getD [])] :=
  issues_sendCommand rfl (vsprintf_mode pChannel pMod (pNick.getD [])) h

theorem issues_mode_other {pChannel pMod : CStr}
    (h : command.isPrefixOf (modeLine pChannel pMod (pNick.getD [])) = false) :
    Issues env command (mode (some pChannel) (some pMod) pNick) w [] :=
  issues_other rfl (vsprintf_mode pChannel pMod (pNick.getD [])) h

theorem issues_mode {pChannel pMod : CStr} :
    Issues env "MODE " (mode (some pChannel) (some pMod) pNick) w
      [modeLine pChannel pMod (pNick.getD [])] := by
  refine issues_mode_of (List.isPrefixOf_iff_prefix.mpr ?_)
  simp only [modeLine, modeHead, List.append_assoc]
  exact List.prefix_append _ _

theorem noTalk_modeHead (pChannel : CStr) : NoTalk (modeHead pChannel) := fun _ => ⟨rfl, rfl⟩

/-- Where no channel has a blank in its name, the lines about a channel are told by their
beginning. -/
theorem modeHead_isPrefixOf {c c' pMod pNick : CStr} (hc : ' ' ∉ c) (hc' : ' ' ∉ c') :
    (modeHead c).isPrefixOf (modeLine c' pMod pNick) = decide (c = c') := by
  rw [Bool.eq_iff_iff, List.isPrefixOf_iff_prefix, decide_eq_true_eq]
  constructor
  · rintro ⟨rest, h⟩
    simp only [modeLine, modeHead, List.append_assoc, List.append_cancel_left_eq] at h
    have hcut := cutFirst_append rest hc
    have hcut' := cutFirst_append (pMod ++ (" ".toList ++ (pNick ++ "\r\n".toList))) hc'
    rw [show c ++ ' ' :: rest = c ++ (" ".toList ++ rest) from rfl, h] at hcut
    exact (congrArg Prod.fst (Option.some.inj (hcut.symm.trans hcut')))
  · rintro rfl
    simp only [modeLine, List.append_assoc]
    exact List.prefix_append _ _

/-- A ban, or a kick, is a line if nothing is missing. -/
theorem issues_ban : ∃ lines, Issues env "MODE " (ban pChannel pMask) w lines ∧
    (lines ≠ [] ↔ pChannel.isSome ∧ pMask.isSome) := by
  cases pChannel with
  | none => exact ⟨[], issues_missing rfl, by simp⟩
  | some c =>
    cases pMask with
    | none => exact ⟨[], issues_missing rfl, by simp⟩
    | some m =>
      refine ⟨["MODE ".toList ++ c ++ " +b ".toList ++ m ++ "\r\n".toList],
        issues_sendCommand rfl ?_ rfl, by simp⟩
      simp [vsprintf]

theorem issues_kick : ∃ lines, Issues env "KICK " (kick pChannel pNick pReason) w lines ∧
    (lines ≠ [] ↔ pChannel.isSome ∧ pNick.isSome ∧ pReason.isSome) := by
  cases pChannel with
  | none => exact ⟨[], issues_missing rfl, by simp⟩
  | some c =>
    cases pNick with
    | none => exact ⟨[], issues_missing rfl, by simp⟩
    | some n =>
      cases pReason with
      | none => exact ⟨[], issues_missing rfl, by simp⟩
      | some r =>
        refine ⟨["KICK ".toList ++ c ++ " ".toList ++ n ++ " :".toList ++ r ++ "\r\n".toList],
          issues_sendCommand rfl ?_ rfl, by simp⟩
        simp [vsprintf]

end Issues

/-! ## Routines that send nothing -/

section Silent

variable [DbLib G] {env : Env} {w : World G} {pLogin : CStr}

/-- A request that gives the server no line. -/
def Silent (o : (quietSig.sum writeSig).Op) : Prop := ∀ line, o ≠ .inl (.sendLine line)

theorem wp_silent {α : Type} {p : Bot α} (h : p.Calls Silent) :
    p.wp (perform env) (fun _ w' => w'.sent = w.sent) w := by
  refine h.keeps (f := World.sent) (fun o ho s r s' hr => ?_) w
  cases o with
  | inr o =>
    cases hr
    rfl
  | inl o =>
    cases o
    case sendLine line => exact absurd rfl (ho line)
    case insertNextCallback | removeCallback | searchCallback | unwrittenPointer =>
      obtain ⟨_, _, he⟩ := Option.map_eq_some_iff.mp hr
      exact congrArg (World.sent ∘ Prod.snd) he.symm
    case crash => cases hr
    all_goals
      cases hr
      rfl

attribute [local irreducible] Prog.Calls

theorem silent_request {o : Op} (h : ∀ line, o ≠ .sendLine line) :
    ((Prog.request (S := quietSig) o).lift : Bot (o.Res)).Calls Silent :=
  Prog.Calls.lift (.request fun line he => h line (Sum.inl.inj he))

theorem silent_write (o : DbWrite) :
    (Prog.requestRight (T := writeSig) o : Bot Bool).Calls Silent :=
  .request fun _ => Sum.inr_ne_inl

theorem silent_logger {priority : LogLevel} {format : CStr} {args : List FmtArg} :
    ((logger priority format args).lift : Bot Unit).Calls Silent :=
  silent_request nofun

theorem silent_logOn {pNetmask : Option CStr} : (logOn pNetmask pLogin).Calls Silent := by
  refine .bind ?_ fun _ => ?_
  · unfold bindSession
    simp only [Prog.liftM_eq]
    refine .bind (silent_request nofun) fun _ => ?_
    split
    · refine .bind (silent_request nofun) fun pOldNetmask => ?_
      split
      · refine .bind (silent_write _) fun _ => .bind (silent_write _) fun _ => ?_
        exact .bind (silent_write _) fun _ => .pure ()
      · exact .pure ()
    · exact .bind (silent_write _) fun _ => .bind (silent_write _) fun _ => .pure ()
  · unfold stampLogin
    simp only [Prog.liftM_eq]
    refine .bind silent_logger fun _ => .bind (silent_request nofun) fun _ => ?_
    refine .bind (silent_request nofun) fun _ => ?_
    split
    · exact .bind (silent_write _) fun _ => silent_logger
    · exact .bind (silent_write _) fun _ => silent_logger

theorem silent_logOut : (logOut pLogin).Calls Silent := by
  unfold logOut
  simp only [Prog.liftM_eq]
  refine .bind (silent_request nofun) fun pNetmask => ?_
  split
  · exact .bind (silent_write _) fun _ => .bind (silent_write _) fun _ => silent_logger
  · exact .pure ()

end Silent

end Ebotula
