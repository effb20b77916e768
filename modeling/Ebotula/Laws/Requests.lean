import Ebotula.Parser

/-!
# What the routines request

A handler answers its caller and notes in the log what it does. `Talks` says of a routine
that it requests nothing else: every such request is answered, and none of them touches a
database, the callback list or a flag that another routine looks at. Formats are checked
here once and for all: whether one goes through depends on the kinds of its arguments only.
-/

set_option autoImplicit false

namespace Ebotula

open Library

/-- A line for the server or for the log. -/
def Op.Talk : Op → Prop
  | sendLine _ | logger _ => True
  | _ => False

/-- A routine that sends lines and writes the log, and does nothing else. -/
abbrev Talks {α : Type} (p : Quiet α) : Prop := p.Calls Op.Talk

/-- The format takes arguments of these kinds. -/
def Formats (format : CStr) (kinds : List FmtArg) : Prop := (vsprintf format kinds).isSome = true

instance (format : CStr) (kinds : List FmtArg) : Decidable (Formats format kinds) :=
  inferInstanceAs (Decidable (_ = true))

theorem Formats.of_kinds {format : CStr} {args kinds : List FmtArg} (h : Formats format kinds)
    (hargs : args.map FmtArg.blank = kinds) : ∃ text, vsprintf format args = some text := by
  rw [Formats, ← hargs, ← isSome_vsprintf] at h
  exact Option.isSome_iff_exists.mp h

section Talks

-- the programs are taken apart by the rules for `Calls`, and never unfolded into requests
attribute [local irreducible] Prog.Calls

variable {pMsg : MsgItem} {pNick pMsgStr pChannel pMod : Option CStr} {answerMode : AnswerMode}
  {format : CStr}

theorem talks_request {o : Op} (h : o.Talk) : Talks (Prog.request (S := quietSig) o) :=
  .request h

theorem talks_logger {priority : LogLevel} {args : List FmtArg} :
    Talks (logger priority format args) := talks_request trivial

theorem talks_sendLine {line : CStr} : Talks (sendLine line) := talks_request trivial

theorem talks_sendCommand {args : List (CStr × Option CStr)} (kinds : List FmtArg)
    (h : Formats format kinds)
    (hargs : (args.map fun arg => FmtArg.str arg.2).map FmtArg.blank = kinds) :
    Talks (sendCommand format args) := by
  obtain ⟨buffer, hbuffer⟩ := h.of_kinds hargs
  unfold sendCommand
  split
  · exact talks_logger
  · rw [hbuffer]
    exact talks_sendLine

theorem talks_notice : Talks (notice pNick pMsgStr) :=
  talks_sendCommand [.str none, .str none] (by decide +kernel) rfl

theorem talks_privmsg : Talks (privmsg pNick pMsgStr) :=
  talks_sendCommand [.str none, .str none] (by decide +kernel) rfl

theorem talks_topic : Talks (topic pChannel pMsgStr) :=
  talks_sendCommand [.str none, .str none] (by decide +kernel) rfl

theorem talks_mode : Talks (mode pChannel pMod pNick) :=
  talks_sendCommand [.str none, .str none, .str none] (by decide +kernel) rfl

/-- An answer to the caller whose format takes its arguments. -/
theorem talks_answer {args : List FmtArg} (kinds : List FmtArg) (h : Formats format kinds)
    (hargs : args.map FmtArg.blank = kinds) : Talks (answer pMsg format args) := by
  obtain ⟨text, htext⟩ := h.of_kinds hargs
  unfold answer sendText
  rw [htext]
  dsimp only
  split
  · exact talks_notice
  · exact talks_privmsg

theorem talks_action {pTarget pMsgStr : Option CStr} : Talks (action pTarget pMsgStr) := by
  unfold action
  split
  · exact talks_logger
  · exact talks_logger
  · exact talks_privmsg

/-- What is said when a channel is initialized. -/
theorem talks_initialized {pChannel : Option CStr} (sChannelData : ChannelData) : Talks (do
    if let some pTopic := sChannelData.pTopic then topic pChannel pTopic
    let pMode := channelModeToStr sChannelData.sModes
    if !pMode.isEmpty then mode pChannel pMode none
    action pChannel (some "has initialized this channel.")
    logger .info "Initialize the channel %s" [.str pChannel]) := by
  have told : Talks (do
      action pChannel (some "has initialized this channel.")
      logger .info "Initialize the channel %s" [.str pChannel]) :=
    .bind talks_action fun _ => talks_logger
  have modes : Talks (do
      let pMode := channelModeToStr sChannelData.sModes
      if !pMode.isEmpty then mode pChannel pMode none
      action pChannel (some "has initialized this channel.")
      logger .info "Initialize the channel %s" [.str pChannel]) :=
    .ite (.bind talks_mode fun _ => told) told
  cases sChannelData.pTopic with
  | none => exact modes
  | some pTopic => exact .bind talks_topic fun _ => modes

end Talks

/-! ## Requests that have an answer -/

section Total

variable {G : Type} [DbLib G] {env : Env}

/-- The operations that always have an answer. -/
def Op.Answers : Op → Prop
  | insertNextCallback .. | removeCallback .. | searchCallback .. | unwrittenPointer | crash =>
    False
  | _ => True

theorem performQuiet_answers {o : Op} (h : o.Answers) (w : World G) :
    ∃ r, performQuiet env o w = some r := by
  cases o <;> first | exact h.elim | exact ⟨_, rfl⟩

theorem Op.Talk.answers {o : Op} (h : o.Talk) : o.Answers := by
  cases o <;> trivial

/-- A routine that only makes requests that have an answer. -/
abbrev Total {α : Type} (p : Bot α) : Prop :=
  p.Calls (Sum.elim Op.Answers fun _ => True)

theorem Total.run {α : Type} {p : Bot α} (h : Total p) (env : Env) (w : World G) :
    ∃ r, p.run (perform env) w = some r := by
  refine Prog.Calls.total h (fun o ho w => ?_) w
  cases o with
  | inl o => exact performQuiet_answers ho w
  | inr o => exact ⟨_, rfl⟩

theorem total_request {o : Op} (h : o.Answers) :
    Total ((Prog.request (S := quietSig) o).lift) :=
  Prog.Calls.lift (Prog.Calls.request (S := quietSig) h)

theorem total_logger {priority : LogLevel} {format : CStr} {args : List FmtArg} :
    Total ((logger priority format args).lift) := total_request trivial

theorem Talks.answered {α : Type} {p : Quiet α} (h : Talks p) : p.Calls Op.Answers :=
  h.mono fun _ => Op.Talk.answers

theorem Talks.total {α : Type} {p : Quiet α} (h : Talks p) : Total p.lift :=
  .lift (h.mono fun _ => Op.Talk.answers)

/-- Talk that a condition puts in front. -/
theorem total_talkIf {c : Prop} [Decidable c] {p : Quiet Unit} {q : Bot Unit} (h : Talks p)
    (hq : Total q) : Total (if c then p.lift >>= fun _ => q else q) := by
  split
  · exact .bind h.total fun _ => hq
  · exact hq

theorem total_delDb {db : DatabaseID} {k : Option CStr} : Total (delDb db k) :=
  Prog.Calls.request trivial

end Total

/-! ## Requests that write -/

section Writes

variable {P : (quietSig.sum writeSig).Op → Prop} {db : DatabaseID} {k value : Option CStr}

theorem calls_addDb (h : P (.inr (.addDb db k value))) : (addDb db k value).Calls P := .request h

theorem calls_replaceDb (h : P (.inr (.replaceDb db k value))) :
    (replaceDb db k value).Calls P := .request h

theorem calls_delDb (h : P (.inr (.delDb db k))) : (delDb db k).Calls P := .request h

/-- A quiet routine keeps to any bound on the writes. -/
theorem calls_quiet {α : Type} (p : Quiet α) (h : ∀ o, P (.inl o)) : (p.lift : Bot α).Calls P :=
  .lift ((Prog.Calls.any p).mono fun o _ => h o)

end Writes

end Ebotula
