import Ebotula.Laws.Lines
import Ebotula.Laws.Requests
import Ebotula.Runs

/-!
# How a line is classified

`preParser` asks for the command word behind the prefix and, for a message, for a bot
command in its text. What it answers is a function of the line (`preParsed`), and two
things in it are not as the grammar of the lines has them. The text of a message is
searched as a whole, and a command word need not end where its name does; so recognition
follows the grammar of the bot commands exactly when the text has nothing of the kind. And
the prefix ends, for the parser, at its first colon; so two senders are treated alike
exactly when none or both have a colon in their prefix, unless the line is of no kind that
the bot knows.
-/

set_option autoImplicit false

namespace Ebotula

open Library

/-! ## The answer -/

/-- The command that the text of a message is taken for. -/
def textCommand (pLine : CStr) : Cmd :=
  match cutString " :!".toList pLine with
  | some (_, pStr) => (Cmd.commands.find? (startsWith · pStr)).getD .cmdNone
  | none =>
    match cutString " :\x01".toList pLine with
    | some (_, rest) =>
      ([Cmd.ctcpPing, .ctcpVersion, .ctcpTime].find? (startsWith · ('\x01' :: rest))).getD .cmdNone
    | none => .cmdNone

/-- What a line is identified as, once its command word is found. -/
def identified (pLine pPos : CStr) : Cmd :=
  if startsWith .onPing pPos then .cmdNone
  else
    match eventOrder.find? (startsWith · pPos) with
    | some event => event
    | none =>
      if "PRIVMSG".toList.isPrefixOf pPos || "NOTICE".toList.isPrefixOf pPos then
        textCommand pLine
      else .cmdNone

/-- What a line is identified as. -/
def identity (pLine : CStr) : Cmd :=
  match getCommand pLine with
  | some pPreamble =>
    match cutFirst ' ' pPreamble with
    | none => .cmdNone
    | some (_, pPos) => identified pLine pPos
  | none => identified pLine pLine

/-- The message that `preParser` makes of a line. -/
def preParsed (pLine : CStr) : MsgBuf :=
  if identity pLine = .cmdNone then ⟨.cmdNone, []⟩ else ⟨identity pLine, pLine⟩

section Answer

attribute [local irreducible] Prog.Calls Prog.Returns

variable {pLine pPos : CStr}

theorem returns_pure {α : Type} {P : α → Prop} {a : α} (h : P a) :
    (pure a : Quiet α).Returns P := by
  unfold Prog.Returns
  exact h

theorem identifyMessage_returns : (identifyMessage pLine).Returns (· = textCommand pLine) := by
  unfold identifyMessage textCommand
  cases cutString " :!".toList pLine with
  | some split =>
    dsimp only
    cases Cmd.commands.find? (startsWith · split.2) with
    | some i => exact .bind (.any _) fun _ _ => returns_pure (P := (· = i)) rfl
    | none => exact returns_pure (P := (· = Cmd.cmdNone)) rfl
  | none =>
    cases cutString " :\x01".toList pLine with
    | some split =>
      refine .bind (.any _) fun _ _ => ?_
      dsimp only
      cases [Cmd.ctcpPing, .ctcpVersion, .ctcpTime].find? (startsWith · ('\x01' :: split.2)) with
      | some i => exact .bind (.any _) fun _ _ => returns_pure (P := (· = i)) rfl
      | none => exact returns_pure (P := (· = Cmd.cmdNone)) rfl
    | none => exact returns_pure (P := (· = Cmd.cmdNone)) rfl

theorem identifyLine_returns : (identifyLine pLine pPos).Returns (· = identified pLine pPos) := by
  unfold identifyLine identified
  split
  · exact .bind (.any _) fun _ _ => returns_pure (P := (· = Cmd.cmdNone)) rfl
  · cases eventOrder.find? (startsWith · pPos) with
    | some event => exact returns_pure (P := (· = event)) rfl
    | none =>
      dsimp only
      split
      · exact identifyMessage_returns
      · exact returns_pure (P := (· = Cmd.cmdNone)) rfl

theorem preParser_returns : (preParser pLine).Returns (· = preParsed pLine) := by
  have finish (identify : Cmd) (h : identify = identity pLine) :
      (preParser.finish pLine identify).Returns (· = preParsed pLine) :=
    returns_pure (P := (· = preParsed pLine)) (by rw [h, preParsed])
  unfold preParser
  cases hcommand : getCommand pLine with
  | none => exact .bind identifyLine_returns fun _ h => finish _ (by rw [h, identity, hcommand])
  | some pPreamble =>
    dsimp only
    cases hcut : cutFirst ' ' pPreamble with
    | none =>
      have hnone : identity pLine = .cmdNone := by
        rw [identity, hcommand]
        dsimp only
        rw [hcut]
      exact returns_pure (P := (· = preParsed pLine)) (by rw [preParsed, if_pos hnone])
    | some split =>
      refine .bind identifyLine_returns fun _ h => finish _ ?_
      rw [h, identity, hcommand]
      dsimp only
      rw [hcut]

/-- The operations of the parser always have an answer. -/
theorem pong_answers {pPong : Option CStr} : (pong pPong).Calls Op.Answers := by
  unfold pong
  split
  · refine .bind (.request (S := quietSig) trivial) fun _ => ?_
    exact .bind (.request (S := quietSig) trivial) fun _ => talks_sendLine.answered
  · exact (talks_sendCommand [.str none] (by decide +kernel) rfl).answered

theorem logger_answers {priority : LogLevel} {format : CStr} {args : List FmtArg} :
    (logger priority format args).Calls Op.Answers := .request (S := quietSig) trivial

theorem identifyMessage_answers : (identifyMessage pLine).Calls Op.Answers := by
  unfold identifyMessage
  split
  · split
    · exact .bind logger_answers fun _ => .pure _
    · exact .pure _
  · split
    · refine .bind logger_answers fun _ => ?_
      split
      · exact .bind logger_answers fun _ => .pure _
      · exact .pure _
    · exact .pure _

theorem preParser_answers : (preParser pLine).Calls Op.Answers := by
  have line (pPos : CStr) : (identifyLine pLine pPos).Calls Op.Answers := by
    unfold identifyLine
    split
    · exact .bind pong_answers fun _ => .pure _
    · split
      · exact .pure _
      · split
        · exact identifyMessage_answers
        · exact .pure _
  have finish (identify : Cmd) : (preParser.finish pLine identify).Calls Op.Answers := .pure _
  unfold preParser
  cases getCommand pLine with
  | none => exact .bind (line _) finish
  | some pPreamble =>
    dsimp only
    cases cutFirst ' ' pPreamble with
    | none => exact .pure _
    | some split => exact .bind (line _) finish

end Answer

/-- `preParser` comes back with the message of the line. -/
theorem run_preParser {G : Type} [DbLib G] (env : Env) (w : World G) (pLine : CStr) :
    ∃ w', (preParser pLine).run (performQuiet env) w = some (preParsed pLine, w') := by
  obtain ⟨⟨pMsg, w'⟩, hrun⟩ := (preParser_answers : (preParser pLine).Calls _).total
    (fun _ ho w => performQuiet_answers ho w) w
  obtain rfl : pMsg = preParsed pLine := preParser_returns.wp w pMsg w' hrun
  exact ⟨w', hrun⟩

/-! ## Words that begin a text -/

/-- What a text begins with does not depend on what is cut off behind. -/
theorem prefix_takeWhile_iff {keep : Char → Bool} {word s : CStr} (h : ∀ c ∈ word, keep c) :
    word <+: s.takeWhile keep ↔ word <+: s := by
  constructor
  · intro hword
    exact hword.trans (List.takeWhile_prefix _)
  · rintro ⟨rest, rfl⟩
    rw [List.takeWhile_append_of_pos h]
    exact List.prefix_append ..

theorem startsWith_iff {id : Cmd} {s : CStr} : startsWith id s = true ↔ pCmdString id <+: s :=
  List.isPrefixOf_iff_prefix

/-- The id that a search ends at is one of the list and begins the text. -/
theorem mem_of_find_startsWith {ids : List Cmd} {id : Cmd} {s : CStr}
    (h : ids.find? (startsWith · s) = some id) : id ∈ ids ∧ pCmdString id <+: s := by
  have hstarts := List.find?_some h
  exact ⟨List.mem_of_find?_eq_some h, startsWith_iff.mp hstarts⟩

/-- No name of a bot command begins another one. -/
theorem commands_apart : ∀ c ∈ Cmd.commands, ∀ d ∈ Cmd.commands,
    (pCmdString c).isPrefixOf (pCmdString d) → c = d := by
  decide +kernel

/-- So at most one name begins a text. -/
theorem command_unique {c d : Cmd} {s : CStr} (hc : c ∈ Cmd.commands) (hd : d ∈ Cmd.commands)
    (hcs : pCmdString c <+: s) (hds : pCmdString d <+: s) : c = d := by
  rcases List.prefix_or_prefix_of_prefix hcs hds with h | h
  · exact commands_apart c hc d hd (List.isPrefixOf_iff_prefix.mpr h)
  · exact (commands_apart d hd c hc (List.isPrefixOf_iff_prefix.mpr h)).symm

theorem find_command_iff {c : Cmd} {s : CStr} :
    Cmd.commands.find? (startsWith · s) = some c ↔ c ∈ Cmd.commands ∧ pCmdString c <+: s := by
  refine ⟨mem_of_find_startsWith, fun ⟨hc, hcs⟩ => ?_⟩
  cases hfind : Cmd.commands.find? (startsWith · s) with
  | none => exact absurd (startsWith_iff.mpr hcs) (List.find?_eq_none.mp hfind c hc)
  | some d =>
    obtain ⟨hd, hds⟩ := mem_of_find_startsWith hfind
    rw [command_unique hc hd hcs hds]

theorem cmdNone_not_command : Cmd.cmdNone ∉ Cmd.commands := by decide

/-! ## The text of a message -/

/-- The CTCP commands, in the order in which `preParser` compares them. -/
def ctcpCommands : List Cmd := [.ctcpPing, .ctcpVersion, .ctcpTime]

/-- Somewhere in the text stands what the parser takes for a bot command or, if nothing
looks like one, for a CTCP command. -/
def CarriesCommand (text : CStr) : Prop :=
  match cutString " :!".toList text with
  | some (_, pStr) => ∃ c ∈ Cmd.commands, pCmdString c <+: pStr
  | none =>
    match cutString " :\x01".toList text with
    | some (_, rest) => ∃ c ∈ ctcpCommands, pCmdString c <+: '\x01' :: rest
    | none => False

instance (text : CStr) : Decidable (CarriesCommand text) := by
  unfold CarriesCommand
  split
  · infer_instance
  · split <;> infer_instance

/-- One of the ids begins the text exactly when the search ends at one. -/
theorem find_eq_none_iff (ids : List Cmd) {s : CStr} (h : Cmd.cmdNone ∉ ids) :
    (ids.find? (startsWith · s)).getD .cmdNone = .cmdNone ↔
      ¬ ∃ c ∈ ids, pCmdString c <+: s := by
  cases hfind : ids.find? (startsWith · s) with
  | none =>
    refine iff_of_true rfl ?_
    rintro ⟨c, hc, hcs⟩
    exact List.find?_eq_none.mp hfind c hc (startsWith_iff.mpr hcs)
  | some c =>
    obtain ⟨hc, hcs⟩ := mem_of_find_startsWith hfind
    refine iff_of_false (fun e : c = .cmdNone => h (e ▸ hc)) fun hno => hno ⟨c, hc, hcs⟩

theorem textCommand_eq_none_iff {text : CStr} :
    textCommand text = .cmdNone ↔ ¬ CarriesCommand text := by
  unfold textCommand CarriesCommand
  cases cutString " :!".toList text with
  | some split => exact find_eq_none_iff _ cmdNone_not_command
  | none =>
    cases cutString " :\x01".toList text with
    | some split => exact find_eq_none_iff ctcpCommands (by decide)
    | none => exact iff_of_true rfl not_false

/-- Only what the searches find behind its markers matters of a text. -/
theorem textCommand_congr {s t : CStr} (before : CStr → CStr)
    (hbot : cutString " :!".toList s = (cutString " :!".toList t).map fun p => (before p.1, p.2))
    (hctcp : cutString " :\x01".toList s =
      (cutString " :\x01".toList t).map fun p => (before p.1, p.2)) :
    textCommand s = textCommand t := by
  unfold textCommand
  rw [hbot, hctcp]
  cases cutString " :!".toList t with
  | some split => rfl
  | none => cases cutString " :\x01".toList t <;> rfl

/-- Behind a head, a text that begins with `!` is searched for a bot command there. -/
theorem textCommand_bang {head rest : CStr} (h : IsHead head) :
    textCommand (lineOf head ('!' :: rest)) =
      (Cmd.commands.find? (startsWith · rest)).getD .cmdNone := by
  have hcut : cutString " :!".toList (lineOf head ('!' :: rest)) = some (head, rest) := by
    rw [show " :!".toList = ' ' :: ':' :: ['!'] from rfl, cutString_lineOf h]
    exact (congrArg (Option.map _) (cutString_at_start " :!".toList rest)).trans
      (by rw [Option.map_some, List.append_nil])
  rw [textCommand, hcut]

/-- A text that begins with something else is searched as if it stood alone. -/
theorem textCommand_other {head text : CStr} (h : IsHead head) (hbang : text.head? ≠ some '!')
    (hctcp : text.head? ≠ some '\x01') : textCommand (lineOf head text) = textCommand text := by
  have cut {c : Char} (hc : text.head? ≠ some c) :
      cutString [' ', ':', c] (lineOf head text) =
        (cutString [' ', ':', c] text).map fun p => (head ++ ' ' :: ':' :: p.1, p.2) := by
    have hblank : ¬ [' ', ':', c] <+: ' ' :: ':' :: text := by
      intro hpat
      have hpat := (List.cons_prefix_cons.mp (List.cons_prefix_cons.mp hpat).2).2
      cases text with
      | nil => cases List.prefix_nil.mp hpat
      | cons d text => exact hc (congrArg some (List.cons_prefix_cons.mp hpat).1.symm)
    have hcolon : ¬ [' ', ':', c] <+: ':' :: text := fun hpat =>
      absurd (List.cons_prefix_cons.mp hpat).1 (by decide)
    rw [cutString_lineOf h, cutString_cons hblank, cutString_cons hcolon, Option.map_map,
      Option.map_map]
    rfl
  exact textCommand_congr (head ++ ' ' :: ':' :: ·) (cut hbang) (cut hctcp)

/-! ## The prefix of a line -/

section Prefix

variable {p text : CStr}

theorem identified_congr {s t pPos : CStr} (h : textCommand s = textCommand t) :
    identified s pPos = identified t pPos := by
  rw [identified, identified, h]

/-- The sender of a line is not searched for a text. -/
theorem textCommand_sent (h : ' ' ∉ p) :
    textCommand (':' :: p ++ ' ' :: text) = textCommand (' ' :: text) := by
  have hskip : ' ' ∉ ':' :: p := by simp [h]
  exact textCommand_congr (':' :: p ++ ·) (cutString_skip hskip)
    (cutString_skip hskip)

/-- The command word of a line is found exactly when the parser does not end the preamble
in the prefix, at a colon that another character stands before. -/
theorem identity_sent (h : ' ' ∉ p) : identity (':' :: p ++ ' ' :: text) =
    if ':' ∈ p.dropWhile (· = ':') then .cmdNone
    else identified (' ' :: text) (text.takeWhile (· ≠ ':')) := by
  have hcommand : getCommand (':' :: p ++ ' ' :: text) =
      some (':' :: strtokBuf ':' (p ++ ' ' :: text)) := rfl
  rw [identity, hcommand, strtokBuf_append_word (by decide)]
  by_cases hcolon : ':' ∈ p.dropWhile (· = ':')
  · rw [if_pos hcolon, if_pos hcolon]
    have hnone : cutFirst ' ' (':' :: strtokBuf ':' p) = none := by
      refine cutFirst_eq_none_iff.mpr fun hblank => ?_
      rcases List.mem_cons.mp hblank with hblank | hblank
      · exact absurd hblank (by decide)
      · exact h (mem_of_mem_strtokBuf hblank)
    dsimp only
    rw [hnone]
  · rw [if_neg hcolon, if_neg hcolon]
    have hcut : cutFirst ' ' (':' :: (p ++ ' ' :: text.takeWhile (· ≠ ':'))) =
        some (':' :: p, text.takeWhile (· ≠ ':')) :=
      cutFirst_append (x := ':' :: p) _ (by simp [h])
    dsimp only
    rw [hcut]
    exact identified_congr (textCommand_sent h)

end Prefix

/-! ## Bot commands in messages -/

/-- The head of a message from a sender to a target. -/
def messageHead (sender target : CStr) : CStr := sentBy sender ("PRIVMSG ".toList ++ target)

theorem isHead_messageHead {sender target : CStr} (hs : ' ' ∉ sender) (ht : ':' ∉ target) :
    IsHead (messageHead sender target) := by
  refine isHead_sentBy hs (isHead_of_not_mem fun h => ?_)
  rcases List.mem_append.mp (List.mem_cons.mp h |>.resolve_left (by decide)) with h | h
  · exact absurd h (by decide)
  · exact ht h

/-- A message is identified by its text alone. -/
theorem identity_message {sender target : CStr} (text : CStr) (hs : ' ' ∉ sender)
    (hs' : ':' ∉ sender) (ht : ':' ∉ target) : identity (lineOf (messageHead sender target) text) =
      textCommand (lineOf (messageHead sender target) text) := by
  have hline : lineOf (messageHead sender target) text =
      ':' :: sender ++ ' ' :: ("PRIVMSG ".toList ++ target ++ " :".toList ++ text) := by
    simp [lineOf, messageHead, sentBy]
  have hword : ("PRIVMSG ".toList ++ target ++ " :".toList ++ text).takeWhile (· ≠ ':') =
      "PRIVMSG ".toList ++ (target ++ [' ']) := by
    have hfree : ':' ∉ "PRIVMSG ".toList ++ (target ++ [' ']) := by
      simp [ht]
    have hsplit : "PRIVMSG ".toList ++ target ++ " :".toList ++ text =
        ("PRIVMSG ".toList ++ (target ++ [' '])) ++ ':' :: text := by
      simp
    rw [hsplit, takeWhile_ne_append, if_neg hfree]
    simp
  have hcolon : ':' ∉ sender.dropWhile (· = ':') := fun h =>
    hs' ((List.dropWhile_suffix _).subset h)
  have hmessage (rest pLine : CStr) :
      identified pLine ("PRIVMSG ".toList ++ rest) = textCommand pLine := rfl
  rw [hline, identity_sent hs, if_neg hcolon, hword, hmessage, textCommand_sent hs]

/-- The text is a bot command: a mark, its name, and behind it a blank or nothing. -/
def IsCommandText (c : Cmd) (text : CStr) : Prop :=
  text = '!' :: pCmdString c ∨ '!' :: pCmdString c ++ [' '] <+: text

instance (c : Cmd) (text : CStr) : Decidable (IsCommandText c text) :=
  inferInstanceAs (Decidable (_ ∨ _))

/-- The answer is the one of the grammar: the bot command that the text is, or none at all. -/
def FollowsGrammar (text : CStr) (pMsg : MsgBuf) : Prop :=
  (∀ c ∈ Cmd.commands, pMsg.identify = c ↔ IsCommandText c text) ∧
    ((∀ c ∈ Cmd.commands, ¬ IsCommandText c text) → pMsg = ⟨.cmdNone, []⟩)

/-- The texts that leave no doubt: behind the mark a name of a bot command is not the
beginning of a longer word, and without the mark nothing in the text looks like a command. -/
def IsUnambiguous (text : CStr) : Prop :=
  match text with
  | '!' :: rest => ∀ c ∈ Cmd.commands, pCmdString c <+: rest →
      rest = pCmdString c ∨ pCmdString c ++ [' '] <+: rest
  | _ => ¬ CarriesCommand text

instance (text : CStr) : Decidable (IsUnambiguous text) := by
  unfold IsUnambiguous
  split <;> infer_instance

/-- Behind the mark stands the name alone or with a blank. -/
theorem isCommandText_bang {c : Cmd} {rest : CStr} : IsCommandText c ('!' :: rest) ↔
    rest = pCmdString c ∨ pCmdString c ++ [' '] <+: rest := by
  rw [IsCommandText, List.cons.injEq, List.cons_append, List.cons_prefix_cons]
  simp only [true_and]

theorem IsCommandText.head {c : Cmd} {text : CStr} (h : IsCommandText c text) :
    text.head? = some '!' := by
  rcases h with rfl | ⟨rest, rfl⟩
  · rfl
  · rfl

theorem IsCommandText.prefix {c : Cmd} {rest : CStr} (h : IsCommandText c ('!' :: rest)) :
    pCmdString c <+: rest := by
  rcases isCommandText_bang.mp h with rfl | h
  · exact List.prefix_rfl
  · exact (List.prefix_append ..).trans h

/-- The answer is no command and no line exactly when nothing is identified. -/
theorem preParsed_identify {pLine : CStr} : (preParsed pLine).identify = identity pLine := by
  rw [preParsed]
  split
  · next h => exact h.symm
  · rfl

/-- Behind the mark the grammar is followed exactly when the name found is a whole word. -/
theorem followsGrammar_bang {rest pLine : CStr}
    (h : identity pLine = (Cmd.commands.find? (startsWith · rest)).getD .cmdNone) :
    FollowsGrammar ('!' :: rest) (preParsed pLine) ↔ IsUnambiguous ('!' :: rest) := by
  have hfound {c : Cmd} (hc : c ∈ Cmd.commands) :
      (preParsed pLine).identify = c ↔ pCmdString c <+: rest := by
    rw [preParsed_identify, h]
    constructor
    · intro he
      cases hfind : Cmd.commands.find? (startsWith · rest) with
      | none =>
        rw [hfind] at he
        exact absurd ((show Cmd.cmdNone = c from he) ▸ hc) cmdNone_not_command
      | some d =>
        rw [hfind] at he
        exact (show d = c from he) ▸ (mem_of_find_startsWith hfind).2
    · intro hprefix
      rw [find_command_iff.mpr ⟨hc, hprefix⟩]
      rfl
  constructor
  · rintro ⟨hiff, -⟩ c hc hprefix
    exact isCommandText_bang.mp ((hiff c hc).mp ((hfound hc).mpr hprefix))
  · intro hwhole
    have hiff (c : Cmd) (hc : c ∈ Cmd.commands) :
        (preParsed pLine).identify = c ↔ IsCommandText c ('!' :: rest) := by
      rw [hfound hc]
      exact ⟨fun hprefix => isCommandText_bang.mpr (hwhole c hc hprefix), IsCommandText.prefix⟩
    refine ⟨hiff, fun hno => ?_⟩
    have hnone : identity pLine = .cmdNone := by
      rw [h, find_eq_none_iff _ cmdNone_not_command]
      rintro ⟨c, hc, hprefix⟩
      exact hno c hc ((hiff c hc).mp ((hfound hc).mpr hprefix))
    rw [preParsed, if_pos hnone]

/-- Without the mark it is followed exactly when nothing is identified. -/
theorem followsGrammar_other {text pLine : CStr} (hbang : text.head? ≠ some '!')
    (h : identity pLine = textCommand text) :
    FollowsGrammar text (preParsed pLine) ↔ ¬ CarriesCommand text := by
  have hno (c : Cmd) : ¬ IsCommandText c text := fun hc => hbang hc.head
  rw [← textCommand_eq_none_iff, ← h]
  constructor
  · rintro ⟨-, hnone⟩
    rw [← preParsed_identify, hnone fun c _ => hno c]
  · intro hnone
    rw [preParsed, if_pos hnone]
    refine ⟨fun c hc => iff_of_false ?_ (hno c), fun _ => rfl⟩
    rintro rfl
    exact cmdNone_not_command hc

/-- A message is recognised as the grammar of the bot commands has it exactly when its text
leaves no doubt. -/
theorem recognition_follows_grammar {G : Type} [DbLib G] (env : Env) (w : World G)
    (sender target text : CStr) (hsender : ' ' ∉ sender ∧ ':' ∉ sender)
    (htarget : ' ' ∉ target ∧ ':' ∉ target) (htext : text.head? ≠ some '\x01') :
    ∃ pMsg w', (preParser (lineOf (messageHead sender target) text)).run (performQuiet env) w =
        some (pMsg, w') ∧ (FollowsGrammar text pMsg ↔ IsUnambiguous text) := by
  obtain ⟨w', hrun⟩ := run_preParser env w (lineOf (messageHead sender target) text)
  have hhead := isHead_messageHead hsender.1 htarget.2
  have hidentity := identity_message text hsender.1 hsender.2 htarget.2
  refine ⟨_, w', hrun, ?_⟩
  by_cases hbang : text.head? = some '!'
  · obtain ⟨rest, rfl⟩ : ∃ rest, text = '!' :: rest := by
      cases text with
      | nil => cases hbang
      | cons c rest => exact ⟨rest, by rw [Option.some.inj hbang]⟩
    exact followsGrammar_bang (hidentity.trans (textCommand_bang hhead))
  · rw [followsGrammar_other hbang (hidentity.trans (textCommand_other hhead hbang htext))]
    unfold IsUnambiguous
    split
    · exact absurd rfl hbang
    · rfl

/-- A question for help is recognised as one. -/
theorem recognition_of_help : ∃ pMsg w',
    (preParser (lineOf (messageHead "alice!a@h" "ebotula") "!help topic")).run
      (performQuiet calmEnv) freshBot = some (pMsg, w') ∧ FollowsGrammar "!help topic" pMsg := by
  obtain ⟨pMsg, w', hrun, hiff⟩ := recognition_follows_grammar calmEnv freshBot
    "alice!a@h" "ebotula" "!help topic" (by decide) (by decide) (by decide)
  exact ⟨pMsg, w', hrun, hiff.mpr (by decide +kernel)⟩

/-- A longer word is taken for the command that it begins with. -/
theorem recognition_of_longer_word : ∃ pMsg w',
    (preParser (lineOf (messageHead "alice!a@h" "ebotula") "!helpme")).run
      (performQuiet calmEnv) freshBot = some (pMsg, w') ∧ ¬ FollowsGrammar "!helpme" pMsg := by
  obtain ⟨w', hrun⟩ := run_preParser calmEnv freshBot
    (lineOf (messageHead "alice!a@h" "ebotula") "!helpme")
  refine ⟨_, w', hrun, fun h => ?_⟩
  have hhelp : (preParsed (lineOf (messageHead "alice!a@h" "ebotula") "!helpme")).identify =
      .help := by decide +kernel
  exact absurd ((h.1 .help (by decide)).mp hhelp) (by decide +kernel)

/-! ## Two senders -/

/-- A line of a kind that the bot knows: an event by its word, or a message with a command. -/
def IsKnown (text : CStr) : Prop :=
  ¬ pCmdString .onPing <+: text ∧
    ((∃ event ∈ eventOrder, pCmdString event <+: text) ∨
      (("PRIVMSG".toList <+: text ∨ "NOTICE".toList <+: text) ∧ CarriesCommand (' ' :: text)))

instance (text : CStr) : Decidable (IsKnown text) := inferInstanceAs (Decidable (_ ∧ _))

/-- The colons that stand in a prefix behind another character. -/
def HasColon (p : CStr) : Prop := ':' ∈ p.dropWhile (· = ':')

instance (p : CStr) : Decidable (HasColon p) := inferInstanceAs (Decidable (_ ∈ _))

theorem names_without_colon : ∀ id ∈ Cmd.onPing :: eventOrder,
    (pCmdString id).all fun c => decide (c ≠ ':') := by
  decide +kernel

/-- What follows the prefix is identified exactly when it is of a kind that the bot knows. -/
theorem identified_eq_none_iff {text : CStr} :
    identified (' ' :: text) (text.takeWhile (· ≠ ':')) = .cmdNone ↔ ¬ IsKnown text := by
  have begins {id : Cmd} (hid : id ∈ Cmd.onPing :: eventOrder) :
      startsWith id (text.takeWhile (· ≠ ':')) = true ↔ pCmdString id <+: text :=
    startsWith_iff.trans
      (prefix_takeWhile_iff (List.all_eq_true.mp (names_without_colon id hid)))
  have word {s : CStr} (hs : s.all fun c => decide (c ≠ ':')) :
      s.isPrefixOf (text.takeWhile (· ≠ ':')) = true ↔ s <+: text :=
    List.isPrefixOf_iff_prefix.trans (prefix_takeWhile_iff (List.all_eq_true.mp hs))
  unfold identified IsKnown
  by_cases hping : pCmdString .onPing <+: text
  · rw [if_pos ((begins List.mem_cons_self).mpr hping)]
    exact iff_of_true rfl fun h => h.1 hping
  · rw [if_neg (mt (begins List.mem_cons_self).mp hping)]
    cases hfind : eventOrder.find? (startsWith · (text.takeWhile (· ≠ ':'))) with
    | some event =>
      have hmem := List.mem_of_find?_eq_some hfind
      have hstarts := List.find?_some hfind
      refine iff_of_false (fun he : event = .cmdNone => ?_) fun h => h ⟨hping, .inl ⟨event, hmem,
        (begins (List.mem_cons_of_mem _ hmem)).mp hstarts⟩⟩
      exact absurd (he ▸ hmem) (by decide)
    | none =>
      have hnone : ¬ ∃ event ∈ eventOrder, pCmdString event <+: text := by
        rintro ⟨event, hmem, hprefix⟩
        exact List.find?_eq_none.mp hfind event hmem
          ((begins (List.mem_cons_of_mem _ hmem)).mpr hprefix)
      simp only [hping, hnone, not_false_eq_true, true_and, false_or, Bool.or_eq_true,
        word (s := "PRIVMSG".toList) (by decide), word (s := "NOTICE".toList) (by decide)]
      split
      · next hmessage => rw [textCommand_eq_none_iff, and_iff_right hmessage]
      · next hmessage => exact iff_of_true rfl fun h => hmessage h.1

/-- Two lines that differ only in their senders are identified alike exactly when the prefix
of both or of none has a colon in it, or the bot knows no such lines. -/
theorem classification_ignores_sender {G : Type} [DbLib G] (env : Env) (w : World G)
    (p₁ p₂ text : CStr) (h₁ : ' ' ∉ p₁) (h₂ : ' ' ∉ p₂) :
    ∃ pMsg₁ pMsg₂ w₁ w₂,
      (preParser (':' :: p₁ ++ ' ' :: text)).run (performQuiet env) w = some (pMsg₁, w₁) ∧
      (preParser (':' :: p₂ ++ ' ' :: text)).run (performQuiet env) w = some (pMsg₂, w₂) ∧
      (pMsg₁.identify = pMsg₂.identify ↔ (HasColon p₁ ↔ HasColon p₂) ∨ ¬ IsKnown text) := by
  obtain ⟨w₁, hrun₁⟩ := run_preParser env w (':' :: p₁ ++ ' ' :: text)
  obtain ⟨w₂, hrun₂⟩ := run_preParser env w (':' :: p₂ ++ ' ' :: text)
  refine ⟨_, _, w₁, w₂, hrun₁, hrun₂, ?_⟩
  rw [preParsed_identify, preParsed_identify, identity_sent h₁, identity_sent h₂,
    ← identified_eq_none_iff]
  show ((if HasColon p₁ then _ else _) = if HasColon p₂ then _ else _) ↔ _
  by_cases hc₁ : HasColon p₁ <;> by_cases hc₂ : HasColon p₂
  · simp only [hc₁, hc₂, if_true, true_or]
  · simp only [hc₁, hc₂, if_true, if_false, iff_false, not_true_eq_false, false_or]
    exact eq_comm
  · simp only [hc₁, hc₂, if_true, if_false, iff_true, false_or]
  · simp only [hc₁, hc₂, if_false, true_or]

/-- Two users with host names are treated alike. -/
theorem classification_of_host_names : ∃ pMsg₁ pMsg₂ w₁ w₂,
    (preParser (':' :: "alice!a@example.org".toList ++ ' ' :: "PRIVMSG ebotula :!help")).run
      (performQuiet calmEnv) freshBot = some (pMsg₁, w₁) ∧
    (preParser (':' :: "bob!b@example.net".toList ++ ' ' :: "PRIVMSG ebotula :!help")).run
      (performQuiet calmEnv) freshBot = some (pMsg₂, w₂) ∧
    pMsg₁.identify = pMsg₂.identify := by
  obtain ⟨pMsg₁, pMsg₂, w₁, w₂, hrun₁, hrun₂, hiff⟩ := classification_ignores_sender calmEnv
    freshBot "alice!a@example.org" "bob!b@example.net" "PRIVMSG ebotula :!help" (by decide)
    (by decide)
  exact ⟨pMsg₁, pMsg₂, w₁, w₂, hrun₁, hrun₂, hiff.mpr (by decide +kernel)⟩

/-- A user whose host is an IPv6 address is not understood. -/
theorem classification_of_ipv6_host : ∃ pMsg₁ pMsg₂ w₁ w₂,
    (preParser (':' :: "alice!a@example.org".toList ++ ' ' :: "PRIVMSG ebotula :!help")).run
      (performQuiet calmEnv) freshBot = some (pMsg₁, w₁) ∧
    (preParser (':' :: "alice!a@2001:db8::7".toList ++ ' ' :: "PRIVMSG ebotula :!help")).run
      (performQuiet calmEnv) freshBot = some (pMsg₂, w₂) ∧
    pMsg₁.identify ≠ pMsg₂.identify := by
  obtain ⟨w₁, hrun₁⟩ := run_preParser calmEnv freshBot
    (':' :: "alice!a@example.org".toList ++ ' ' :: "PRIVMSG ebotula :!help")
  obtain ⟨w₂, hrun₂⟩ := run_preParser calmEnv freshBot
    (':' :: "alice!a@2001:db8::7".toList ++ ' ' :: "PRIVMSG ebotula :!help")
  exact ⟨_, _, w₁, w₂, hrun₁, hrun₂, by decide +kernel⟩

end Ebotula
