import Ebotula.Laws.EventText

/-!
# The bot's own operator status

After a JOIN the server lists the nicks of the channel, an operator with an `@` in front. The bot
looks for itself with `strstr`, from the first colon of the line on. So it finds every operator
whose nick begins with its own nickname. The list is taken apart at its blanks, in any number, and
what `strstr` finds is compared with what stands in it.
-/

set_option autoImplicit false

namespace Ebotula

open Library

/-! ## The reply -/

/-- What can be a nick in a list: a word that does not contain the sign of an operator. -/
structure IsListed (nick : CStr) : Prop where
  no_blank : ' ' ∉ nick
  no_at : '@' ∉ nick

/-- What can stand between two blanks of a list: nothing, or a nick with or without a sign. -/
def IsEntry (piece : CStr) : Prop :=
  piece = [] ∨ ∃ nick, IsListed nick ∧ (piece = nick ∨ piece = '@' :: nick ∨ piece = '+' :: nick)

/-- The reply 353 of a server. -/
structure NamesReply where
  server : CStr
  target : CStr
  symbol : CStr
  channel : CStr
  pieces : List CStr
  server_colon : ':' ∉ server
  target_colon : ':' ∉ target
  symbol_colon : ':' ∉ symbol
  channel_blank : ' ' ∉ channel
  entry : ∀ piece ∈ pieces, IsEntry piece

namespace NamesReply

/-- What stands between the server and the channel. -/
def middle (reply : NamesReply) : CStr :=
  "353 ".toList ++ reply.target ++ ' ' :: reply.symbol ++ [' ']

/-- The line without the list. -/
def head (reply : NamesReply) : CStr := sentBy reply.server (reply.middle ++ reply.channel)

/-- The line as it is received. -/
def line (reply : NamesReply) : CStr := lineOf reply.head (unwords reply.pieces)

variable (reply : NamesReply) {bot : CStr}

theorem middle_colon : ':' ∉ reply.middle := by
  have htarget := reply.target_colon
  have hsymbol := reply.symbol_colon
  simp [middle, htarget, hsymbol]

/-- The list as `hBotNeedOp` gets it: from the first colon behind the one of the server on, and
that may be one of the channel. -/
theorem cutFirst_line : ∃ before names, cutFirst ':' reply.line.tail = some (before, names) ∧
    ∀ pat, ' ' ∉ pat → pat.head? = some '@' → (pat <:+: ':' :: names ↔
      pat <:+: reply.channel.dropWhile (· ≠ ':') ∨ pat <:+: unwords reply.pieces) := by
  have hbefore : ':' ∉ reply.server ++ ' ' :: reply.middle := by
    have hmiddle := reply.middle_colon
    simp [reply.server_colon, hmiddle]
  have hline : reply.line.tail = (reply.server ++ ' ' :: reply.middle) ++
      (reply.channel ++ ' ' :: ':' :: unwords reply.pieces) := by
    simp [line, head, sentBy, lineOf]
  have hcolon {pat : CStr} (names : CStr) (hat : pat.head? = some '@') :
      pat <:+: ':' :: names ↔ pat <:+: names := by
    rw [List.infix_cons_iff, or_iff_right]
    intro hpat
    cases pat with
    | nil => cases hat
    | cons a pat =>
      obtain ⟨rfl, -⟩ := List.cons_prefix_cons.mp hpat
      cases hat
  cases hcut : cutFirst ':' reply.channel with
  | none =>
    have hno : ':' ∉ reply.channel := cutFirst_eq_none_iff.mp hcut
    have hdrop : reply.channel.dropWhile (· ≠ ':') = [] := List.dropWhile_eq_nil_iff.mpr
      fun a ha => decide_eq_true fun e : a = ':' => hno (e ▸ ha)
    refine ⟨(reply.server ++ ' ' :: reply.middle) ++ (reply.channel ++ [' ']), unwords reply.pieces,
      ?_, fun pat _ hat => ?_⟩
    · have hsplit : reply.line.tail = ((reply.server ++ ' ' :: reply.middle) ++
          (reply.channel ++ [' '])) ++ ':' :: unwords reply.pieces := by
        rw [hline]
        simp
      rw [hsplit]
      exact cutFirst_append _ (List.not_mem_append hbefore (List.not_mem_append hno (by decide)))
    · rw [hcolon _ hat, hdrop, List.infix_nil, or_iff_right]
      rintro rfl
      cases hat
  | some parts =>
    obtain ⟨before, rest⟩ := parts
    obtain ⟨hno, hchannel⟩ := cutFirst_eq_some_iff.mp hcut
    have hdrop : reply.channel.dropWhile (· ≠ ':') = ':' :: rest := by
      rw [hchannel, List.dropWhile_append_of_pos, List.dropWhile_cons, if_neg (by decide)]
      exact fun a ha => decide_eq_true fun e : a = ':' => hno (e ▸ ha)
    refine ⟨(reply.server ++ ' ' :: reply.middle) ++ before,
      rest ++ ' ' :: ':' :: unwords reply.pieces, ?_, fun pat hblank hat => ?_⟩
    · rw [hline, hchannel, List.append_assoc before, ← List.append_assoc]
      exact cutFirst_append _ (List.not_mem_append hbefore hno)
    · rw [hdrop, ← List.cons_append, infix_append_sep hblank, hcolon (unwords reply.pieces) hat]

/-- An entry that begins like the bot with its sign is an operator whose nick begins like it. -/
theorem exists_prefix_iff : (∃ piece ∈ reply.pieces, '@' :: bot <+: piece) ↔
    ∃ nick, '@' :: nick ∈ reply.pieces ∧ bot <+: nick := by
  constructor
  · rintro ⟨piece, hpiece, hpat⟩
    cases piece with
    | nil => exact absurd (List.prefix_nil.mp hpat) (List.cons_ne_nil _ _)
    | cons a nick =>
      obtain ⟨rfl, hnick⟩ := List.cons_prefix_cons.mp hpat
      exact ⟨nick, hpiece, hnick⟩
  · rintro ⟨nick, hpiece, hnick⟩
    exact ⟨'@' :: nick, hpiece, List.cons_prefix_cons.mpr ⟨rfl, hnick⟩⟩

theorem no_at_tail {piece : CStr} (h : IsEntry piece) : '@' ∉ piece.tail := by
  rcases h with rfl | ⟨nick, hnick, rfl | rfl | rfl⟩
  · exact List.not_mem_nil
  · exact fun hmem => hnick.no_at (List.mem_of_mem_tail hmem)
  · exact hnick.no_at
  · exact hnick.no_at

/-- Something else in the line looks like the bot with the sign of an operator: another operator
whose nick begins with the bot's, or what follows a colon in the name of the channel. -/
def Misleads (reply : NamesReply) (bot : CStr) : Prop :=
  (∃ nick, '@' :: nick ∈ reply.pieces ∧ bot <+: nick ∧ nick ≠ bot) ∨
    '@' :: bot <:+: reply.channel.dropWhile (· ≠ ':')

/-- What is found from the colon on is the bot itself or what misleads it. -/
theorem found_iff (hbot : ' ' ∉ bot) : ∃ before names,
    cutFirst ':' reply.line.tail = some (before, names) ∧
      ((cutString ('@' :: bot) (':' :: names)).isNone = false ↔
        '@' :: bot ∈ reply.pieces ∨ reply.Misleads bot) := by
  obtain ⟨before, names, hcut, hfound⟩ := reply.cutFirst_line
  have hblank : ' ' ∉ '@' :: bot := by simp [hbot]
  have hnone : (cutString ('@' :: bot) (':' :: names)).isNone = false ↔
      '@' :: bot <:+: ':' :: names := by
    rw [← Bool.not_eq_true, Option.isNone_iff_eq_none, cutString_eq_none_iff, not_not]
  refine ⟨before, names, hcut, ?_⟩
  rw [hnone, hfound _ hblank rfl, infix_unwords_iff hblank fun piece hpiece =>
    no_at_tail (reply.entry piece hpiece), exists_prefix_iff, Misleads]
  constructor
  · rintro (hchannel | ⟨nick, hpiece, hnick⟩)
    · exact .inr (.inr hchannel)
    · by_cases heq : nick = bot
      · exact .inl (heq ▸ hpiece)
      · exact .inr (.inl ⟨nick, hpiece, hnick, heq⟩)
  · rintro (hpiece | ⟨nick, hpiece, hnick, -⟩ | hchannel)
    · exact .inr ⟨_, hpiece, List.prefix_rfl⟩
    · exact .inr ⟨nick, hpiece, hnick⟩
    · exact .inl hchannel

/-- The reply of a server: nothing in it but the name of the channel looks like a channel, and the
list does not look like a command. -/
structure Proper : Prop where
  server : IsSender reply.server
  channel : IsChannelName reply.channel
  target : ' ' ∉ reply.target ∧ '#' ∉ reply.target
  symbol : ' ' ∉ reply.symbol ∧ '#' ∉ reply.symbol
  names : ':' ∉ unwords reply.pieces ∧ (unwords reply.pieces).head? ≠ some '!'

/-- The channel that is read off the line: its name up to a colon. -/
def channelRead : CStr := reply.channel.takeWhile (· ≠ ':')

/-- What a worker's item holds of the reply of a server: the line as it is, and the channel. -/
theorem fillItem_line (proper : reply.Proper) (userLevel : UserLevel) (bInteractiveMode : Bool) :
    (fillItem reply.line userLevel bInteractiveMode).pRawLine = reply.line ∧
      (fillItem reply.line userLevel bInteractiveMode).pAccessChannel =
        some reply.channelRead := by
  obtain ⟨hserver, hchannel, htarget, hsymbol, hnames⟩ := proper
  have notColon {word : CStr} (h : ':' ∉ word) : word.head? ≠ some ':' := fun hhead =>
    h (List.mem_of_head? hhead)
  have hmiddle : '#' ∉ reply.middle := by simp [middle, htarget.2, hsymbol.2]
  have hhead : IsHead reply.head := by
    have hlast : IsHead (' ' :: (reply.channel ++ [])) := hchannel.isHead (by decide) (by rintro ⟨⟩)
    rw [List.append_nil] at hlast
    have hwords : IsHead (' ' :: ("353".toList ++ ' ' :: (reply.target ++ ' ' ::
        (reply.symbol ++ ' ' :: reply.channel)))) :=
      isHead_word (by decide) (by decide)
        (isHead_word htarget.1 (notColon reply.target_colon)
          (isHead_word hsymbol.1 (notColon reply.symbol_colon) hlast (by simp)) (by simp)) (by simp)
    have hmid : ' ' :: (reply.middle ++ reply.channel) = ' ' :: ("353".toList ++ ' ' ::
        (reply.target ++ ' ' :: (reply.symbol ++ ' ' :: reply.channel))) := by
      simp [middle]
    rw [head]
    exact isHead_sentBy hserver.no_blank (hmid ▸ hwords)
  have hargument : getArgument reply.line = (none, reply.line) := by
    have hnone : cutString [' ', ':', '!'] (' ' :: ':' :: unwords reply.pieces) = none := by
      rw [cutString_eq_none_iff, List.infix_cons_iff, List.infix_cons_iff]
      rintro (hstart | hnext | hlater)
      · obtain ⟨rest, hrest⟩ := hstart
        exact hnames.2 (congrArg (fun t => (t.drop 2).head?) hrest).symm
      · exact absurd (List.cons_prefix_cons.mp hnext).1 (by decide)
      · exact hnames.1 (hlater.subset (by simp))
    have hline : cutString [' ', ':', '!'] reply.line = none := by
      rw [line, cutString_lineOf hhead, hnone]
      rfl
    have hmark : cutString " :!".toList reply.line = none := hline
    rw [getArgument, hmark]
  have hpreamble : getChannel reply.line = some (reply.channel.takeWhile (· ≠ ':')) := by
    have hevent := getChannel_event reply.middle [] hserver hchannel ⟨hmiddle, middle_colon reply⟩
    rw [line, getChannel_lineOf]
    simpa [head, sentBy] using hevent
  have haccess : getAccessChannel reply.line =
      (some (reply.channel.takeWhile (· ≠ ':')), reply.line) := by
    rw [getAccessChannel_of_argument hargument (fun _ h => by cases h), hpreamble]
  constructor
  · show (getParameters (getAccessChannel reply.line).2).2 = reply.line
    rw [haccess, getParameters, hargument]
  · show (getAccessChannel reply.line).1 = _
    rw [haccess]
    rfl

end NamesReply

/-! ## What the bot does -/

section Handler

variable {G : Type} [DbLib G] {env : Env} {w : World G} {reply : NamesReply} {pMsg : MsgItem}
  {pChannel : CStr}

variable (hline : pMsg.pRawLine = reply.line) (hchannel : pMsg.pAccessChannel = some pChannel)
  (hbot : ' ' ∉ w.pBotname)

include hline hchannel hbot

/-- The bot initialises the channel if its name is found behind an `@`. -/
theorem run_hBotNeedOp_found
    (hfound : '@' :: w.pBotname ∈ reply.pieces ∨ reply.Misleads w.pBotname) :
    (hBotNeedOp pMsg).run (performQuiet env) w =
      (channelInit (some pChannel)).run (performQuiet env) w := by
  obtain ⟨before, names, hcut, hiff⟩ := reply.found_iff hbot
  unfold hBotNeedOp
  rw [hchannel, hline]
  dsimp only
  rw [hcut]
  dsimp only
  rw [Prog.run_bind, run_botname, Option.bind_some, if_neg]
  rw [hiff.mpr hfound]
  exact Bool.false_ne_true

/-- It asks for operator rights if not. -/
theorem run_hBotNeedOp_asks
    (hfound : ¬ ('@' :: w.pBotname ∈ reply.pieces ∨ reply.Misleads w.pBotname)) :
    (hBotNeedOp pMsg).run (performQuiet env) w =
      (action (some pChannel) (some "needs operator access rights.")).run
        (performQuiet env) w := by
  obtain ⟨before, names, hcut, hiff⟩ := reply.found_iff hbot
  unfold hBotNeedOp
  rw [hchannel, hline]
  dsimp only
  rw [hcut]
  dsimp only
  rw [Prog.run_bind, run_botname, Option.bind_some, if_pos]
  exact (Bool.not_eq_false _).mp (mt hiff.mp hfound)

omit hline hchannel hbot

/-- The text of an action. -/
def actionText (pMsgStr : CStr) : CStr := '\x01' :: "ACTION ".toList ++ pMsgStr ++ ['\x01']

theorem actionText_inj {t t' : CStr} (h : actionText t = actionText t') : t = t' :=
  List.append_cancel_left (List.append_cancel_right h)

theorem run_action {c t : CStr} : (action (some c) (some t)).run (performQuiet env) w =
    some ((), w.sending env (privmsgLine c (actionText t))) := run_privmsg

/-- Two actions in one channel have the same line only if they have the same text. -/
theorem action_text_eq {c t t' : CStr} {lines lines' : List CStr}
    (h : lines ++ [privmsgLine c (actionText t)] = lines' ++ [privmsgLine c (actionText t')]) :
    t = t' := by
  have hline := (List.append_inj' h rfl).2
  exact actionText_inj (privmsgLine_inj (List.singleton_inj.mp hline))

/-- The last line that `channelInit` sends, if it sends any, says that it has initialised the
channel. -/
theorem wp_channelInit_sent {c : CStr} : (channelInit (some c)).wp (performQuiet env)
    (fun _ w' => w'.sent = w.sent ∨ ∃ lines, w'.sent = lines ++
      [privmsgLine c (actionText "has initialized this channel.")]) w := by
  have last (w₁ : World G) : (do
      action (some c) (some "has initialized this channel.")
      logger .info "Initialize the channel %s" [.str (some c)] : Quiet Unit).wp
      (performQuiet env) (fun _ w' => w'.sent = w.sent ∨ ∃ lines, w'.sent = lines ++
        [privmsgLine c (actionText "has initialized this channel.")]) w₁ := by
    intro a w' hrun
    rw [Prog.run_bind, run_action, Option.bind_some, run_logger] at hrun
    obtain rfl := (Prod.mk.inj (Option.some.inj hrun)).2
    exact .inr ⟨w₁.sent, rfl⟩
  unfold channelInit
  rw [Prog.wp_bind, wp_getDb]
  cases w.db.getDb .channel (some c) with
  | none => exact (Prog.wp_pure _ _ _).mpr (.inl rfl)
  | some pChannelSet =>
    dsimp only
    cases strToChannelData pChannelSet with
    | none =>
      intro a w' hrun
      rw [run_crash] at hrun
      cases hrun
    | some sChannelData =>
      have modes (w₁ : World G) : (if !(channelModeToStr sChannelData.sModes).isEmpty then do
            mode (some c) (some (channelModeToStr sChannelData.sModes)) none
            action (some c) (some "has initialized this channel.")
            logger .info "Initialize the channel %s" [.str (some c)]
          else do
            action (some c) (some "has initialized this channel.")
            logger .info "Initialize the channel %s" [.str (some c)] : Quiet Unit).wp
          (performQuiet env) (fun _ w' => w'.sent = w.sent ∨ ∃ lines, w'.sent = lines ++
            [privmsgLine c (actionText "has initialized this channel.")]) w₁ := by
        split
        · exact (Prog.wp_bind _ _ _ _).mpr (wp_quiet fun _ w₂ _ => last w₂)
        · exact last w₁
      dsimp only
      split
      · exact (Prog.wp_bind _ _ _ _).mpr (wp_quiet fun _ w₁ _ => modes w₁)
      · exact modes w

/-- Initialising a channel and asking for operator rights are never the same. -/
theorem channelInit_ne_ask {c : CStr} : (channelInit (some c)).run (performQuiet env) w ≠
    (action (some c) (some "needs operator access rights.")).run (performQuiet env) w := by
  intro heq
  rw [run_action] at heq
  rcases wp_channelInit_sent () _ heq with hsent | ⟨lines, hsent⟩
  · exact List.cons_ne_nil _ _ (List.append_right_eq_self.mp hsent)
  · exact absurd (action_text_eq hsent) (by decide)

end Handler

/-- The bot initialises the channel if it stands in the list as an operator, and asks for operator
rights if not. -/
def NamesReply.Recognised {G : Type} [DbLib G] (reply : NamesReply) (env : Env) (w : World G)
    (pMsg : MsgItem) (pChannel : CStr) : Prop :=
  (hBotNeedOp pMsg).run (performQuiet env) w =
    (if '@' :: w.pBotname ∈ reply.pieces then channelInit (some pChannel)
      else action (some pChannel) (some "needs operator access rights.")).run (performQuiet env) w

/-- With the line and a channel at hand it does so exactly if it does stand there as an operator or
nothing else in the line looks like it. -/
theorem recognised_iff {G : Type} [DbLib G] {env : Env} {w : World G} {reply : NamesReply}
    {pMsg : MsgItem} {pChannel : CStr} (hline : pMsg.pRawLine = reply.line)
    (hchannel : pMsg.pAccessChannel = some pChannel) (hbot : ' ' ∉ w.pBotname) :
    reply.Recognised env w pMsg pChannel ↔
      '@' :: w.pBotname ∈ reply.pieces ∨ ¬ reply.Misleads w.pBotname := by
  unfold NamesReply.Recognised
  by_cases hlisted : '@' :: w.pBotname ∈ reply.pieces
  · rw [if_pos hlisted]
    exact iff_of_true (run_hBotNeedOp_found hline hchannel hbot (.inl hlisted)) (.inl hlisted)
  · rw [if_neg hlisted]
    by_cases hmisled : reply.Misleads w.pBotname
    · rw [run_hBotNeedOp_found hline hchannel hbot (.inr hmisled)]
      exact iff_of_false channelInit_ne_ask (not_or.mpr ⟨hlisted, not_not.mpr hmisled⟩)
    · have hneither := not_or.mpr ⟨hlisted, hmisled⟩
      exact iff_of_true (run_hBotNeedOp_asks hline hchannel hbot hneither) (.inr hmisled)

/-- On every list of nicks the bot initialises the channel exactly if it stands in the list as an
operator, and asks for operator rights exactly if not, if and only if it does stand there as one or
nothing else in the line looks like it. So it is for every item with the line and a channel, and
for the item of a worker the channel is the one of the line. -/
theorem own_op_recognised_iff {G : Type} [DbLib G] {env : Env} {w : World G} {reply : NamesReply}
    (hbot : ' ' ∉ w.pBotname) :
    (∀ pMsg pChannel, pMsg.pRawLine = reply.line → pMsg.pAccessChannel = some pChannel →
      (reply.Recognised env w pMsg pChannel ↔
        '@' :: w.pBotname ∈ reply.pieces ∨ ¬ reply.Misleads w.pBotname)) ∧
    (reply.Proper → ∀ userLevel bInteractiveMode,
      (reply.Recognised env w (fillItem reply.line userLevel bInteractiveMode) reply.channelRead ↔
        '@' :: w.pBotname ∈ reply.pieces ∨ ¬ reply.Misleads w.pBotname)) := by
  refine ⟨fun pMsg pChannel hline hchannel => recognised_iff hline hchannel hbot,
    fun proper userLevel bInteractiveMode => ?_⟩
  obtain ⟨hline, hchannel⟩ := reply.fillItem_line proper userLevel bInteractiveMode
  exact recognised_iff hline hchannel hbot

/-- A list with the bot as an operator and another one without a sign. -/
def ownReply : NamesReply where
  server := "irc.net"
  target := "ebotula"
  symbol := "="
  channel := "#chan"
  pieces := ["@ebotula", "alice"]
  server_colon := by decide
  target_colon := by decide
  symbol_colon := by decide
  channel_blank := by decide
  entry := by
    simp only [List.forall_mem_cons]
    refine ⟨.inr ⟨"ebotula", ⟨by decide, by decide⟩, .inr (.inl rfl)⟩,
      .inr ⟨"alice", ⟨by decide, by decide⟩, .inl rfl⟩, nofun⟩

/-- A list with an operator whose nick begins like the bot's, and the bot without a sign. -/
def otherReply : NamesReply where
  server := "irc.net"
  target := "ebotula"
  symbol := "="
  channel := "#chan"
  pieces := ["@ebotula2", "ebotula"]
  server_colon := by decide
  target_colon := by decide
  symbol_colon := by decide
  channel_blank := by decide
  entry := by
    simp only [List.forall_mem_cons]
    refine ⟨.inr ⟨"ebotula2", ⟨by decide, by decide⟩, .inr (.inl rfl)⟩,
      .inr ⟨"ebotula", ⟨by decide, by decide⟩, .inl rfl⟩, nofun⟩

theorem ownReply_proper : ownReply.Proper where
  server := ⟨by decide, by decide, by decide⟩
  channel := ⟨rfl, by decide⟩
  target := by decide
  symbol := by decide
  names := by decide

theorem otherReply_proper : otherReply.Proper :=
  { ownReply_proper with names := by decide }

/-- The item of a worker for the first list. -/
theorem own_op_recognised_listed :
    (hBotNeedOp (fillItem ownReply.line .noneLevel false)).run (performQuiet calmEnv) freshBot =
      (channelInit (some "#chan")).run (performQuiet calmEnv) freshBot := by
  have hlisted : '@' :: freshBot.pBotname ∈ ownReply.pieces := List.mem_cons_self
  have hbot : ' ' ∉ freshBot.pBotname := by decide
  have hrecognised : ownReply.Recognised calmEnv freshBot (fillItem ownReply.line .noneLevel false)
      ownReply.channelRead :=
    ((own_op_recognised_iff hbot).2 ownReply_proper .noneLevel false).mpr (.inl hlisted)
  rw [NamesReply.Recognised, if_pos hlisted] at hrecognised
  exact hrecognised

/-- The bot takes the other operator for itself. -/
theorem other_op_taken_for_bot :
    ¬ ∀ (reply : NamesReply) (env : Env) (w : World Gdbm), reply.Proper → ' ' ∉ w.pBotname →
      reply.Recognised env w (fillItem reply.line .noneLevel false) reply.channelRead := by
  intro claim
  have hbot : ' ' ∉ freshBot.pBotname := by decide
  have hlisted : '@' :: freshBot.pBotname ∉ otherReply.pieces := by decide
  have hmisled : otherReply.Misleads freshBot.pBotname :=
    .inl ⟨"ebotula2".toList, List.mem_cons_self, by decide, by decide⟩
  obtain ⟨hline, hchannel⟩ := otherReply.fillItem_line otherReply_proper .noneLevel false
  have hrecognised := claim otherReply calmEnv freshBot otherReply_proper hbot
  exact ((recognised_iff hline hchannel hbot).mp hrecognised).elim hlisted fun h => h hmisled

end Ebotula
