import Ebotula.Laws.Reactions
import Ebotula.Runs

/-!
# What the server reads of an interleaving

Whatever the tasks do at the same time, the server reads one command of the bot for each line
that the bot has sent, and reads nothing else. Nobody who speaks to the bot, and nothing that was
saved for a channel or an account, can put a command of his own behind one of the bot's. The
answer to a PING without a parameter is the one line that may lack its end, so no line that is
handed over is such a PING.

The alphabet is a parameter: a law about any set of characters that no line, no database and no
answer of the machine has a character outside of. That it is without the two ends of a line is
all that the server's reading needs.
-/

set_option autoImplicit false

namespace Ebotula

open Library Alphabet

attribute [local irreducible] Prog.Honors

variable {A : Alphabet}

/-! ## Tasks -/

theorem honors_timingTurn {sSetup : ConfigSetup} {st : TimingState}
    (hserver : A.SpellsOpt (sSetup .server))
    (hident : A.SpellsOpt (sSetup .nickservIdent)) :
    (timingTurn sSetup st).Honors (botContract A) fun _ => True := by
  have pinged {newTime : Int} {st : TimingState} :
      (pingServer sSetup newTime st).Honors (botContract A) fun _ => True := by
    unfold pingServer
    simp only [Prog.liftM_eq]
    split
    · exact .seq (.lift (honors_ping hserver (.ret trivial)))
    · exact .ret trivial
  have loggedOff {newTime : Int} {st : TimingState} :
      (removeDeadLogins sSetup newTime st).Honors (botContract A) fun _ => True := by
    unfold removeDeadLogins
    simp only [Prog.liftM_eq]
    split
    · exact .seq (.lift (honors_logger (.seq (honors_rmDeadLogins (.ret trivial)))))
    · exact .ret trivial
  have removed {newTime : Int} {st : TimingState} :
      (removeDeadAccounts sSetup newTime st).Honors (botContract A) fun _ => True := by
    unfold removeDeadAccounts
    simp only [Prog.liftM_eq]
    split
    · exact .seq (.lift (honors_logger (.seq (honors_rmDeadAccounts (.ret trivial)))))
    · exact .ret trivial
  have identified {newTime : Int} {st : TimingState} :
      (identNickServ sSetup newTime st).Honors (botContract A) fun _ => True := by
    unfold identNickServ
    simp only [Prog.liftM_eq]
    split
    · next sNickServIdent hsome =>
      split
      · refine .seq (.lift
          (honors_privmsg (spellsOpt_some.mpr (spells_text rfl)) ?_ (.ret trivial)))
        exact spellsOpt_some.mpr (spells_append.mpr
          ⟨spells_text rfl, spellsOpt_some.mp (hident.congr hsome)⟩)
      · exact .ret trivial
    · exact .ret trivial
  unfold timingTurn
  simp only [Prog.liftM_eq]
  refine .seq (.lift (honors_time fun newTime => ?_))
  exact pinged.bind fun _ _ => loggedOff.bind fun _ _ => removed.bind fun _ _ => identified

theorem honors_joinAllChannels : joinAllChannels.Honors (quietContract A) fun _ => True := by
  unfold joinAllChannels
  refine .seq (honors_listDb fun channels hchannels => ?_)
  exact Prog.honors_forEach (fun c hc =>
    honors_join (spellsOpt_some.mpr (hchannels c hc)) trivial) trivial

/-- What a task is given is made of texts over the alphabet, and is no PING without a
parameter. -/
def Task.Within (A : Alphabet) : Task → Prop
  | receiveLine pCurrLine => A.Spells pCurrLine ∧ ¬ BarePing pCurrLine
  | executeCommand pMsg => A.Spells pMsg.pMsgLine ∧ pMsg.identify ≠ .onPing
  | timingTurn sSetup _ => A.SpellsOpt (sSetup .server) ∧ A.SpellsOpt (sSetup .nickservIdent)
  | joinAllChannels => True

structure Work.Within (A : Alphabet) (work : Work) : Prop where
  env : work.env.Within A
  task : work.task.Within A

/-- Every task honors the contract. -/
theorem Task.Within.honors {task : Task} (h : task.Within A) :
    task.program.Honors (botContract A) fun _ => True := by
  cases task with
  | receiveLine pCurrLine =>
    exact .seq (.lift ((honors_receiveLine h.1 h.2).mono fun _ _ => .ret trivial))
  | executeCommand pMsg => exact honors_executeCommand h.1 h.2
  | timingTurn sSetup st => exact (honors_timingTurn h.1 h.2).bind fun _ _ => .ret trivial
  | joinAllChannels => exact .lift honors_joinAllChannels

/-! ## Every interleaving -/

section Interleaving

variable {ι G : Type} [DecidableEq ι] [DbLib G] {works : ι → Work} {w : World G}
  {c : BotThreads ι G} {ok : BotThreads ι G → ι → Prop} {schedule : List ι}

theorem within_of_interleaving (hworks : ∀ i, (works i).Within A) (hw : w.Within A)
    (run : Run (BotThreads.step works) ok (BotThreads.start works w) schedule c) :
    c.shared.Within A :=
  (Threads.keeps_contract (C := fun _ => botContract A)
    (fun i => botContract_upheld (hworks i).env) run hw fun i => (hworks i).task.honors).1

/-- Of the lines of any interleaving of tasks the server reads one command for each, in their
order: a verb of the bot with its arguments. -/
theorem reads_one_command_a_line (hcr : ¬ A.Has '\r') (hlf : ¬ A.Has '\n')
    (hworks : ∀ i, (works i).Within A) (hw : w.Within A)
    (run : Run (BotThreads.step works) ok (BotThreads.start works w) schedule c) :
    List.Forall₂ A.Gives c.shared.sent (readCommands c.shared.sent.flatten) :=
  readCommands_flatten hcr hlf (within_of_interleaving hworks hw run).sent

end Interleaving

/-- All characters but the two ends of a line. -/
def lineAlphabet : Alphabet where
  Has c := c ≠ '\r' ∧ c ≠ '\n'
  own c h := by
    constructor
    all_goals
      rintro rfl
      exact absurd h (by decide)

/-- A PING, received while the saved channels are joined. -/
def pingAndJoin : Bool → Work
  | false => ⟨calmEnv, .receiveLine "PING :irc"⟩
  | true => ⟨calmEnv, .joinAllChannels⟩

theorem calmEnv_within : calmEnv.Within A where
  host _ := spells_nil
  unwritten _ := spells_nil
  pointer _ h := by cases h

theorem freshBot_within : freshBot.Within A where
  databases := ⟨fun _ _ h => absurd h List.not_mem_nil, fun _ _ _ => spellsOpt_none⟩
  callbacks _ _ h := by cases h
  botname := spells_text rfl
  sent _ h := absurd h List.not_mem_nil

theorem channelBot_within : channelBot.Within A :=
  { freshBot_within with
    databases := Databases.Within.apply
      (o := .addDb .channel (some "#c") (some "\t\t")) freshBot_within.databases
      ⟨spellsOpt_some.mpr (spells_text rfl), fun _ => spellsOpt_some.mpr (spells_text rfl)⟩ }

theorem reads_one_command_a_line_pingAndJoin : ∃ c : BotThreads Bool Gdbm,
    c.shared.sent = ["PONG :irc\r\n".toList, "JOIN #c\r\n".toList] ∧
    List.Forall₂ lineAlphabet.Gives c.shared.sent (readCommands c.shared.sent.flatten) := by
  have computed : ((Run.steps (BotThreads.step pingAndJoin) (fun _ _ => true)
      (BotThreads.start pingAndJoin channelBot) [true, false, false, true]).map
        fun c => c.shared.sent) = some ["PONG :irc\r\n".toList, "JOIN #c\r\n".toList] := by
    decide +kernel
  obtain ⟨c, hc, hsent⟩ := Option.map_eq_some_iff.mp computed
  have hworks (i : Bool) : (pingAndJoin i).Within lineAlphabet := by
    cases i with
    | false => exact ⟨calmEnv_within, spells_text rfl, not_barePing rfl (by decide)⟩
    | true => exact ⟨calmEnv_within, trivial⟩
  exact ⟨c, hsent, reads_one_command_a_line (fun h => h.1 rfl) (fun h => h.2 rfl) hworks
    channelBot_within (Run.of_steps hc)⟩

end Ebotula
