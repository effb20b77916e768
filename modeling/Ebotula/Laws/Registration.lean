import Ebotula.Laws.Sending
import Ebotula.Network
import Ebotula.Runs

/-!
# The registration

What `ConnectToIrc` comes to, for any answers of the server: the nicknames that the bot asks for,
the name it goes by in the end, and whether it takes itself for registered. All of it depends on
how many of the first answers refuse the nickname.
-/

set_option autoImplicit false

namespace Ebotula

open Library

/-! ## Answers -/

/-- The text that one `RecvLine` leaves in the buffer. -/
def Received.text : Received → CStr
  | .data bytes => cString bytes
  | .closed | .timeout => []

/-- `RecvLine` has nothing to read, and the bot is to stop. -/
def Received.isSilent : Received → Bool
  | .data _ => false
  | .closed | .timeout => true

/-- The answer has room for the NUL in the buffer of `ConnectToIrc`. -/
def Received.Fits : Received → Prop
  | .data bytes => bytes.length < recvBufferSize
  | .closed | .timeout => True

instance : (answer : Received) → Decidable answer.Fits
  | .data bytes => inferInstanceAs (Decidable (bytes.length < recvBufferSize))
  | .closed | .timeout => isTrue trivial

namespace Answers

/-- What is read next. -/
def next (answers : Answers) : Received := answers.headD .timeout

/-- How many of the first answers refuse a nickname, one after the other. -/
def refusals : (tries : Nat) → Answers → Nat
  | 0, _ => 0
  | tries + 1, answers =>
    if (cutString nickInUse answers.next.text).isSome then refusals tries answers.tail + 1 else 0

/-- One of the first answers is no answer. -/
def silent : (tries : Nat) → Answers → Bool
  | 0, _ => false
  | tries + 1, answers => answers.next.isSilent || silent tries answers.tail

/-- How many names are refused, of all that the bot can ask for. -/
def refused (answers : Answers) : Nat := answers.refusals (maxNicks + 1)

theorem silent_succ (tries : Nat) (answers : Answers) :
    silent (tries + 1) answers = (answers.next.isSilent || silent tries answers.tail) := rfl

end Answers

/-! ## One turn -/

/-- The line that asks for a nickname. -/
def nickCommand (pNick : CStr) : CStr := "NICK ".toList ++ pNick ++ "\r\n".toList

def userCommand (env : Env) (pw_name sHostname realname : CStr) : CStr :=
  "USER ".toList ++ pw_name ++ ' ' :: env.host .hostname ++ ' ' :: sHostname ++ " :".toList ++
    realname ++ "\r\n".toList

/-- The name with a number of underlines in front. -/
def underlined (n : Nat) (name : CStr) : CStr := List.replicate n '_' ++ name

theorem underlined_succ (n : Nat) (name : CStr) :
    underlined (n + 1) name = underlined n ('_' :: name) := by
  rw [underlined, underlined, List.replicate_succ', List.append_assoc]
  rfl

section Runs

variable {G : Type} [DbLib G] {env : Env} {w : World G} {answers : Answers}

omit [DbLib G] in
theorem World.sending_stop {line : CStr} :
    (w.sending env line).stop = (w.stop || !env.sendOk) := rfl

theorem run_nick {pNick : CStr} : (nick (some pNick)).run (performQuiet env) w =
    some ((), w.sending env (nickCommand pNick)) := by
  have hline : vsprintf "NICK %s\r\n" [.str pNick] = some (nickCommand pNick) := by
    delta nickCommand
    simp [vsprintf]
  exact run_sendCommand rfl hline

theorem run_hostText {text : HostText} :
    (hostText text).run (performQuiet env) w = some (env.host text, w) := Prog.run_request _ _

theorem run_user {pw_name sHostname realname : CStr} :
    (user pw_name sHostname realname).run (performQuiet env) w =
      some ((), w.sending env (userCommand env pw_name sHostname realname)) := by
  have hline : vsprintf "USER %s %s %s :%s\r\n"
      [.str pw_name, .str (env.host .hostname), .str sHostname, .str realname] =
        some (userCommand env pw_name sHostname realname) := by
    delta userCommand
    simp [vsprintf]
  rw [user, Prog.run_bind, run_hostText, Option.bind_some]
  exact run_sendCommand rfl hline

/-- A routine of the bot, run while answers are waiting. -/
theorem run_net {α : Type} (p : Quiet α) : (p.lift : Net α).run (performNet env) (w, answers) =
    (p.run (performQuiet env) w).map fun r => (r.1, (r.2, answers)) := by
  rw [performNet, Prog.run_lift, Prog.run_beside]

variable (env) in
/-- `RecvLine` takes the next answer. -/
theorem run_receive (h : answers.next.Fits) : ∃ w' : World G,
    receive.run (performNet env) (w, answers) = some (answers.next.text, (w', answers.tail)) ∧
    w'.pBotname = w.pBotname ∧ w'.sent = w.sent ∧ w'.db = w.db ∧
    w'.stop = (w.stop || answers.next.isSilent) := by
  have performed : receive.run (performNet env) (w, answers) = performRecv .recvLine (w, answers) :=
    Prog.run_request (S := quietSig.sum netSig) (.inr NetOp.recvLine) (w, answers)
  rw [performed]
  cases answers with
  | nil => exact ⟨_, rfl, rfl, rfl, rfl, (Bool.or_true _).symm⟩
  | cons answer answers =>
    cases answer with
    | data bytes =>
      have hread : recvLine bytes = some (cString bytes) := if_pos h
      exact ⟨w, by rw [performRecv, hread]; rfl, rfl, rfl, rfl, (Bool.or_false _).symm⟩
    | closed | timeout => exact ⟨_, rfl, rfl, rfl, rfl, (Bool.or_true _).symm⟩

variable (env) in
/-- One name is asked for, and taken back if it is refused. -/
theorem run_tryNick (h : answers.next.Fits) : ∃ w' : World G,
    tryNick.run (performNet env) (w, answers) =
      some ((cutString nickInUse answers.next.text).isSome, (w', answers.tail)) ∧
    w'.sent = w.sent ++ [nickCommand w.pBotname] ∧
    w'.pBotname = underlined (answers.refusals 1) w.pBotname ∧ w'.db = w.db ∧
    w'.stop = (w.stop || !env.sendOk || answers.next.isSilent) := by
  obtain ⟨w₁, hreceive, hname, hsent, hdb, hstop⟩ :=
    run_receive env (w := w.sending env (nickCommand w.pBotname)) h
  unfold tryNick
  simp only [Prog.liftM_eq, Prog.run_bind, run_net, run_botname, run_nick, Option.map_some,
    Option.bind_some, hreceive]
  cases hrefused : cutString nickInUse answers.next.text with
  | none =>
    refine ⟨w₁, rfl, hsent, ?_, hdb, hstop⟩
    rw [hname, Answers.refusals, hrefused]
    rfl
  | some cut =>
    refine ⟨{ w₁ with pBotname := '_' :: w.pBotname }, ?_, hsent, ?_, hdb, hstop⟩
    · simp only [Prog.run_bind, run_net, run_botname, Option.map_some, Option.bind_some, hname]
      rfl
    · rw [Answers.refusals, hrefused]
      rfl

theorem Answers.fits {left : Nat} (h : ∀ answer ∈ answers.take (left + 1), answer.Fits) :
    answers.next.Fits ∧ ∀ answer ∈ answers.tail.take left, answer.Fits := by
  cases answers with
  | nil =>
    refine ⟨trivial, fun _ ha => ?_⟩
    rw [List.tail_nil, List.take_nil] at ha
    exact absurd ha List.not_mem_nil
  | cons answer answers =>
    rw [List.take_succ_cons] at h
    exact List.forall_mem_cons.mp h

variable (env) in
/-- The loop, from a turn on that `left` others follow. -/
theorem run_tryNicks {left : Nat} (h : ∀ answer ∈ answers.take (left + 1), answer.Fits) :
    ∃ w' : World G, (tryNicks left).run (performNet env) (w, answers) =
      some (decide (answers.refusals (left + 1) < left),
        (w', answers.drop (min (answers.refusals (left + 1)) left + 1))) ∧
    w'.sent = w.sent ++ (List.range (min (answers.refusals (left + 1)) left + 1)).map
      (fun i => nickCommand (underlined i w.pBotname)) ∧
    w'.pBotname = underlined (answers.refusals (left + 1)) w.pBotname ∧ w'.db = w.db ∧
    w'.stop = (w.stop || !env.sendOk ||
      answers.silent (min (answers.refusals (left + 1)) left + 1)) := by
  induction left generalizing w answers with
  | zero =>
    obtain ⟨w₁, htry, hsent, hname, hdb, hstop⟩ := run_tryNick env (w := w) (Answers.fits h).1
    refine ⟨w₁.logging ⟨.err, "Couldn't set the nickname %s.", [.str w₁.pBotname]⟩, ?_, ?_, hname,
      hdb, ?_⟩
    · unfold tryNicks
      simp only [Prog.liftM_eq, Prog.run_bind, htry, Option.bind_some, run_net, run_botname,
        Option.map_some]
      simp [run_logger]
    · simpa [underlined] using hsent
    · refine hstop.trans ?_
      simp [Answers.silent]
  | succ left ih =>
    obtain ⟨hnext, htail⟩ := Answers.fits h
    obtain ⟨w₁, htry, hsent, hname, hdb, hstop⟩ := run_tryNick env (w := w) hnext
    unfold tryNicks
    rw [Prog.run_bind, htry, Option.bind_some]
    by_cases hrefused : (cutString nickInUse answers.next.text).isSome
    · have hfirst : answers.refusals 1 = 1 := if_pos hrefused
      have hall : answers.refusals (left + 1 + 1) = Answers.refusals (left + 1) answers.tail + 1 :=
        if_pos hrefused
      rw [hfirst] at hname
      obtain ⟨w₂, hrun, hsent₂, hname₂, hdb₂, hstop₂⟩ := ih (w := w₁) htail
      refine ⟨w₂, ?_, ?_, ?_, hdb₂.trans hdb, ?_⟩
      · rw [if_pos hrefused, hrun, hall, Nat.succ_min_succ, List.drop_tail]
        simp only [Nat.succ_lt_succ_iff]
      · rw [hsent₂, hsent, hall, hname, Nat.succ_min_succ, List.range_succ_eq_map (n := _ + 1),
          List.map_cons, List.map_map, List.append_assoc]
        refine congrArg (w.sent ++ nickCommand w.pBotname :: ·) (List.map_congr_left fun i _ => ?_)
        exact congrArg nickCommand (underlined_succ i w.pBotname).symm
      · rw [hname₂, hname, hall]
        exact (underlined_succ _ w.pBotname).symm
      · rw [hstop₂, hstop, hall, Nat.succ_min_succ, Answers.silent_succ _ answers]
        cases w.stop <;> cases env.sendOk <;> cases answers.next.isSilent <;> rfl
    · have hfirst : answers.refusals 1 = 0 := if_neg hrefused
      have hall : answers.refusals (left + 1 + 1) = 0 := if_neg hrefused
      rw [hfirst] at hname
      refine ⟨w₁, ?_, ?_, ?_, hdb, ?_⟩
      · rw [if_neg hrefused, hall, Nat.zero_min, decide_eq_true (Nat.succ_pos left), List.drop_one]
        rfl
      · rw [hsent, hall, Nat.zero_min]
        rfl
      · rw [hname, hall]
      · rw [hstop, hall, Nat.zero_min, Answers.silent, Answers.silent, Bool.or_false]

variable (env) in
/-- Of answers that have room in its buffer: the bot asks for its name, with one underline more
after each refusal, at most `MAX_NICKS` times again. It takes itself for registered if one of the
first `MAX_NICKS` names was not refused, whatever the answer to the last one is, and goes by the
name it has asked for last then. An answer that is missing refuses nothing, but stops the bot. -/
theorem registers (pw_name sHostname realname : CStr)
    (h : ∀ answer ∈ answers.take (maxNicks + 1), answer.Fits) :
    ∃ w' : World G, (connectToIrc pw_name sHostname realname).run (performNet env) (w, answers) =
      some (decide (answers.refused < maxNicks),
        (w', answers.drop (min answers.refused maxNicks + 1))) ∧
    w'.sent = w.sent ++ userCommand env pw_name sHostname realname ::
      (List.range (min answers.refused maxNicks + 1)).map
        (fun i => nickCommand (underlined i w.pBotname)) ∧
    w'.pBotname = underlined answers.refused w.pBotname ∧
    (answers.refused < maxNicks → w'.sent.getLast? = some (nickCommand w'.pBotname)) ∧
    w'.db = w.db ∧
    w'.stop = (w.stop || !env.sendOk || answers.silent (min answers.refused maxNicks + 1)) := by
  obtain ⟨w', hrun, hsent, hname, hdb, hstop⟩ := run_tryNicks env
    (w := w.sending env (userCommand env pw_name sHostname realname)) h
  have hlines : w'.sent = w.sent ++ userCommand env pw_name sHostname realname ::
      (List.range (min answers.refused maxNicks + 1)).map
        (fun i => nickCommand (underlined i w.pBotname)) := by
    rw [hsent, World.sending_sent, List.append_assoc, List.singleton_append]
    rfl
  refine ⟨w', ?_, hlines, hname, fun hfew => ?_, hdb, ?_⟩
  · unfold connectToIrc
    rw [Prog.run_bind, Prog.liftM_eq, run_net, run_user, Option.map_some, Option.bind_some]
    exact hrun
  · rw [hlines, hname, Nat.min_eq_left (Nat.le_of_lt hfew), List.range_succ, List.map_append,
      List.map_singleton, ← List.cons_append, ← List.append_assoc, List.getLast?_concat]
    rfl
  · rw [hstop, World.sending_stop, Bool.or_assoc w.stop, Bool.or_self]
    rfl

end Runs

/-- The first two names are in use. -/
def twoRefusals : Answers :=
  [.data ":irc 433 * ebotula :Nickname is already in use.\r\n".toList,
    .data ":irc 433 * _ebotula :Nickname is already in use.\r\n".toList,
    .data ":irc 001 __ebotula :Welcome\r\n".toList]

theorem registers_twoRefusals : ∃ w' : World Gdbm,
    (connectToIrc "bot" "irc" "ebotula").run (performNet calmEnv) (freshBot, twoRefusals) =
      some (true, (w', [])) ∧ w'.pBotname = "__ebotula".toList := by
  have hfits : ∀ answer ∈ twoRefusals.take (maxNicks + 1), answer.Fits := by decide +kernel
  have hrefused : twoRefusals.refused = 2 := by decide +kernel
  obtain ⟨w', hrun, -, hname, -⟩ :=
    registers (G := Gdbm) (w := freshBot) calmEnv "bot" "irc" "ebotula" hfits
  rw [hrefused] at hrun hname
  exact ⟨w', hrun, hname⟩

end Ebotula
