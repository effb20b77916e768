import Ebotula.LineBuffer
import Ebotula.Laws.Sending

/-!
# Lines and their buffers

Of sixteen routines fourteen allocate exactly the bytes of their line and its NUL, as long as an
`int` can count the line. `ban` and `deban` are one byte short, and the NUL is written behind the
buffer.
-/

set_option autoImplicit false

namespace Ebotula

open Library

/-! ## One line in one buffer -/

section Programs

/-- The first request of a routine. -/
def firstRequest : Quiet Unit → Option Op
  | .ret _ => none
  | .call o _ => some o

theorem sendLine_inj {s t : CStr} : sendLine s = sendLine t ↔ s = t := by
  refine ⟨fun h => ?_, congrArg sendLine⟩
  injection congrArg firstRequest h with hop
  injection hop

theorem logger_ne_sendLine {priority : LogLevel} {format s : CStr} {args : List FmtArg} :
    logger priority format args ≠ sendLine s := fun h => by
  injection congrArg firstRequest h with hop
  cases hop

theorem crash_ne_sendLine {s : CStr} : crash ≠ sendLine s := fun h => by
  injection congrArg firstRequest h with hop
  cases hop

end Programs

section Buffer

variable {l : LineBuffer} {line : CStr}

/-- `snprintf` cuts a line that is too long for its buffer, `sprintf` writes beside the buffer; of a
line that is too long for an `int` nothing is known. -/
theorem LineBuffer.send_eq (hargs : l.args.find? (·.2.isNone) = none)
    (htext : l.text = some line) (hnul : '\x00' ∉ line) (hsize : l.size < 2 ^ 63) :
    l.send = match l.print with
      | .snprintf =>
        if line.length < 2 ^ 31 ∧ l.size ≠ 0 then sendLine (line.take (l.size - 1)) else crash
      | .sprintf =>
        if line.length < 2 ^ 31 ∧ line.length < l.size then sendLine line else crash := by
  rw [send, hargs, htext]
  dsimp only
  rw [malloc_eq hsize]
  dsimp only
  cases hprint : l.print with
  | snprintf =>
    simp only [printInto, hprint, Option.bind_some]
    rw [Block.snprintf_new hnul]
    by_cases hroom : line.length < 2 ^ 31 ∧ l.size ≠ 0
    · rw [if_pos hroom, if_pos hroom]
    · rw [if_neg hroom, if_neg hroom]
  | sprintf =>
    simp only [printInto, hprint, Option.bind_some]
    rw [Block.sprintf_new hnul]
    by_cases hroom : line.length < 2 ^ 31 ∧ line.length < l.size
    · rw [if_pos hroom, if_pos hroom]
    · rw [if_neg hroom, if_neg hroom]

/-- A line is sent as it is exactly if it can be counted and fits its buffer with a NUL behind
it. -/
theorem LineBuffer.send_eq_iff (hargs : l.args.find? (·.2.isNone) = none)
    (htext : l.text = some line) (hnul : '\x00' ∉ line) :
    l.send = sendLine line ↔ l.size < 2 ^ 63 ∧ line.length < 2 ^ 31 ∧ line.length < l.size := by
  by_cases hsize : l.size < 2 ^ 63
  · rw [send_eq hargs htext hnul hsize]
    cases l.print with
    | snprintf =>
      dsimp only
      split
      · next hroom =>
        simp only [sendLine_inj, List.take_eq_self_iff]
        omega
      · next hroom =>
        exact iff_of_false crash_ne_sendLine fun h => hroom ⟨h.2.1, by omega⟩
    | sprintf =>
      dsimp only
      split
      · next hroom => exact iff_of_true rfl ⟨hsize, hroom⟩
      · next hroom => exact iff_of_false crash_ne_sendLine fun h => hroom h.2
  · unfold send malloc
    rw [hargs, if_neg hsize]
    exact iff_of_false logger_ne_sendLine fun h => hsize h.1

end Buffer

/-! ## The routines -/

/-- A call of a routine with the strings it is given. -/
inductive LineCall
  | user (pw_name hostname sHostname realname : Str)
  | privmsg (pTarget pMsgStr : Str)
  | notice (pNick pMsgStr : Str)
  | action (pTarget pMsgStr : Str)
  | join (pChannel : Str)
  | part (pChannel : Str)
  | pong (pPong : Str)
  | ping (pTarget : Str)
  | invite (pChannel : Option Str) (pNick : Str)
  | nick (pNick : Str)
  | topic (pChannel pMsgStr : Str)
  | kick (pChannel pNick pMsgStr : Str)
  | ban (pChannel pMask : Str)
  | deban (pChannel pMask : Str)
  | mode (pChannel pMod : Str) (pModParameter : Option Str)
  | whois (pNickname : Str)

/-- The text of an action, framed. -/
def framed (pMsgStr : CStr) : CStr := '\x01' :: "ACTION ".toList ++ pMsgStr ++ ['\x01']

/-- An optional string, as the routines are given it. -/
def optional (s : Option Str) : Option CStr := s.map Subtype.val

namespace LineCall

/-- What the call does for its line. -/
def buffer : LineCall → LineBuffer
  | user pw_name hostname sHostname realname => .user pw_name hostname sHostname realname
  | privmsg pTarget pMsgStr => .privmsg (some pTarget) (some pMsgStr)
  | notice pNick pMsgStr => .notice (some pNick) (some pMsgStr)
  | action pTarget pMsgStr => .privmsg (some pTarget) (some (framed pMsgStr))
  | join pChannel => .join (some pChannel)
  | part pChannel => .part (some pChannel)
  | pong pPong => .pong [] [] (some pPong)
  | ping pTarget => .ping (some pTarget)
  | invite pChannel pNick => .invite (optional pChannel) (some pNick)
  | nick pNick => .nick (some pNick)
  | topic pChannel pMsgStr => .topic (some pChannel) (some pMsgStr)
  | kick pChannel pNick pMsgStr => .kick (some pChannel) (some pNick) (some pMsgStr)
  | ban pChannel pMask => .ban (some pChannel) (some pMask)
  | deban pChannel pMask => .deban (some pChannel) (some pMask)
  | mode pChannel pMod pModParameter => .mode (some pChannel) (some pMod) (optional pModParameter)
  | whois pNickname => .whois (some pNickname)

/-- The routine. -/
def program : LineCall → Quiet Unit
  | action pTarget pMsgStr => LineBuffer.action (some pTarget) (some pMsgStr)
  | call => call.buffer.send

/-- The complete line, piece by piece. -/
def pieces : LineCall → List CStr
  | user pw_name hostname sHostname realname =>
    ["USER ", pw_name, " ", hostname, " ", sHostname, " :", realname, "\r\n"]
  | privmsg pTarget pMsgStr => ["PRIVMSG ", pTarget, " :", pMsgStr, "\r\n"]
  | notice pNick pMsgStr => ["NOTICE ", pNick, " :", pMsgStr, "\r\n"]
  | action pTarget pMsgStr => ["PRIVMSG ", pTarget, " :", framed pMsgStr, "\r\n"]
  | join pChannel => ["JOIN ", pChannel, "\r\n"]
  | part pChannel => ["PART ", pChannel, "\r\n"]
  | pong pPong => ["PONG ", pPong, "\r\n"]
  | ping pTarget => ["PING ", pTarget, "\r\n"]
  | invite pChannel pNick => ["INVITE ", pNick, " ", (optional pChannel).getD [], "\r\n"]
  | nick pNick => ["NICK ", pNick, "\r\n"]
  | topic pChannel pMsgStr => ["TOPIC ", pChannel, " :", pMsgStr, "\r\n"]
  | kick pChannel pNick pMsgStr => ["KICK ", pChannel, " ", pNick, " :", pMsgStr, "\r\n"]
  | ban pChannel pMask => ["MODE ", pChannel, " +b ", pMask, "\r\n"]
  | deban pChannel pMask => ["MODE ", pChannel, " -b ", pMask, "\r\n"]
  | mode pChannel pMod pModParameter =>
    ["MODE ", pChannel, " ", pMod, " ", (optional pModParameter).getD [], "\r\n"]
  | whois pNickname => ["WHOIS ", pNickname, "\r\n"]

def line (c : LineCall) : CStr := c.pieces.flatten

variable {c : LineCall}

theorem args_there (c : LineCall) : c.buffer.args.find? (·.2.isNone) = none := by
  cases c <;> rfl

theorem nul_notMem_framed (pMsgStr : Str) : '\x00' ∉ framed pMsgStr := by
  simp [framed]

theorem nul_notMem_optional (s : Option Str) : '\x00' ∉ (optional s).getD [] := by
  cases s with
  | none => exact List.not_mem_nil
  | some s => exact s.2

theorem nul_notMem_line (c : LineCall) : '\x00' ∉ c.line := by
  cases c <;> simp [line, pieces, nul_notMem_framed, nul_notMem_optional]

theorem crlf_suffix_line (c : LineCall) : "\r\n".toList <:+ c.line := by
  have hlast : c.pieces.getLast? = some "\r\n".toList := by cases c <;> rfl
  obtain ⟨front, hfront⟩ := List.getLast?_eq_some_iff.mp hlast
  rw [line, hfront, List.flatten_append]
  exact List.suffix_append _ _

/-- `ban` or `deban`. -/
def IsBan : LineCall → Prop
  | ban .. | deban .. => True
  | _ => False

instance : DecidablePred IsBan := fun c => by
  cases c <;> unfold IsBan <;> infer_instance

/-- What the routine counts: the line and its NUL, or the line only. -/
def counted (c : LineCall) : Nat := if c.IsBan then c.line.length else c.line.length + 1

/-- The size as the routine holds it. -/
def held : LineCall → Nat → Nat
  | user .. => fun n => ofInt (toInt (sizeT n))
  | _ => sizeT

section Members

attribute [local simp] LineBuffer.user LineBuffer.privmsg LineBuffer.notice LineBuffer.join
  LineBuffer.part LineBuffer.pong LineBuffer.ping LineBuffer.invite LineBuffer.nick
  LineBuffer.topic LineBuffer.kick LineBuffer.ban LineBuffer.deban LineBuffer.mode
  LineBuffer.whois

theorem text_line (c : LineCall) : c.buffer.text = some c.line := by
  cases c <;> simp [LineBuffer.text, vsprintf, buffer, line, pieces]

/-- Each size is what its format makes of the arguments. -/
theorem size_eq (c : LineCall) : c.buffer.size = c.held c.counted := by
  cases c
  case user =>
    simp only [buffer, LineBuffer.user, held]
    congr 3
    simp [counted, IsBan, line, pieces, strlen]
    omega
  all_goals
    simp only [buffer, LineBuffer.privmsg, LineBuffer.notice, held]
    refine congrArg sizeT ?_
    simp [counted, IsBan, line, pieces, strlen, LineBuffer.measure]
    omega

end Members

/-! ### The framed text -/

theorem length_framed (pMsgStr : CStr) : (framed pMsgStr).length = strlen pMsgStr + 9 := by
  simp [framed, strlen]

theorem actionSize_eq (pMsgStr : CStr) :
    LineBuffer.actionSize pMsgStr = toInt (sizeT ((framed pMsgStr).length + 1)) := by
  rw [length_framed, LineBuffer.actionSize]
  congr 2
  simp [strlen]
  omega

/-- The bytes are put around the text as `framed` has them. -/
theorem actionText_framed {pMsgStr : CStr} (hnul : '\x00' ∉ framed pMsgStr)
    (hsize : (framed pMsgStr).length + 1 < 2 ^ 31) :
    LineBuffer.actionText (List.replicate ((framed pMsgStr).length + 1) none)
      (LineBuffer.actionSize pMsgStr) pMsgStr = some (framed pMsgStr) := by
  have hsize' : LineBuffer.actionSize pMsgStr = ((framed pMsgStr).length + 1 : Nat) := by
    rw [actionSize_eq, toInt_eq hsize]
  unfold LineBuffer.actionText
  generalize htext : ("ACTION " : CStr) ++ pMsgStr = text
  have hframed : framed pMsgStr = '\x01' :: text ++ ['\x01'] := by rw [framed, ← htext]; rfl
  have hlength : (framed pMsgStr).length = text.length + 2 := by
    rw [hframed]
    simp
  rw [hlength] at hsize hsize'
  -- the mark, the text with its NUL, the mark in place of the NUL, and a NUL behind it
  have hfirst : Block.store (List.replicate (text.length + 2 + 1) none) 0 '\x01' =
      some ([some '\x01'] ++ List.replicate (text.length + 2) none) :=
    Block.store_append [] none (List.replicate (text.length + 2) none) '\x01'
  have hprint : Block.snprintf ([some '\x01'] ++ List.replicate (text.length + 2) none) 1
      (text.length + 1) text =
      some (([some '\x01'] ++ text.map some) ++ some '\x00' :: [none]) := by
    have hwrite := Block.write_fits (s := text ++ ['\x00']) [some '\x01']
      (List.replicate (text.length + 2) none) (by simp)
    have hcount : text.length < 2 ^ 31 := by omega
    rw [Block.snprintf, if_pos hcount, Block.writeString, List.take_length]
    simpa using hwrite
  have hmark : Block.store (([some '\x01'] ++ text.map some) ++ some '\x00' :: [none])
      (text.length + 1 : Nat) '\x01' =
      some (([some '\x01'] ++ text.map some ++ [some '\x01']) ++ none :: []) := by
    have hindex : ([some '\x01'] ++ text.map some).length = text.length + 1 := by simp
    rw [← hindex, Block.store_append, List.append_assoc _ [some '\x01']]
    rfl
  have hend : Block.store (([some '\x01'] ++ text.map some ++ [some '\x01']) ++ none :: [])
      (text.length + 2 : Nat) '\x00' = some ((framed pMsgStr).map some ++ some '\x00' :: []) := by
    have hindex : ([some '\x01'] ++ text.map some ++ [some '\x01']).length = text.length + 2 := by
      simp
    rw [← hindex, Block.store_append, hframed]
    simp
  have hbefore : ((text.length + 2 + 1 : Nat) : Int) - 2 = (text.length + 1 : Nat) := by omega
  have hlast : ((text.length + 2 + 1 : Nat) : Int) - 1 = (text.length + 2 : Nat) := by omega
  have hroom : ofInt (text.length + 1 : Nat) = text.length + 1 := ofInt_natCast (by omega)
  simp only [hlength, hsize', hbefore, hlast, hroom, hfirst, hprint, hmark, hend,
    Option.bind_eq_bind, Option.bind_some]
  exact Block.string_text hnul []

/-! ### Lines that fit -/

/-- The sizes of the blocks that a call allocates, with the text each is for. -/
def blocks : LineCall → List (Nat × CStr)
  | c@(action _ pMsgStr) =>
    [(ofInt (LineBuffer.actionSize pMsgStr), framed pMsgStr), (c.buffer.size, c.line)]
  | c => [(c.buffer.size, c.line)]

/-- Every block has room for its text and the NUL; nothing is written beside a block, and the line
is sent as it is, CR and LF at its end. -/
structure Fits (c : LineCall) : Prop where
  room : ∀ block ∈ c.blocks, ∃ b, malloc block.1 = some b ∧ block.2.length < b.length
  sent : c.program = sendLine c.line
  ends : "\r\n".toList <:+ c.line

/-- A line has to be shorter than this: its length is what printing it answers, an `int`, and the
size of `user`, with the NUL, is an `int` too. -/
def limit : LineCall → Nat
  | user .. => 2 ^ 31 - 1
  | _ => 2 ^ 31

/-- Nothing is too long for an `int`: neither the line nor, with its NUL, the text of `action`. -/
def SizesHeld (c : LineCall) : Prop :=
  c.line.length < c.limit ∧
    match c with
    | action _ pMsgStr => (framed pMsgStr).length + 1 < 2 ^ 31
    | _ => True

/-- Of a routine that counts the NUL, a line fits as long as it can be counted. -/
theorem size_room (hban : ¬ c.IsBan) :
    c.buffer.size < 2 ^ 63 ∧ c.line.length < 2 ^ 31 ∧ c.line.length < c.buffer.size ↔
      c.line.length < c.limit := by
  rw [size_eq, counted, if_neg hban, and_left_comm]
  cases c
  case user =>
    refine (and_congr_right' ofInt_room).trans ?_
    change _ ↔ _ < 2 ^ 31 - 1
    omega
  all_goals
    refine (and_congr_right' sizeT_room).trans ?_
    change _ ↔ _ < 2 ^ 31
    omega

/-- The two routines have no room for the NUL. -/
theorem size_ban (hban : c.IsBan) : c.buffer.size ≤ c.line.length := by
  rw [size_eq, counted, if_pos hban]
  cases c
  case ban | deban => exact Nat.mod_le _ _
  all_goals exact hban.elim

/-- Their NUL is written beside the block. -/
theorem program_ban (hban : c.IsBan) (hsize : c.buffer.size < 2 ^ 63) : c.program = crash := by
  have hprogram : c.program = c.buffer.send := by
    cases c
    case action => exact hban.elim
    all_goals rfl
  have hprint : c.buffer.print = .sprintf := by
    cases c
    case ban | deban => rfl
    all_goals exact hban.elim
  rw [hprogram, LineBuffer.send_eq (args_there c) (text_line c) (nul_notMem_line c) hsize, hprint]
  exact if_neg fun hroom => Nat.not_lt.mpr (size_ban hban) hroom.2

theorem buffer_sent : c.buffer.send = sendLine c.line ↔
    c.buffer.size < 2 ^ 63 ∧ c.line.length < 2 ^ 31 ∧ c.line.length < c.buffer.size :=
  LineBuffer.send_eq_iff (args_there c) (text_line c) (nul_notMem_line c)

/-- A call with one block fits if its line does. -/
theorem fits_iff_of_single (hblocks : c.blocks = [(c.buffer.size, c.line)])
    (hprogram : c.program = c.buffer.send) :
    c.Fits ↔
      c.buffer.size < 2 ^ 63 ∧ c.line.length < 2 ^ 31 ∧ c.line.length < c.buffer.size := by
  constructor
  · intro h
    exact buffer_sent.mp (hprogram.symm.trans h.sent)
  · intro h
    refine ⟨fun block hblock => ?_, hprogram.trans (buffer_sent.mpr h), crlf_suffix_line c⟩
    rw [hblocks, List.mem_singleton] at hblock
    rw [hblock, malloc_room]
    exact ⟨h.1, h.2.2⟩

section Action

variable {pTarget pMsgStr : Str}

theorem text_room : ofInt (LineBuffer.actionSize pMsgStr) < 2 ^ 63 ∧
    (framed pMsgStr).length < ofInt (LineBuffer.actionSize pMsgStr) ↔
    (framed pMsgStr).length + 1 < 2 ^ 31 := by
  rw [actionSize_eq]
  exact ofInt_room

/-- With room for its text, `action` goes through `privmsg`. -/
theorem program_action (h : (framed pMsgStr).length + 1 < 2 ^ 31) :
    (action pTarget pMsgStr).program = (action pTarget pMsgStr).buffer.send := by
  have hsize : ofInt (LineBuffer.actionSize pMsgStr) = (framed pMsgStr).length + 1 := by
    rw [actionSize_eq, toInt_eq h]
    exact ofInt_natCast (by omega)
  have hmalloc : malloc (ofInt (LineBuffer.actionSize pMsgStr)) =
      some (List.replicate ((framed pMsgStr).length + 1) none) := by
    rw [hsize]
    exact malloc_eq (by omega)
  have hsend : LineBuffer.sendAction pTarget pMsgStr
      (some (List.replicate ((framed pMsgStr).length + 1) none)) =
      (LineBuffer.privmsg (some pTarget) (some (framed pMsgStr))).send := by
    rw [LineBuffer.sendAction, actionText_framed (nul_notMem_framed pMsgStr) h]
  rw [program, LineBuffer.action, hmalloc, hsend, buffer]

/-- `action` fits if its text and its line do. -/
theorem fits_action : (action pTarget pMsgStr).Fits ↔ (framed pMsgStr).length + 1 < 2 ^ 31 ∧
    (action pTarget pMsgStr).line.length < (action pTarget pMsgStr).limit := by
  have hban : ¬ (action pTarget pMsgStr).IsBan := not_false
  have hroom : (∀ block ∈ (action pTarget pMsgStr).blocks,
      ∃ b, malloc block.1 = some b ∧ block.2.length < b.length) ↔
      (framed pMsgStr).length + 1 < 2 ^ 31 ∧
        (action pTarget pMsgStr).buffer.size < 2 ^ 63 ∧
          (action pTarget pMsgStr).line.length < (action pTarget pMsgStr).buffer.size := by
    simp only [blocks, List.forall_mem_cons, List.not_mem_nil, false_imp_iff, implies_true,
      and_true, malloc_room]
    rw [text_room]
  constructor
  · intro h
    obtain ⟨htext, -⟩ := hroom.mp h.room
    have hsent := h.sent
    rw [program_action htext, buffer_sent, size_room hban] at hsent
    exact ⟨htext, hsent⟩
  · intro h
    have hline := (size_room hban).mpr h.2
    refine ⟨hroom.mpr ⟨h.1, hline.1, hline.2.2⟩, ?_, crlf_suffix_line _⟩
    rw [program_action h.1]
    exact buffer_sent.mpr hline

end Action

/-- A line fits its buffer, whatever the strings are, exactly if it is none of `ban` and `deban`
and no size is too large for its type. -/
theorem lines_fit_iff (c : LineCall) : c.Fits ↔ ¬ c.IsBan ∧ c.SizesHeld := by
  cases c
  case action =>
    rw [fits_action]
    exact ⟨fun h => ⟨not_false, h.2, h.1⟩, fun h => ⟨h.2.2, h.2.1⟩⟩
  case ban | deban =>
    rw [fits_iff_of_single rfl rfl]
    exact ⟨fun h => absurd h.2.2 (Nat.not_lt.mpr (size_ban trivial)),
      fun h => absurd trivial h.1⟩
  all_goals
    rw [fits_iff_of_single rfl rfl, size_room id]
    exact ⟨fun h => ⟨id, h, trivial⟩, fun h => h.2.1⟩

/-- A ban of anyone from a host. -/
def banHost : LineCall := ban ⟨"#c", by decide +kernel⟩ ⟨"*!*@h", by decide +kernel⟩

/-- `MODE #c +b *!*@h`, CR, LF and NUL are 19 bytes; the buffer has 18. -/
theorem ban_does_not_fit : banHost.buffer.size = 18 ∧ banHost.line.length + 1 = 19 ∧
    banHost.program = crash ∧ ¬ banHost.Fits := by
  have hsize : banHost.buffer.size = 18 := by decide +kernel
  have hprogram : banHost.program = crash := program_ban trivial (by rw [hsize]; decide)
  refine ⟨hsize, by decide +kernel, hprogram, fun h => ?_⟩
  exact crash_ne_sendLine (hprogram.symm.trans h.sent)

/-- The routine of `Irc`, which has no buffers. -/
def routine : LineCall → Quiet Unit
  | c@(user ..) => sendCommand c.buffer.format c.buffer.args
  | privmsg pTarget pMsgStr => Ebotula.privmsg (some pTarget) (some pMsgStr)
  | notice pNick pMsgStr => Ebotula.notice (some pNick) (some pMsgStr)
  | action pTarget pMsgStr => Ebotula.action (some pTarget) (some pMsgStr)
  | join pChannel => Ebotula.join (some pChannel)
  | part pChannel => Ebotula.part (some pChannel)
  | pong pPong => Ebotula.pong (some pPong)
  | ping pTarget => Ebotula.ping (some pTarget)
  | invite pChannel pNick => Ebotula.invite (optional pChannel) (some pNick)
  | nick pNick => Ebotula.nick (some pNick)
  | topic pChannel pMsgStr => Ebotula.topic (some pChannel) (some pMsgStr)
  | kick pChannel pNick pMsgStr => Ebotula.kick (some pChannel) (some pNick) (some pMsgStr)
  | ban pChannel pMask => Ebotula.ban (some pChannel) (some pMask)
  | deban pChannel pMask => Ebotula.deban (some pChannel) (some pMask)
  | mode pChannel pMod pModParameter =>
    Ebotula.mode (some pChannel) (some pMod) (optional pModParameter)
  | whois pNickname => Ebotula.whois (some pNickname)

/-- The routine without buffers sends the complete line. -/
theorem routine_eq (c : LineCall) : c.routine = sendLine c.line := by
  have hroutine : c.routine = sendCommand c.buffer.format c.buffer.args := by cases c <;> rfl
  have htext := text_line c
  rw [LineBuffer.text] at htext
  rw [hroutine, sendCommand, args_there c]
  dsimp only
  rw [htext]

/-- Where a line fits, the two are the same. -/
theorem Fits.program_eq (h : c.Fits) : c.program = c.routine := h.sent.trans (routine_eq c).symm

end LineCall

end Ebotula
