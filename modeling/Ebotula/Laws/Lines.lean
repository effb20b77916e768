import Ebotula.Laws.Trim
import Ebotula.Parser

/-!
# The shape of a server line

A line of the server is a head and, behind the first ` :`, a text that some user has
chosen. The parser and the extractors know nothing of this: they look for ` :!`, ` :#` and
the like anywhere in the line, and for the preamble up to the first colon behind the
leading one. Here is what their searches come to on a line whose head is known: what lies
in the head is never taken for a marker, and what lies in the text never for the preamble.
-/

set_option autoImplicit false

namespace Ebotula

open Library

variable {head text pat : CStr} {c : Char}

/-- What may stand before the text of a line: nothing in it looks like a text. -/
def IsHead (head : CStr) : Prop := ¬ " :".toList <:+: head

instance (head : CStr) : Decidable (IsHead head) := inferInstanceAs (Decidable (¬ _))

/-- A line with a head and a text. -/
def lineOf (head text : CStr) : CStr := head ++ ' ' :: ':' :: text

/-- A head in which every colon follows something else than a blank. -/
theorem IsHead.cons {d e : Char} (h : IsHead (e :: head)) (hd : d ≠ ' ' ∨ e ≠ ':') :
    IsHead (d :: e :: head) := by
  intro hsub
  rcases List.infix_cons_iff.mp hsub with hprefix | hsub
  · obtain ⟨hd', hprefix⟩ := List.cons_prefix_cons.mp hprefix
    obtain ⟨he', -⟩ := List.cons_prefix_cons.mp hprefix
    exact hd.elim (fun h => h hd'.symm) fun h => h he'.symm
  · exact h hsub

/-- The text of a line cannot begin in its head. -/
theorem IsHead.not_prefix (h : IsHead head) {a b : CStr} (hab : head = a ++ b) (hb : b ≠ []) :
    ¬ ' ' :: ':' :: pat <+: b ++ ' ' :: ':' :: text := by
  intro hpat
  match b with
  | [] => exact hb rfl
  | [d] => exact absurd (List.cons_prefix_cons.mp (List.cons_prefix_cons.mp hpat).2).1 (by decide)
  | d :: e :: b =>
    obtain ⟨hd, hpat⟩ := List.cons_prefix_cons.mp hpat
    obtain ⟨he, -⟩ := List.cons_prefix_cons.mp hpat
    exact h ⟨a, b, by rw [hab, ← hd, ← he, List.append_assoc]; rfl⟩

/-- A marker is found in the text or where the text begins. -/
theorem cutString_lineOf (h : IsHead head) : cutString (' ' :: ':' :: pat) (lineOf head text) =
    (cutString (' ' :: ':' :: pat) (' ' :: ':' :: text)).map fun p => (head ++ p.1, p.2) :=
  cutString_append fun _ _ hab hb => h.not_prefix hab hb

/-! ## The preamble -/

/-- The channel of the preamble is looked for in the head only. -/
theorem getChannel_lineOf : getChannel (lineOf head text) = getChannel (head ++ [' ']) := by
  cases head with
  | nil => rfl
  | cons a head =>
    rw [getChannel, getChannel, lineOf]
    by_cases ha : a = ':'
    · subst ha
      rw [show getCommand (':' :: head ++ ' ' :: ':' :: text) =
          some (':' :: strtokBuf ':' (head ++ ' ' :: ':' :: text)) from rfl,
        strtokBuf_append_delim (by decide)]
      rfl
    · have none_of (s : CStr) : getCommand (a :: s) = none := by
        rw [getCommand]
        exact fun rest h => ha (List.cons.inj h).1
      rw [List.cons_append, List.cons_append, none_of, none_of]

/-! ## The channel of a line -/

section Channel

variable {pLine pLine' : CStr} {pParameter : Option CStr}

/-- Without a channel as its argument, the line's channel is looked for in front of the
text and then behind a colon. -/
theorem getAccessChannel_of_argument (h : getArgument pLine = (pParameter, pLine'))
    (hne : ∀ rest, pParameter ≠ some ('#' :: rest)) : getAccessChannel pLine =
      match getChannel pLine' with
      | some pChannel => (some pChannel, pLine')
      | none =>
        match cutString " :#".toList pLine' with
        | some (before, rest) =>
          (some (strtokBuf ' ' ('#' :: rest)), before ++ " :".toList ++ strtokBuf ' ' ('#' :: rest))
        | none => (none, pLine') := by
  rw [getAccessChannel, h]
  split
  · next heq => exact absurd (Prod.mk.inj heq).1 (hne _)
  · next heq =>
    obtain rfl := (Prod.mk.inj heq).2
    rfl

/-- With one, that is the line's channel if it is one. -/
theorem getAccessChannel_of_channel {rest : CStr}
    (h : getArgument pLine = (some ('#' :: rest), pLine')) : getAccessChannel pLine =
      (if channelStringCheck (strtokBuf ' ' ('#' :: rest)) then some (strtokBuf ' ' ('#' :: rest))
        else none, pLine') := by
  rw [getAccessChannel, h]
  rfl

end Channel

/-! ## Bot commands -/

section Command

variable {word arg : CStr}

/-- A line with a bot command and its argument. -/
def commandLine (head word arg : CStr) : CStr := lineOf head ('!' :: word ++ ' ' :: arg)

/-- Where the command of a line begins. -/
theorem cutMark_lineOf (h : IsHead head) (rest : CStr) :
    cutString " :!".toList (lineOf head ('!' :: rest)) = some (head, rest) := by
  rw [show " :!".toList = ' ' :: ':' :: ['!'] from rfl, cutString_lineOf h]
  exact congrArg (Option.map _) (cutString_at_start " :!".toList rest)
    |>.trans (by rw [Option.map_some, List.append_nil])

/-- The argument of a bot command is the text behind the command word, trimmed where it stands. -/
theorem getArgument_trim (h : IsHead head) (hword : ' ' ∉ word) (arg : CStr) :
    getArgument (commandLine head word arg) =
      (if trim arg = [] then none else some (trim arg), commandLine head word (trim arg)) := by
  have hcut : cutString " :!".toList (commandLine head word arg) =
      some (head, word ++ ' ' :: arg) := cutMark_lineOf h _
  simp only [getArgument, hcut, cutFirst_append arg hword, List.isEmpty_iff]
  simp only [commandLine, lineOf, List.append_assoc]
  rfl

/-- A bot command without a blank has no argument. -/
theorem getArgument_lineOf_word (h : IsHead head) (hword : ' ' ∉ word) :
    getArgument (lineOf head ('!' :: word)) = (none, lineOf head ('!' :: word)) := by
  rw [getArgument, cutMark_lineOf h]
  dsimp only
  rw [cutFirst_eq_none_iff.mpr hword]

theorem getArgument_commandLine (h : IsHead head) (hword : ' ' ∉ word) (hne : arg ≠ [])
    (htrim : IsTrimmed arg) :
    getArgument (commandLine head word arg) = (some arg, commandLine head word arg) := by
  have htrim : trim arg = arg := htrim
  rw [getArgument_trim h hword, htrim, if_neg hne]

/-- Behind the command, a text with a channel is looked for in the argument. -/
theorem cutHash_commandLine (h : IsHead head) (hword : ' ' ∉ word) :
    cutString " :#".toList (commandLine head word arg) =
      (cutString " :#".toList (' ' :: arg)).map fun p =>
        (head ++ " :!".toList ++ word ++ p.1, p.2) := by
  have hfirst : ¬ " :#".toList <+: ' ' :: (":!".toList ++ word ++ ' ' :: arg) := fun hpat =>
    absurd (List.cons_prefix_cons.mp (List.cons_prefix_cons.mp
      (List.cons_prefix_cons.mp hpat).2).2).1 (by decide)
  have hskip : ' ' ∉ ":!".toList ++ word := by simp [hword]
  calc cutString " :#".toList (commandLine head word arg)
      = (cutString " :#".toList (' ' :: (":!".toList ++ word ++ ' ' :: arg))).map
          fun p => (head ++ p.1, p.2) := cutString_lineOf h
    _ = _ := by
      rw [cutString_cons hfirst, show " :#".toList = ' ' :: ":#".toList from rfl,
        cutString_skip hskip, Option.map_map, Option.map_map]
      refine congrArg (fun f => Option.map f _) (funext fun p => ?_)
      simp

/-- What `getAccessChannel` leaves of an argument when it has found no channel in front of
the text: it ends the line behind the first word that looks like a text with a channel. -/
def argumentLeft (arg : CStr) : CStr :=
  match cutString " :#".toList (' ' :: arg) with
  | some (before, rest) => (before ++ " :".toList ++ strtokBuf ' ' ('#' :: rest)).tail
  | none => arg

/-- The line is ended behind the blank in front of the argument. -/
theorem argumentLeft_blank {before rest : CStr}
    (h : cutString " :#".toList (' ' :: arg) = some (before, rest)) :
    before ++ " :".toList ++ strtokBuf ' ' ('#' :: rest) = ' ' :: argumentLeft arg := by
  have harg := cutString_eq_some h
  rw [argumentLeft, h]
  cases before with
  | nil => rfl
  | cons c before =>
    rw [← (List.cons.inj harg).1, List.cons_append, List.cons_append]
    rfl

/-- The argument as the handler finds it. -/
def argumentSeen (head arg : CStr) : CStr :=
  if arg.head? = some '#' ∨ (getChannel (head ++ [' '])).isSome then arg else argumentLeft arg

/-- What is left is a beginning of the argument, and ends in a word. -/
theorem argumentLeft_append (hne : arg ≠ []) (htrim : IsTrimmed arg) :
    argumentLeft arg ≠ [] ∧ (argumentLeft arg).getLast? ≠ some ' ' ∧
      ∃ rest, arg = argumentLeft arg ++ rest := by
  rw [argumentLeft]
  split
  · next before rest hcut =>
    have harg := cutString_eq_some hcut
    rw [strtokBuf_of_head (by decide)]
    have hlast (z : CStr) : (z ++ '#' :: rest.takeWhile (· ≠ ' ')).getLast? ≠ some ' ' := by
      rw [List.getLast?_append]
      cases hw : (rest.takeWhile (· ≠ ' ')).getLast? with
      | none =>
        rw [List.getLast?_eq_none_iff.mp hw]
        exact nofun
      | some c =>
        rw [List.getLast?_cons, hw]
        have hc := List.mem_takeWhile_imp (List.mem_of_getLast? hw)
        simpa using hc
    have hrest : rest = rest.takeWhile (· ≠ ' ') ++ rest.dropWhile (· ≠ ' ') :=
      List.takeWhile_append_dropWhile.symm
    cases before with
    | nil =>
      refine ⟨nofun, hlast [':'], rest.dropWhile (· ≠ ' '), ?_⟩
      rw [(List.cons.inj harg).2]
      conv_lhs => rw [hrest]
      rfl
    | cons c before =>
      refine ⟨by simp, ?_, rest.dropWhile (· ≠ ' '), ?_⟩
      · have := hlast (before ++ " :".toList)
        rwa [List.cons_append, List.cons_append, List.tail_cons]
      · rw [(List.cons.inj harg).2]
        conv_lhs => rw [hrest]
        simp only [List.append_assoc, List.cons_append, List.tail_cons]
        exact List.append_assoc before " :#".toList _
  · exact ⟨hne, (isTrimmed_iff.mp htrim).2, [], (List.append_nil _).symm⟩

theorem argumentLeft_head (hne : arg ≠ []) (htrim : IsTrimmed arg) :
    (argumentLeft arg).head? = arg.head? := by
  obtain ⟨hleft, -, rest, hrest⟩ := argumentLeft_append hne htrim
  conv_rhs => rw [hrest, List.head?_append_of_ne_nil _ hleft]

/-- Where `getAccessChannel` ends a line, it does not cut a word. -/
theorem takeWhile_argumentLeft (arg : CStr) :
    (argumentLeft arg).takeWhile (· ≠ ' ') = arg.takeWhile (· ≠ ' ') := by
  rw [argumentLeft]
  split
  · next before rest hcut =>
    have harg := cutString_eq_some hcut
    rw [strtokBuf_of_head (by decide)]
    cases before with
    | nil =>
      have hline : arg = ':' :: '#' :: rest := (List.cons.inj harg).2
      have hleft : ([] ++ " :".toList ++ '#' :: rest.takeWhile (· ≠ ' ')).tail =
          ':' :: '#' :: rest.takeWhile (· ≠ ' ') := rfl
      have hblank : ' ' ∉ ':' :: '#' :: rest.takeWhile (· ≠ ' ') := fun hmem => by
        have hmem := (List.mem_cons.mp ((List.mem_cons.mp hmem).resolve_left
          (by decide))).resolve_left (by decide)
        exact absurd (List.mem_takeWhile_imp hmem) (by decide)
      rw [hleft, hline, takeWhile_ne_self hblank]
      rfl
    | cons c before =>
      have hblank (t : CStr) : (before ++ ' ' :: t).takeWhile (· ≠ ' ') =
          if ' ' ∈ before then before.takeWhile (· ≠ ' ') else before := by
        rw [takeWhile_ne_append]
        simp
      have hline : arg = before ++ ' ' :: ':' :: '#' :: rest := by
        rw [(List.cons.inj harg).2]
        exact List.append_assoc before " :#".toList rest
      have hleft : (c :: before ++ " :".toList ++ '#' :: rest.takeWhile (· ≠ ' ')).tail =
          before ++ ' ' :: ':' :: '#' :: rest.takeWhile (· ≠ ' ') :=
        List.append_assoc before " :".toList _
      rw [hleft, hline, hblank, hblank]
  · rfl

/-- The handler finds an argument like the one that was sent: trimmed, and a channel in
front of it only if there was one. -/
theorem argumentSeen_spec (head : CStr) (hne : arg ≠ []) (htrim : IsTrimmed arg) :
    argumentSeen head arg ≠ [] ∧ IsTrimmed (argumentSeen head arg) ∧
      (argumentSeen head arg).head? = arg.head? := by
  rw [argumentSeen]
  split
  · exact ⟨hne, htrim, rfl⟩
  · obtain ⟨hleft, hlast, rest, hrest⟩ := argumentLeft_append hne htrim
    exact ⟨hleft, (hrest ▸ htrim : IsTrimmed (argumentLeft arg ++ rest)).of_append hlast,
      argumentLeft_head hne htrim⟩

/-- A text that begins with a channel sign, or none that does. -/
theorem head_hash (arg : CStr) : (∃ rest, arg = '#' :: rest) ∨
    arg.head? ≠ some '#' ∧ ∀ rest, some arg ≠ some ('#' :: rest) := by
  cases arg with
  | nil => exact .inr ⟨nofun, nofun⟩
  | cons c rest =>
    by_cases hc : c = '#'
    · exact .inl ⟨rest, by rw [hc]⟩
    · exact .inr ⟨fun h => hc (Option.some.inj h),
        fun _ h => hc (List.cons.inj (Option.some.inj h)).1⟩

/-- `getAccessChannel` leaves in the line what the handler then finds. -/
theorem getAccessChannel_commandLine (h : IsHead head) (hword : ' ' ∉ word) (hne : arg ≠ [])
    (htrim : IsTrimmed arg) : (getAccessChannel (commandLine head word arg)).2 =
      commandLine head word (argumentSeen head arg) := by
  have hargument := getArgument_commandLine h hword hne htrim
  rcases head_hash arg with ⟨rest, rfl⟩ | ⟨hhead, hcons⟩
  · have hseen : argumentSeen head ('#' :: rest) = '#' :: rest := if_pos (.inl rfl)
    rw [getAccessChannel_of_channel hargument, hseen]
  · rw [getAccessChannel_of_argument hargument hcons, commandLine, getChannel_lineOf, argumentSeen]
    cases hchannel : getChannel (head ++ [' ']) with
    | some pChannel =>
      rw [if_pos (.inr rfl)]
      rfl
    | none =>
      rw [if_neg (by simp [hhead]), ← commandLine]
      dsimp only
      rw [cutHash_commandLine h hword]
      cases hword' : cutString " :#".toList (' ' :: arg) with
      | none =>
        rw [argumentLeft, hword']
        rfl
      | some split =>
        obtain ⟨before, rest⟩ := split
        simp only [Option.map_some, commandLine, lineOf]
        rw [List.append_assoc, List.append_assoc, List.append_assoc, ← List.append_assoc before,
          argumentLeft_blank hword']
        simp

/-- The parameters in an argument: all of it, or what stands behind a channel in front. -/
def parameterOf (arg : CStr) : Option CStr :=
  if arg.head? = some '#' then (cutFirst ' ' arg).map Prod.snd else some arg

theorem getParameters_commandLine (h : IsHead head) (hword : ' ' ∉ word) (hne : arg ≠ [])
    (htrim : IsTrimmed arg) :
    getParameters (commandLine head word arg) = (parameterOf arg, commandLine head word arg) := by
  rw [getParameters, getArgument_commandLine h hword hne htrim, parameterOf]
  rcases head_hash arg with ⟨rest, rfl⟩ | ⟨hhead, hcons⟩
  · rfl
  · rw [if_neg hhead]
    split
    · next heq => exact absurd (Prod.mk.inj heq).1 (hcons _)
    · next heq =>
      obtain ⟨hparameter, hline⟩ := Prod.mk.inj heq
      rw [hparameter, hline]

/-- The parameters that the handler of a bot command reads in its line. -/
theorem parameters_commandLine (h : IsHead head) (hword : ' ' ∉ word) (hne : arg ≠ [])
    (htrim : IsTrimmed arg) {userLevel : UserLevel} {bInteractiveMode : Bool} :
    (fillItem (commandLine head word arg) userLevel bInteractiveMode).parameters =
      parameterOf (argumentSeen head arg) := by
  obtain ⟨hseen, hseenTrim, -⟩ := argumentSeen_spec head hne htrim
  simp only [fillItem, MsgItem.parameters, getAccessChannel_commandLine h hword hne htrim,
    getParameters_commandLine h hword hseen hseenTrim]

end Command

/-! ## What a command can be given -/

/-- The argument of any line is there, and trimmed. -/
theorem getArgument_trimmed {pLine arg : CStr} (h : (getArgument pLine).1 = some arg) :
    arg ≠ [] ∧ IsTrimmed arg := by
  rw [getArgument] at h
  split at h
  · cases h
  · split at h
    · cases h
    · next pPos _ =>
      dsimp only at h
      split at h
      · cases h
      · next hne =>
        cases h
        exact ⟨fun hnil => hne (List.isEmpty_iff.mpr hnil), isTrimmed_trim pPos⟩

/-- So are the parameters. -/
theorem getParameters_trimmed {pLine text : CStr} (h : (getParameters pLine).1 = some text) :
    text ≠ [] ∧ IsTrimmed text := by
  rw [getParameters] at h
  split at h
  · next rest _ hargument =>
    obtain ⟨⟨word, text'⟩, hcut, heq⟩ := Option.map_eq_some_iff.mp h
    cases heq
    obtain ⟨-, htrim⟩ := getArgument_trimmed (congrArg Prod.fst hargument)
    obtain ⟨-, hsplit⟩ := cutFirst_eq_some_iff.mp hcut
    rw [hsplit] at htrim
    exact htrim.blank.2
  · next hargument => exact getArgument_trimmed ((congrArg Prod.fst hargument).trans h)

theorem MsgItem.parameters_trimmed {pMsg : MsgItem} {text : CStr}
    (h : pMsg.parameters = some text) : text ≠ [] ∧ IsTrimmed text := getParameters_trimmed h

/-! ## Senders -/

/-- The netmask of a user: a word with a user or a host in it. -/
structure IsNetmask (pNetmask : CStr) : Prop where
  no_blank : ' ' ∉ pNetmask
  marked : '!' ∈ pNetmask ∨ '@' ∈ pNetmask

/-- The head of a line that a netmask has sent. -/
def sentBy (pNetmask middle : CStr) : CStr := ':' :: pNetmask ++ ' ' :: middle

/-- Only the words behind the sender can look like a text. -/
theorem isHead_sentBy {pNetmask middle : CStr} (hp : ' ' ∉ pNetmask)
    (hm : IsHead (' ' :: middle)) : IsHead (sentBy pNetmask middle) := by
  have hskip : ' ' ∉ ':' :: pNetmask := by simp [hp]
  have hnone : cutString [' ', ':'] (' ' :: middle) = none := cutString_eq_none_iff.mpr hm
  refine cutString_eq_none_iff.mp (?_ : cutString [' ', ':'] (sentBy pNetmask middle) = none)
  rw [sentBy, cutString_skip hskip, hnone]
  rfl

theorem isHead_of_not_mem (h : ':' ∉ head) : IsHead head := fun hsub =>
  h (hsub.subset (by decide))

/-- The sender of a line is its first word. -/
theorem getNetmask_sender {pNetmask middle : CStr} (h : IsNetmask pNetmask) :
    getNetmask (sentBy pNetmask middle) = some pNetmask := by
  have hne : pNetmask ≠ [] := by
    rintro rfl
    exact h.marked.elim nofun nofun
  have hmarked : '!' ∈ ':' :: pNetmask ∨ '@' ∈ ':' :: pNetmask :=
    h.marked.imp (List.mem_cons_of_mem _) (List.mem_cons_of_mem _)
  rw [sentBy, List.cons_append, getNetmask, strtokBuf_append hne h.no_blank, if_pos hmarked]
  rfl

theorem getNetmask_sentBy {pNetmask middle : CStr} (h : IsNetmask pNetmask) :
    getNetmask (lineOf (sentBy pNetmask middle) text) = some pNetmask := by
  have hline : lineOf (sentBy pNetmask middle) text =
      sentBy pNetmask (middle ++ ' ' :: ':' :: text) := by
    simp only [lineOf, sentBy, List.cons_append, List.append_assoc]
  rw [hline, getNetmask_sender h]

end Ebotula
