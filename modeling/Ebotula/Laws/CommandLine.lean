import Ebotula.CommandLine

/-!
# Which command lines stop the start

A command line should be refused unless all of it is options that are known, with values that
are there and in range. `OptionsUpTo` reads options off a list of arguments for as long as they
are in order, and says of what is left. The parser answers `false` where it comes to an argument
that is no option it knows; for an option without a value or with a wrong one it answers with
`errno`, which is not zero, and its caller takes that for a success.
-/

set_option autoImplicit false

namespace Ebotula

open Library

/-! ## Letters and values -/

/-- The options that take a number, with the least and the greatest one they take. -/
def numberRanges : List (Char × Int × Option Int) :=
  [('p', 1, some 65535), ('t', 1, some 25), ('a', 1, none), ('n', 1, none), ('e', 1, none),
    ('l', 0, none), ('i', 0, none), ('k', 1, none), ('c', 60, none)]

/-- The values that the options with a value take, by their letters: a host without the characters
that are not allowed, a nickname, any text, or a number in the range of the option. -/
inductive TakesValue (value : CStr) : Char → Prop
  | server : (∀ c ∈ value, c ∉ serverNotAllowChar) → TakesValue value 's'
  | botname : nickStringCheck value = true → TakesValue value 'b'
  | text {letter : Char} : letter ∈ ['u', 'g', 'r', 'd'] → TakesValue value letter
  | number {letter : Char} {lower : Int} {upper : Option Int} :
    (letter, lower, upper) ∈ numberRanges → lower ≤ (atoi value).toInt →
    (∀ u ∈ upper, (atoi value).toInt ≤ u) → TakesValue value letter

theorem intOption_check {counter : Values} {outOfRange : Int → Bool} {text value : CStr} :
    (intOption counter outOfRange text).check value = none ↔
      outOfRange (atoi value).toInt = false := by
  simp [intOption]

/-- An option of the table takes the numbers of its range. -/
theorem number_option {letter : Char} {lower : Int} {upper : Option Int}
    (h : (letter, lower, upper) ∈ numberRanges) :
    ∃ option, cmdOption letter = some (.value option) ∧ ∀ value, option.check value = none ↔
        lower ≤ (atoi value).toInt ∧ ∀ u ∈ upper, (atoi value).toInt ≤ u := by
  have hlimits : maxThreadsLimit = 25 ∧ minLogoff = 1 ∧ minAlt = 1 ∧ minPingtime = 60 :=
    ⟨rfl, rfl, rfl, rfl⟩
  simp only [numberRanges, List.mem_cons, Prod.mk.injEq, List.not_mem_nil, or_false] at h
  rcases h with ⟨rfl, rfl, rfl⟩ | ⟨rfl, rfl, rfl⟩ | ⟨rfl, rfl, rfl⟩ | ⟨rfl, rfl, rfl⟩ |
    ⟨rfl, rfl, rfl⟩ | ⟨rfl, rfl, rfl⟩ | ⟨rfl, rfl, rfl⟩ | ⟨rfl, rfl, rfl⟩ | ⟨rfl, rfl, rfl⟩
  all_goals
    refine ⟨_, rfl, fun value => ?_⟩
    simp only [intOption_check, Bool.or_eq_false_iff, decide_eq_false_iff_not,
      Option.mem_some_iff, forall_eq', Option.not_mem_none, false_implies, implies_true, and_true]
    omega

/-- Every other option with a value takes a text. -/
theorem option_letters {letter : Char} {option : ValueOption}
    (h : cmdOption letter = some (.value option)) :
    letter ∈ ['s', 'b', 'u', 'g', 'r', 'd'] ∨ letter ∈ numberRanges.map Prod.fst := by
  unfold cmdOption at h
  split at h
  all_goals first
    | cases h; done
    | exact .inl (by decide)
    | exact .inr (by decide)

/-- The switch of the parser takes these values and no others. -/
theorem takes_value_iff {letter : Char} {value : CStr} :
    (∃ option, cmdOption letter = some (.value option) ∧ option.check value = none) ↔
      TakesValue value letter := by
  constructor
  · rintro ⟨option, hoption, hcheck⟩
    rcases option_letters hoption with hletter | hletter
    · simp only [List.mem_cons, List.not_mem_nil, or_false] at hletter
      rcases hletter with rfl | rfl | hletter
      · cases hoption
        exact .server (by simpa [textOption, strpbrk] using hcheck)
      · cases hoption
        exact .botname (by simpa [textOption] using hcheck)
      · exact .text (by simpa using hletter)
    · obtain ⟨⟨_, lower, upper⟩, hrange, rfl⟩ := List.mem_map.mp hletter
      obtain ⟨option', hoption', hiff⟩ := number_option hrange
      rw [hoption, Option.some.injEq, CmdOption.value.injEq] at hoption'
      obtain ⟨hlower, hupper⟩ := (hiff value).mp (hoption' ▸ hcheck)
      exact .number hrange hlower hupper
  · intro h
    cases h with
    | server hhost => exact ⟨_, rfl, by simpa [textOption, strpbrk] using hhost⟩
    | botname hnick => exact ⟨_, rfl, by simpa [textOption] using hnick⟩
    | text hletter =>
      simp only [List.mem_cons, List.not_mem_nil, or_false] at hletter
      rcases hletter with rfl | rfl | rfl | rfl <;> exact ⟨_, rfl, rfl⟩
    | number hrange hlower hupper =>
      obtain ⟨option, hoption, hiff⟩ := number_option hrange
      exact ⟨option, hoption, (hiff value).mpr ⟨hlower, hupper⟩⟩

/-- What an argument is to the parser. -/
def optionOf : CStr → Option CmdOption
  | '-' :: letters => cmdOption (strAt ('-' :: letters) 1)
  | _ => none

/-- Options in order, each with its value if it takes one, and behind them a rest of a kind. The
values that `AppMain` has read already are subject to `ParsedInRange`. -/
inductive OptionsUpTo (ParsedInRange : CStr → CStr → Prop) (Rest : List CStr → Prop) :
    List CStr → Prop
  | rest {args : List CStr} : Rest args → OptionsUpTo ParsedInRange Rest args
  | value {arg value : CStr} {args : List CStr} {option : ValueOption} :
    optionOf arg = some (.value option) → option.check value = none →
    OptionsUpTo ParsedInRange Rest args → OptionsUpTo ParsedInRange Rest (arg :: value :: args)
  | newMaster {arg : CStr} {args : List CStr} : optionOf arg = some .newMaster →
    OptionsUpTo ParsedInRange Rest args → OptionsUpTo ParsedInRange Rest (arg :: args)
  | parsed {arg value : CStr} {args : List CStr} : optionOf arg = some .parsed →
    ParsedInRange arg value → OptionsUpTo ParsedInRange Rest args →
    OptionsUpTo ParsedInRange Rest (arg :: value :: args)

/-- `-V` takes a log level from 0 to `MAX_LOGLEVEL`. -/
def LevelInRange (arg value : CStr) : Prop :=
  strAt arg 1 = 'V' → 0 ≤ (atoi value).toInt ∧ (atoi value).toInt ≤ 7

/-- Every argument is an option that is known, with a value in range if it needs one. -/
def ValidArguments : List CStr → Prop := OptionsUpTo LevelInRange (· = [])

/-- The first argument that is no option in order is none that is known. -/
def UnknownFirst : List CStr → Prop :=
  OptionsUpTo (fun _ _ => True) fun args => ∃ arg rest, args = arg :: rest ∧ optionOf arg = none

section Loop

variable {arg : CStr} {args : List CStr} {st : CmdLineState}

theorem optionOf_some {option : CmdOption} (h : optionOf arg = some option) :
    ∃ letters, arg = '-' :: letters ∧ cmdOption (strAt ('-' :: letters) 1) = some option := by
  unfold optionOf at h
  split at h
  · exact ⟨_, rfl, h⟩
  · cases h

/-- An option with a value is in order if the value is one that its letter takes. -/
theorem validArguments_value {value : CStr} {option : ValueOption}
    (h : optionOf arg = some (.value option)) :
    ValidArguments (arg :: value :: args) ↔
      TakesValue value (strAt arg 1) ∧ ValidArguments args := by
  obtain ⟨letters, harg, hletter⟩ := optionOf_some h
  have htakes : TakesValue value (strAt arg 1) ↔ option.check value = none := by
    rw [← takes_value_iff, harg, hletter]
    simp
  rw [htakes]
  constructor
  · intro hvalid
    cases hvalid with
    | rest hnil => cases hnil
    | value hoption hcheck hrest =>
      obtain rfl := CmdOption.value.inj (Option.some.inj (h.symm.trans hoption))
      exact ⟨hcheck, hrest⟩
    | newMaster hoption => cases h.symm.trans hoption
    | parsed hoption => cases h.symm.trans hoption
  · exact fun ⟨hcheck, hrest⟩ => .value h hcheck hrest

/-- An option whose value passes is taken, and what follows is read in some other state. -/
theorem commandLineLoop_value {value : CStr} {option : ValueOption}
    (h : optionOf arg = some (.value option)) (hcheck : option.check value = none)
    (st : CmdLineState) :
    ∃ st', commandLineLoop (arg :: value :: args) st = commandLineLoop args st' := by
  obtain ⟨letters, rfl, hletter⟩ := optionOf_some h
  simp only [commandLineLoop, hletter, hcheck]
  exact ⟨_, rfl⟩

/-- The flag of `-m` takes no value. -/
theorem commandLineLoop_newMaster (h : optionOf arg = some .newMaster) (st : CmdLineState) :
    ∃ st', commandLineLoop (arg :: args) st = commandLineLoop args st' := by
  obtain ⟨letters, rfl, hletter⟩ := optionOf_some h
  cases args <;>
  · simp only [commandLineLoop, hletter]
    exact ⟨{ st.logging ⟨.debug, "Check option \"%s\"", [.str (some ('-' :: letters))]⟩ with
      newMaster := true }, rfl⟩

/-- Any value of an option that `AppMain` has read is passed over. -/
theorem commandLineLoop_parsed {value : CStr} (h : optionOf arg = some .parsed)
    (st : CmdLineState) :
    ∃ st', commandLineLoop (arg :: value :: args) st = commandLineLoop args st' := by
  obtain ⟨letters, rfl, hletter⟩ := optionOf_some h
  simp only [commandLineLoop, hletter]
  exact ⟨_, rfl⟩

/-- The parser gets through options that are in order, and goes on with what is left. -/
theorem OptionsUpTo.read {ParsedInRange : CStr → CStr → Prop} {Rest : List CStr → Prop}
    (h : OptionsUpTo ParsedInRange Rest args) (st : CmdLineState) :
    ∃ rest st', Rest rest ∧ commandLineLoop args st = commandLineLoop rest st' := by
  induction h generalizing st with
  | rest hrest => exact ⟨_, st, hrest, rfl⟩
  | value hoption hcheck _ ih =>
    obtain ⟨st', hst'⟩ := commandLineLoop_value hoption hcheck st
    rw [hst']
    exact ih st'
  | newMaster hoption _ ih =>
    obtain ⟨st', hst'⟩ := commandLineLoop_newMaster hoption st
    rw [hst']
    exact ih st'
  | parsed hoption _ _ ih =>
    obtain ⟨st', hst'⟩ := commandLineLoop_parsed hoption st
    rw [hst']
    exact ih st'

/-- The parser comes through a valid command line. -/
theorem commandLineLoop_valid (h : ValidArguments args) (st : CmdLineState) :
    (commandLineLoop args st).1 = .complete := by
  obtain ⟨rest, st', rfl, hread⟩ := OptionsUpTo.read h st
  rw [hread, commandLineLoop]

/-- It refuses an argument that it does not know. -/
theorem commandLineLoop_unknown (h : optionOf arg = none) :
    (commandLineLoop (arg :: args) st).1.value = 0 := by
  unfold optionOf at h
  split at h
  · cases args <;>
    · simp only [commandLineLoop, h]
      rfl
  · next hnot =>
    rw [commandLineLoop]
    · rfl
    · exact fun letters heq => hnot letters heq

/-- The answer is `false` exactly where the parser comes to such an argument. -/
theorem commandLineLoop_refuses :
    (commandLineLoop args st).1.value = 0 ↔ UnknownFirst args := by
  constructor
  · intro h
    fun_induction commandLineLoop args st with
    | case1 => cases h
    -- an option without its value
    | case2 => cases h
    -- an option with a value that does not pass
    | case3 st letters arg st' option hoption value rest err herr => cases err <;> cases h
    | case4 st letters arg st' option hoption value rest hcheck ih =>
      exact .value hoption hcheck (ih h)
    | case5 letters rest st arg st' hoption ih => exact .newMaster hoption (ih h)
    | case6 => cases h
    | case7 letters st arg st' hoption value rest ih => exact .parsed hoption trivial (ih h)
    | case8 letters rest st arg st' hnone => exact .rest ⟨_, _, rfl, hnone⟩
    | case9 arg rest st hnot =>
      refine .rest ⟨_, _, rfl, ?_⟩
      unfold optionOf
      split
      · exact absurd rfl (hnot _)
      · rfl
  · intro h
    obtain ⟨rest, st', ⟨arg, rest', rfl, harg⟩, hread⟩ := OptionsUpTo.read h st
    rw [hread]
    exact commandLineLoop_unknown harg

/-- So it does not refuse a valid command line. -/
theorem ValidArguments.not_unknownFirst (h : ValidArguments args) : ¬ UnknownFirst args := by
  intro hunknown
  have hvalue : (commandLineLoop args ⟨defaultSetup [] 0, false, []⟩).1.value = 0 :=
    commandLineLoop_refuses.mpr hunknown
  rw [commandLineLoop_valid h] at hvalue
  cases hvalue

end Loop

/-! ## The check in `AppMain` -/

/-- `AppMain` goes on exactly where the answer is not zero; without arguments it does not ask. -/
theorem checkArguments_ok {argv : List CStr} {st : CmdLineState} :
    (∃ st', checkArguments argv st = .ok st') ↔ (commandLineParser argv st).1.value ≠ 0 := by
  rw [checkArguments]
  split
  · dsimp only
    split
    · next hzero => exact iff_of_false nofun fun h => h hzero
    · next hvalue => exact iff_of_true ⟨_, rfl⟩ hvalue
  · next hlength =>
    have htail : argv.tail = [] := by
      rw [← List.length_eq_zero_iff, List.length_tail]
      omega
    refine iff_of_true ⟨st, rfl⟩ ?_
    rw [commandLineParser, htail, commandLineLoop]
    exact Nat.one_ne_zero

/-- The parser answers with a true value and `AppMain` goes on, both exactly for a valid command
line, if and only if it is one, or its first option that is not in order is none that is known.
Where an option without its value or with a value out of range comes first, the answer is `errno`
and the bot starts. -/
theorem commandLine_stops_iff (argv : List CStr) (st : CmdLineState) :
    (((commandLineParser argv st).1.value ≠ 0 ↔ ValidArguments argv.tail) ∧
      ((∃ st', checkArguments argv st = .ok st') ↔ ValidArguments argv.tail)) ↔
      ValidArguments argv.tail ∨ UnknownFirst argv.tail := by
  rw [checkArguments_ok, and_self, commandLineParser, ne_eq, commandLineLoop_refuses]
  by_cases hvalid : ValidArguments argv.tail
  · exact iff_of_true (iff_of_true hvalid.not_unknownFirst hvalid) (.inl hvalid)
  · rw [iff_false_right hvalid, not_not, or_iff_right hvalid]

/-- A port that is out of range is answered with `EDOM`, and the bot starts with its default. -/
theorem commandLine_takes_wrong_port :
    ¬ ((commandLineParser ["ebotula", "-p", "99999"] ⟨defaultSetup [] 5, false, []⟩).1.value ≠ 0 ↔
      ValidArguments ["-p", "99999"]) := by
  have hvalue : (commandLineParser ["ebotula", "-p", "99999"]
      ⟨defaultSetup [] 5, false, []⟩).1.value = 33 := by
    decide +kernel
  rw [hvalue]
  intro h
  obtain ⟨htakes, -⟩ := (validArguments_value rfl).mp (h.mp (by decide))
  have hport : TakesValue "99999" 'p' := htakes
  cases hport with
  | text hletter => exact absurd hletter (by decide)
  | @number _ lower upper hrange _ hupper =>
    have hrow : lower = 1 ∧ upper = some 65535 := by simpa [numberRanges] using hrange
    obtain ⟨-, rfl⟩ := hrow
    exact absurd (hupper _ rfl) (by decide +kernel)

end Ebotula
