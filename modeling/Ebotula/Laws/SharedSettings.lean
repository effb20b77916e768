import Ebotula.Laws.CommandLine
import Ebotula.Laws.ConfigValue

/-!
# Settings of the file and of the command line

Eleven settings can be made in the configuration file and on the command line, by two validators
that were written one without the other. The command line takes a value as it stands; the file
takes what `trim` and `clearspace` leave of it. The ranges are the same but for the values in
`OnlyInFile`, which the file accepts and the command line does not.
-/

set_option autoImplicit false

namespace Ebotula

open Library

/-- The settings that have an option, with its letter. -/
def sharedSettings : List (Char × Values) :=
  [('t', .threadlimit), ('p', .port), ('a', .autologoff), ('k', .alt), ('c', .pingtimeout),
    ('n', .fastsenddelay), ('e', .slowsenddelay), ('l', .fastsendlimit), ('i', .initdelay),
    ('b', .botname), ('s', .server)]

/-- What a file with the one line stores, if the value is accepted. -/
def fileSets (start : ConfigSetup) (counter : Values) (value : CStr) :
    Option counter.iParamType.Field :=
  match configFileParser (some (fileOf [settingLine counter value]))
      ⟨start, fun _ => false, false⟩ with
  | .ok st => if st.isFound counter then some (st.sSetup counter) else none
  | .error _ => none

/-- What the one option stores, if the value is accepted. -/
def optionSets (start : ConfigSetup) (letter : Char) (counter : Values) (value : CStr) :
    Option counter.iParamType.Field :=
  match commandLineParser ["ebotula", ['-', letter], value] ⟨start, false, []⟩ with
  | (.complete, st) => some (st.sSetup counter)
  | _ => none

/-- The values that only the file accepts. -/
def OnlyInFile : Values → CStr → Prop
  | .port, value => (atoi value).toInt = 65536
  | .alt, value | .fastsenddelay, value | .slowsenddelay, value => (atoi value).toInt = 0
  | .pingtimeout, value => 1 ≤ (atoi value).toInt ∧ (atoi value).toInt < 60
  | _, _ => False

section Values

variable {counter : Values} {letter : Char} {option : ValueOption} {start : ConfigSetup}
  {value : CStr}

/-- The file stores what is left of the value. -/
theorem fileSets_eq (hshort : start.ThreadLimitIsShort) (hnul : '\x00' ∉ value)
    (hline : IsLine (settingLine counter value)) :
    fileSets start counter value =
      if counter.checkParam (configValue value) = none then
        some (counter.iParamType.read (configValue value))
      else none := by
  rw [fileSets, configFileParser_line hline, configLine_known (entryOf_settingLine counter hnul)]
  simp only [Bool.false_eq_true, if_false]
  cases hcheck : counter.checkParam (configValue value) with
  | some err => rfl
  | none =>
    simp only [Function.update_self, if_true]
    exact congrArg some ((store_eq_read start hcheck).mpr fun _ => hshort)

/-- The option stores the value. -/
theorem optionSets_eq (hoption : cmdOption letter = some (.value option))
    (hcounter : option.counter = counter) :
    optionSets start letter counter value =
      if option.check value = none then some (counter.iParamType.read value) else none := by
  subst hcounter
  have hletter : cmdOption (strAt ['-', letter] 1) = some (.value option) := hoption
  simp only [optionSets, commandLineParser, List.tail_cons, commandLineLoop, hletter]
  cases option.check value with
  | some err => rfl
  | none =>
    simp only [CmdLineState.store, Function.update_self, if_true]
    cases option.counter.iParamType <;> rfl

end Values

/-! ## The two ranges -/

theorem keyIntChecker_eq_none {range1 : Int} {range2 : Option Int} {value : CStr} :
    keyIntChecker range1 range2 value = none ↔
      range1 ≤ (atoi value).toInt ∧ ∀ n ∈ range2, (atoi value).toInt ≤ n := by
  simp only [keyIntChecker]
  split
  · next hlow => exact iff_of_false (by rintro ⟨⟩) fun h => by omega
  · next hlow =>
    cases range2 with
    | none => exact iff_of_true rfl ⟨by omega, fun r hr => by cases hr⟩
    | some n =>
      simp only [Option.mem_def, Option.some.injEq, forall_eq']
      split
      · exact iff_of_false (by rintro ⟨⟩) fun h => by omega
      · exact iff_of_true rfl ⟨by omega, by omega⟩

/-- An option and a setting of the file that are about the same: the option is stored in the field
of the setting, its test only depends on what is stored, and the file accepts what it accepts and
some more. -/
structure Shared (letter : Char) (counter : Values) (option : ValueOption) : Prop where
  label : cmdOption letter = some (.value option)
  field : option.counter = counter
  reads : ∀ value value', counter.iParamType.read value = counter.iParamType.read value' →
    option.check value = option.check value'
  range : ∀ value, counter.checkParam value = none ↔
    option.check value = none ∨ OnlyInFile counter value

/-- The range of a number in the file. -/
def fileRange : Values → Int × Option Int
  | .threadlimit => (1, some 25)
  | .port => (1, some 65536)
  | .autologoff | .pingtimeout => (1, none)
  | _ => (0, none)

/-- A number: the two ranges are compared. -/
theorem Shared.int {letter : Char} {counter : Values} {option : ValueOption}
    {outOfRange : Int → Bool} {text : CStr}
    (hletter : cmdOption letter = some (.value option)) (hcounter : option.counter = counter)
    (hcheck : option.check = (intOption counter outOfRange text).check)
    (hfile : counter.checkParam = keyIntChecker (fileRange counter).1 (fileRange counter).2)
    (hread : ∀ value value', counter.iParamType.read value = counter.iParamType.read value' →
      atoi value = atoi value')
    (hrange : ∀ value, ((fileRange counter).1 ≤ (atoi value).toInt ∧
      ∀ n ∈ (fileRange counter).2, (atoi value).toInt ≤ n) ↔
      outOfRange (atoi value).toInt = false ∨ OnlyInFile counter value) :
    Shared letter counter option := by
  refine ⟨hletter, hcounter, fun value value' h => ?_, fun value => ?_⟩
  · rw [hcheck]
    simp only [intOption, hread value value' h]
  · rw [hfile, hcheck, keyIntChecker_eq_none, intOption_check, hrange]

/-- A text: both make the same test. -/
theorem Shared.text {letter : Char} {counter : Values} {option : ValueOption}
    (hletter : cmdOption letter = some (.value option)) (hcounter : option.counter = counter)
    (hread : ∀ value value', counter.iParamType.read value = counter.iParamType.read value' →
      value = value')
    (hsame : ∀ value, counter.checkParam value = none ↔ option.check value = none)
    (hfile : ∀ value, ¬ OnlyInFile counter value) : Shared letter counter option :=
  ⟨hletter, hcounter, fun value value' h => by rw [hread value value' h], fun value => by
    rw [hsame, or_iff_left (hfile value)]⟩

/-- Every setting on the list has its option. -/
theorem shared_of_mem {letter : Char} {counter : Values} (h : (letter, counter) ∈ sharedSettings) :
    ∃ option, Shared letter counter option := by
  simp only [sharedSettings, List.mem_cons, Prod.mk.injEq, List.not_mem_nil, or_false] at h
  rcases h with ⟨rfl, rfl⟩ | ⟨rfl, rfl⟩ | ⟨rfl, rfl⟩ | ⟨rfl, rfl⟩ | ⟨rfl, rfl⟩ | ⟨rfl, rfl⟩ |
    ⟨rfl, rfl⟩ | ⟨rfl, rfl⟩ | ⟨rfl, rfl⟩ | ⟨rfl, rfl⟩ | ⟨rfl, rfl⟩
  case inr.inl =>
    refine ⟨_, @Shared.int _ _ _ (fun n => n < 1 || n > 65535) [] rfl rfl rfl rfl
      (fun _ _ h => congrArg atoi (Option.some.inj h)) fun value => ?_⟩
    simp only [fileRange, Option.mem_def, Option.some.injEq, forall_eq', OnlyInFile,
      Bool.or_eq_false_iff, decide_eq_false_iff_not]
    omega
  case inr.inr.inr.inr.inr.inr.inr.inr.inr.inl =>
    refine ⟨_, .text rfl rfl (fun _ _ h => Option.some.inj h) (fun value => ?_) fun _ => id⟩
    show keyNickChecker value = none ↔
      (if !nickStringCheck value then some Errno.einval else none) = none
    rw [keyNickChecker]
    cases nickStringCheck value <;> simp
  case inr.inr.inr.inr.inr.inr.inr.inr.inr.inr =>
    exact ⟨_, .text rfl rfl (fun _ _ h => Option.some.inj h) (fun value => Iff.rfl) fun _ => id⟩
  all_goals
    refine ⟨_, .int rfl rfl rfl rfl (fun _ _ h => h) fun value => ?_⟩
    simp only [fileRange, Option.mem_def, Option.some.injEq, forall_eq', OnlyInFile,
      Bool.or_eq_false_iff, decide_eq_false_iff_not, reduceCtorEq, false_implies, implies_true,
      and_true, or_false]
    try simp only [minLogoff, minAlt, minPingtime, maxThreadsLimit]
    omega

/-! ## Where they agree -/

/-- The option takes the value, and what is left of it in the file stands for the same; or it
does not, and what is left does not either and is no value that only the file takes. -/
def TakenAlike (counter : Values) (option : ValueOption) (value : CStr) : Prop :=
  (option.check value = none ∧
    counter.iParamType.read (configValue value) = counter.iParamType.read value) ∨
  (option.check value ≠ none ∧ option.check (configValue value) ≠ none ∧
    ¬ OnlyInFile counter (configValue value))

/-- Without white space and quotes a value is in the file what it is on the command line. -/
theorem configValue_plain {value : CStr} (h : ∀ c ∈ value, IsPlain c ∧ c ≠ '"') :
    configValue value = value := by
  have htrim : trim value = value := by
    cases value with
    | nil => rfl
    | cons c value => exact IsWord.trimmed ⟨List.cons_ne_nil c value, fun x hx => (h x hx).1⟩
  rw [configValue, htrim]
  have happend := @clearspace_append value [] (fun hc => (h _ hc).2 rfl) fun hc => (h _ hc).1.1 rfl
  rwa [List.append_nil, show clearspace [] = [] from rfl, List.append_nil] at happend

/-- Such a value is taken alike unless it is one of those that only the file takes. -/
theorem takenAlike_plain {counter : Values} {option : ValueOption} {value : CStr}
    (h : ∀ c ∈ value, IsPlain c ∧ c ≠ '"') :
    TakenAlike counter option value ↔ option.check value = none ∨ ¬ OnlyInFile counter value := by
  rw [TakenAlike, configValue_plain h]
  tauto

/-- A setting is made alike by the file and by the command line exactly for these values. -/
theorem settings_agree_iff {letter : Char} {counter : Values} {option : ValueOption}
    (hshared : (letter, counter) ∈ sharedSettings)
    (hoption : cmdOption letter = some (.value option))
    (pDatabasePath : CStr) (nLogLevel : BitVec 32) {value : CStr} (hnul : '\x00' ∉ value)
    (hline : IsLine (settingLine counter value)) :
    fileSets (defaultSetup pDatabasePath nLogLevel) counter value =
      optionSets (defaultSetup pDatabasePath nLogLevel) letter counter value ↔
      TakenAlike counter option value := by
  obtain ⟨option', shared⟩ := shared_of_mem hshared
  obtain rfl : option = option' := by
    have := hoption.symm.trans shared.label
    simpa only [Option.some.injEq, CmdOption.value.injEq] using this
  have hshort : (defaultSetup pDatabasePath nLogLevel).ThreadLimitIsShort := by
    show (3 : Nat) < 2 ^ 16
    decide
  rw [fileSets_eq hshort hnul hline, optionSets_eq shared.label shared.field, TakenAlike]
  have hrange := shared.range (configValue value)
  by_cases hcheck : option.check value = none
  · rw [if_pos hcheck, and_iff_right hcheck, or_iff_left fun h => h.1 hcheck]
    by_cases hfile : counter.checkParam (configValue value) = none
    · rw [if_pos hfile, Option.some.injEq]
    · rw [if_neg hfile]
      refine iff_of_false nofun fun hread => hfile (hrange.mpr (.inl ?_))
      rw [shared.reads _ _ hread, hcheck]
  · rw [if_neg hcheck, or_iff_right fun h => hcheck h.1, and_iff_right hcheck, ← not_or, ← hrange]
    by_cases hfile : counter.checkParam (configValue value) = none
    · rw [if_pos hfile]
      exact iff_of_false nofun fun h => h hfile
    · rw [if_neg hfile]
      exact iff_of_true rfl hfile

/-- A ping timeout that the file takes and the command line refuses. -/
theorem settings_disagree_pingtimeout :
    ¬ ∀ (letter : Char) (counter : Values), (letter, counter) ∈ sharedSettings →
      ∀ value : CStr, '\x00' ∉ value → IsLine (settingLine counter value) →
      fileSets (defaultSetup "/db" 5) counter value =
        optionSets (defaultSetup "/db" 5) letter counter value := by
  intro claim
  have hsame := claim 'c' .pingtimeout (by decide) "30" (by decide) (by decide)
  have hfile : (fileSets (defaultSetup "/db" 5) .pingtimeout "30").isSome = true := by
    decide +kernel
  have hoption : (optionSets (defaultSetup "/db" 5) 'c' .pingtimeout "30").isSome = false := by
    decide +kernel
  rw [hsame, hoption] at hfile
  cases hfile

/-- A port that both take, and the same. -/
theorem settings_agree_port :
    fileSets (defaultSetup "/db" 5) .port "6697" =
      optionSets (defaultSetup "/db" 5) 'p' .port "6697" := by
  have hshared : ('p', Values.port) ∈ sharedSettings := by decide
  refine (settings_agree_iff hshared rfl "/db" 5 (by decide) (by decide)).mpr ?_
  rw [takenAlike_plain (forall_of_all (by decide))]
  exact .inl (by decide +kernel)

end Ebotula
