import Ebotula.ConfigParser

/-!
# What a configuration file sets

A line of the file is a comment, or sets a key, or is none of both. `entryOf` says which, and
everything the parser does with a line is a matter of its entry and of the settings in front of
it: the value it stores, whether it stops at a value that is not accepted, and whether it loses
its way. The last happens at a line without a key, and at an unknown key that follows on a
known one set for the first time.
-/

set_option autoImplicit false

namespace Ebotula

open Library

/-! ## Entries -/

/-- What a line is to the parser. -/
inductive ConfigEntry
  | ignored
  | malformed
  | unknown
  | known (counter : Values) (value : CStr)
  deriving DecidableEq

/-- A comment and a blank line are ignored; a line without `=` or with nothing in front of it
is malformed; the others set a key that is in the table or not. -/
def entryOf (line : CStr) : ConfigEntry :=
  let buffer := clearspace (trim (cString line))
  if buffer.head? = some commentChar ∨ buffer = [] then .ignored
  else
    match cutFirst '=' buffer with
    | none | some ([], _) => .malformed
    | some (key, value) =>
      match Values.all.find? fun counter => counter.sParamName = key with
      | some counter => .known counter value
      | none => .unknown

section Line

variable {st : ConfigState} {line value : CStr} {counter : Values}

/-- What the parser does with a line of each kind. A malformed one is the end of the run, and no
regular one; what it does with a key that is not in the table depends on its flag; and a key of the
table is set if it has not been found before. -/
theorem configLine_spec (st : ConfigState) (line : CStr) :
    match entryOf line with
    | .ignored => configLine st line = .ok st
    | .malformed => ∃ stop, (∀ err, stop ≠ .exit err) ∧ configLine st line = .error stop
    | .unknown => configLine st line = if st.elem then .error .indexRange else .ok st
    | .known counter value => configLine st line =
      if st.isFound counter then .ok { st with elem := false }
      else
        match counter.checkParam value with
        | some err => .error (.exit err)
        | none => .ok {
            sSetup := Function.update st.sSetup counter
              (counter.iParamType.store (st.sSetup counter) value)
            isFound := Function.update st.isFound counter true
            elem := true } := by
  unfold entryOf configLine
  dsimp only
  generalize clearspace (trim (cString line)) = buffer
  by_cases hline : buffer.head? = some commentChar ∨ buffer = []
  · rw [if_pos hline, if_pos hline]
  · rw [if_neg hline, if_neg hline]
    cases cutFirst '=' buffer with
    | none => exact ⟨.nullPointer, nofun, rfl⟩
    | some cut =>
      obtain ⟨key, value⟩ := cut
      cases key with
      | nil => exact ⟨.overrun, nofun, rfl⟩
      | cons c key =>
        dsimp only
        cases Values.all.find? fun counter => counter.sParamName = c :: key with
        | some counter =>
          dsimp only
          by_cases hfound : st.isFound counter = true
          · simp only [hfound, Bool.not_true, Bool.not_false, if_true]
          · have hnew : (!st.isFound counter) = true := congrArg not (Bool.not_eq_true _ ▸ hfound)
            have hknown : ¬ (!(!st.isFound counter)) = true := by
              rw [hnew]
              decide
            rw [if_neg hknown, if_neg hfound]
            cases counter.checkParam value with
            | none =>
              dsimp only
              rw [hnew]
            | some err => rfl
        | none =>
          dsimp only
          cases helem : st.elem with
          | true => rfl
          | false =>
            simp only [Bool.not_false, if_true, Bool.false_eq_true, if_false]
            rw [← helem]

theorem configLine_ignored (h : entryOf line = .ignored) : configLine st line = .ok st := by
  simpa only [h] using configLine_spec st line

theorem configLine_malformed (st : ConfigState) (h : entryOf line = .malformed) :
    ∃ stop, (∀ err, stop ≠ .exit err) ∧ configLine st line = .error stop := by
  simpa only [h] using configLine_spec st line

theorem configLine_unknown (h : entryOf line = .unknown) :
    configLine st line = if st.elem then .error .indexRange else .ok st := by
  simpa only [h] using configLine_spec st line

theorem configLine_known (h : entryOf line = .known counter value) :
    configLine st line =
      if st.isFound counter then .ok { st with elem := false }
      else
        match counter.checkParam value with
        | some err => .error (.exit err)
        | none => .ok {
            sSetup := Function.update st.sSetup counter
              (counter.iParamType.store (st.sSetup counter) value)
            isFound := Function.update st.isFound counter true
            elem := true } := by
  simpa only [h] using configLine_spec st line

end Line

/-! ## Settings -/

/-- The setting that a line makes. -/
def ConfigEntry.setting : ConfigEntry → Option (Values × CStr)
  | known counter value => some (counter, value)
  | _ => none

/-- The settings that a list of lines makes, in order. The first one of a key counts. -/
def settings (lines : List CStr) : List (Values × CStr) :=
  lines.filterMap fun line => (entryOf line).setting

/-- The last setting is the first one of its key. -/
def LastIsNew (made : List (Values × CStr)) : Prop :=
  ∃ before p, made = before ++ [p] ∧ before.lookup p.1 = none

/-- The value of every key that counts is accepted. -/
def Accepted (made : List (Values × CStr)) : Prop :=
  ∀ counter value, made.lookup counter = some value → counter.checkParam value = none

section History

variable {made made' : List (Values × CStr)} {counter c : Values} {value : CStr}
  {lines lines' : List CStr} {line : CStr}

theorem settings_append : settings (lines ++ lines') = settings lines ++ settings lines' :=
  List.filterMap_append

theorem settings_line (h : entryOf line = .known counter value) :
    settings [line] = [(counter, value)] := by
  rw [settings, List.filterMap_cons, h]
  rfl

theorem settings_other (h : (entryOf line).setting = none) : settings [line] = [] := by
  rw [settings, List.filterMap_cons, h]
  rfl

theorem lookup_last : (made ++ [(counter, value)]).lookup c =
    (made.lookup c).or (if c = counter then some value else none) := by
  rw [List.lookup_append, List.lookup_cons, List.lookup_nil]
  by_cases h : c = counter
  · simp only [h, beq_self_eq_true, if_true]
  · simp only [h, beq_eq_false_iff_ne.mpr h, if_false]

theorem lastIsNew_append : LastIsNew (made ++ [(counter, value)]) ↔ made.lookup counter = none := by
  constructor
  · rintro ⟨before, p, heq, hnone⟩
    obtain ⟨rfl, hp⟩ := List.append_inj' heq rfl
    obtain rfl := List.singleton_inj.mp hp
    exact hnone
  · intro h
    exact ⟨made, (counter, value), rfl, h⟩

theorem not_lastIsNew_nil : ¬ LastIsNew [] := by
  rintro ⟨before, p, heq, -⟩
  exact List.append_ne_nil_of_right_ne_nil before (List.cons_ne_nil p []) heq.symm

/-- What counts at the beginning counts in the whole. -/
theorem Accepted.of_append (h : Accepted (made ++ made')) : Accepted made := by
  intro counter value hlookup
  refine h counter value ?_
  rw [List.lookup_append, hlookup, Option.some_or]

theorem Accepted.append_known (h : Accepted made)
    (hvalue : made.lookup counter = none → counter.checkParam value = none) :
    Accepted (made ++ [(counter, value)]) := by
  intro c v hlookup
  rw [lookup_last] at hlookup
  cases hc : made.lookup c with
  | some v' =>
    rw [hc] at hlookup
    cases hlookup
    exact h c v hc
  | none =>
    rw [hc, Option.none_or] at hlookup
    split at hlookup
    · next heq =>
      subst heq
      cases hlookup
      exact hvalue hc
    · cases hlookup

end History

/-! ## What the parser knows of the lines behind it -/

/-- The state of the parser after it has read these settings. -/
structure ConfigState.After (start : ConfigSetup) (made : List (Values × CStr))
    (st : ConfigState) : Prop where
  found : ∀ c, st.isFound c = (made.lookup c).isSome
  setup : ∀ c, st.sSetup c =
    match made.lookup c with
    | some value => c.iParamType.store (start c) value
    | none => start c
  elem : st.elem = true ↔ LastIsNew made

/-- The parser makes something of the next line: it has a key, and one that is not in the
table does not follow on a new setting. -/
def Sound (made : List (Values × CStr)) (line : CStr) : Prop :=
  entryOf line ≠ .malformed ∧ (entryOf line = .unknown → ¬ LastIsNew made)

/-- What one line does to a parser that has read some settings. -/
inductive ReadLine (start : ConfigSetup) (made : List (Values × CStr)) (line : CStr) :
    Except ConfigStop ConfigState → Prop
  | goesOn {st : ConfigState} : Sound made line → Accepted (made ++ settings [line]) →
      st.After start (made ++ settings [line]) → ReadLine start made line (.ok st)
  | exits {err : Errno} : Sound made line → ¬ Accepted (made ++ settings [line]) →
      ReadLine start made line (.error (.exit err))
  | fails {stop : ConfigStop} : (∀ err, stop ≠ .exit err) → ¬ Sound made line →
      ReadLine start made line (.error stop)

theorem ConfigState.After.read {start : ConfigSetup} {made : List (Values × CStr)}
    {st : ConfigState} (h : st.After start made) (accepted : Accepted made) (line : CStr) :
    ReadLine start made line (configLine st line) := by
  cases hentry : entryOf line with
  | ignored =>
    have hmade : made ++ settings [line] = made := by
      rw [settings_other (by rw [hentry]; rfl), List.append_nil]
    rw [configLine_ignored hentry]
    refine .goesOn ⟨by rw [hentry]; nofun, by rw [hentry]; nofun⟩ ?_ ?_ <;> rwa [hmade]
  | malformed =>
    obtain ⟨stop, hstop, hrun⟩ := configLine_malformed st hentry
    rw [hrun]
    exact .fails hstop fun hsound => hsound.1 hentry
  | unknown =>
    have hmade : made ++ settings [line] = made := by
      rw [settings_other (by rw [hentry]; rfl), List.append_nil]
    rw [configLine_unknown hentry]
    by_cases helem : st.elem = true
    · rw [if_pos helem]
      exact .fails nofun fun hsound => hsound.2 hentry (h.elem.mp helem)
    · rw [if_neg helem]
      refine .goesOn ⟨by rw [hentry]; nofun, fun _ => mt h.elem.mpr helem⟩ ?_ ?_ <;> rwa [hmade]
  | known counter value =>
    have hmade := settings_line hentry
    have hsound : Sound made line := ⟨by rw [hentry]; nofun, by rw [hentry]; nofun⟩
    rw [configLine_known hentry]
    by_cases hfound : st.isFound counter = true
    · -- the key was set before, and the first value counts
      rw [if_pos hfound]
      rw [h.found] at hfound
      have hlookup (c : Values) : (made ++ [(counter, value)]).lookup c = made.lookup c := by
        rw [lookup_last]
        split
        · next heq =>
          subst heq
          rw [Option.or_of_isSome hfound]
        · rw [Option.or_none]
      have hold : made.lookup counter ≠ none := Option.isSome_iff_ne_none.mp hfound
      refine .goesOn hsound ?_ ?_ <;> rw [hmade]
      · exact accepted.append_known fun hnone => absurd hnone hold
      · exact ⟨fun c => by rw [hlookup]; exact h.found c, fun c => by rw [hlookup]; exact h.setup c,
          by rw [lastIsNew_append]; exact iff_of_false nofun hold⟩
    · rw [if_neg hfound]
      rw [h.found, Option.not_isSome_iff_eq_none] at hfound
      cases hcheck : counter.checkParam value with
      | some err =>
        refine .exits hsound fun haccepted => ?_
        have hnone := haccepted counter value (by rw [hmade, lookup_last, hfound]; simp)
        rw [hcheck] at hnone
        cases hnone
      | none =>
        refine .goesOn hsound ?_ ?_ <;> rw [hmade]
        · exact accepted.append_known fun _ => hcheck
        · refine ⟨fun c => ?_, fun c => ?_, by rw [lastIsNew_append]; exact iff_of_true rfl hfound⟩
          · dsimp only
            rw [lookup_last, Function.update_apply]
            split
            · next heq => rw [heq, hfound]; rfl
            · rw [Option.or_none, h.found]
          · dsimp only
            rw [lookup_last]
            by_cases heq : c = counter
            · subst heq
              rw [Function.update_self, hfound, h.setup c, hfound]
              simp
            · rw [Function.update_of_ne heq, if_neg heq, Option.or_none]
              exact h.setup c

/-! ## Runs over lines -/

/-- The lines leave the parser its way: it makes something of each one that it comes to. -/
def WellBehaved (made : List (Values × CStr)) (lines : List CStr) : Prop :=
  ∀ before line behind, lines = before ++ line :: behind →
    Accepted (made ++ settings before) → Sound (made ++ settings before) line

section Runs

variable {start : ConfigSetup} {made : List (Values × CStr)} {st : ConfigState} {line : CStr}
  {lines : List CStr}

/-- Lines that the parser does not come to do not matter. -/
theorem WellBehaved.of_not_accepted (h : ¬ Accepted made) : WellBehaved made lines :=
  fun _ _ _ _ haccepted => absurd haccepted.of_append h

theorem wellBehaved_cons (h : Accepted made) (line : CStr) (lines : List CStr) :
    WellBehaved made (line :: lines) ↔
      Sound made line ∧ WellBehaved (made ++ settings [line]) lines := by
  have hsplit (before : List CStr) :
      made ++ settings (line :: before) = made ++ settings [line] ++ settings before := by
    rw [List.append_assoc, ← settings_append, List.singleton_append]
  constructor
  · intro hall
    constructor
    · have hfirst := hall [] line lines rfl
      rw [show settings [] = [] from rfl, List.append_nil] at hfirst
      exact hfirst h
    · rintro before next behind rfl
      rw [← hsplit]
      exact hall (line :: before) next behind rfl
  · rintro ⟨hfirst, hrest⟩ before next behind heq
    cases before with
    | nil =>
      obtain ⟨rfl, -⟩ := List.cons.inj heq
      rw [show settings [] = [] from rfl, List.append_nil]
      exact fun _ => hfirst
    | cons first before =>
      obtain ⟨rfl, hlines⟩ := List.cons.inj heq
      rw [hsplit]
      exact hrest before next behind hlines

/-- What a list of lines does to a parser that has read some settings. -/
inductive ReadLines (start : ConfigSetup) (made : List (Values × CStr)) (lines : List CStr) :
    Except ConfigStop ConfigState → Prop
  | returns {st : ConfigState} : WellBehaved made lines → Accepted (made ++ settings lines) →
      st.After start (made ++ settings lines) → ReadLines start made lines (.ok st)
  | exits {err : Errno} : WellBehaved made lines → ¬ Accepted (made ++ settings lines) →
      ReadLines start made lines (.error (.exit err))
  | fails {stop : ConfigStop} : (∀ err, stop ≠ .exit err) → ¬ WellBehaved made lines →
      ReadLines start made lines (.error stop)

theorem ConfigState.After.readLines (h : st.After start made) (accepted : Accepted made)
    (lines : List CStr) : ReadLines start made lines (lines.foldlM configLine st) := by
  induction lines generalizing made st with
  | nil =>
    have hmade : made ++ settings [] = made := List.append_nil made
    refine .returns (fun before line behind heq => ?_) (by rwa [hmade]) (by rwa [hmade])
    exact absurd heq.symm (List.append_ne_nil_of_right_ne_nil before (List.cons_ne_nil _ _))
  | cons line lines ih =>
    have hsplit : made ++ settings (line :: lines) = made ++ settings [line] ++ settings lines := by
      rw [List.append_assoc, ← settings_append, List.singleton_append]
    have hread := h.read accepted line
    rw [List.foldlM_cons]
    cases hline : configLine st line with
    | ok st₁ =>
      rw [hline] at hread
      obtain ⟨hsound, haccepted, hafter⟩ := hread
      have hcons := wellBehaved_cons accepted line lines
      show ReadLines start made (line :: lines) (lines.foldlM configLine st₁)
      have hrest := ih hafter haccepted
      cases hrun : lines.foldlM configLine st₁ with
      | ok st₂ =>
        rw [hrun] at hrest
        obtain ⟨hwell, hall, hafter₂⟩ := hrest
        exact .returns (hcons.mpr ⟨hsound, hwell⟩) (by rwa [hsplit]) (by rwa [hsplit])
      | error stop =>
        rw [hrun] at hrest
        cases hrest with
        | exits hwell hnot => exact .exits (hcons.mpr ⟨hsound, hwell⟩) (by rwa [hsplit])
        | fails hstop hnot => exact .fails hstop fun hall => hnot (hcons.mp hall).2
    | error stop =>
      rw [hline] at hread
      show ReadLines start made (line :: lines) (.error stop)
      cases hread with
      | exits hsound hnot =>
        refine .exits ((wellBehaved_cons accepted _ _).mpr ⟨hsound, .of_not_accepted hnot⟩) ?_
        rw [hsplit]
        exact fun hall => hnot hall.of_append
      | fails hstop hnot =>
        exact .fails hstop fun hall => hnot ((wellBehaved_cons accepted _ _).mp hall).1

end Runs

/-! ## The lines of a file -/

/-- A file with these lines. -/
def fileOf (lines : List CStr) : CStr := lines.flatMap (· ++ ['\n'])

/-- A line of text that `fgets` does not cut: no end of line in it, and shorter than the
buffer. -/
def IsLine (line : CStr) : Prop := '\n' ∉ line ∧ line.length < maxReadBufferSize

instance (line : CStr) : Decidable (IsLine line) := inferInstanceAs (Decidable (_ ∧ _))

section File

variable {st : ConfigState} {line rest : CStr} {size : Nat}

/-- `fgets` stops behind the end of the line. -/
theorem fgets_line (h : '\n' ∉ line) (hsize : line.length + 1 < size) :
    fgets size (line ++ '\n' :: rest) = some (line ++ ['\n'], rest) := by
  have hne : line ++ '\n' :: rest ≠ [] :=
    List.append_ne_nil_of_right_ne_nil _ (List.cons_ne_nil _ _)
  obtain ⟨n, hn⟩ : ∃ n, size - 1 = (line ++ ['\n']).length + n := by
    refine ⟨size - 1 - (line.length + 1), ?_⟩
    rw [List.length_append, List.length_singleton]
    omega
  have hsplit : line ++ '\n' :: rest = (line ++ ['\n']) ++ rest := by simp
  have htake : (line ++ '\n' :: rest).take (size - 1) = line ++ '\n' :: rest.take n := by
    rw [hsplit, hn, List.take_length_add_append]
    simp
  have hdrop : (line ++ '\n' :: rest).drop (line.length + 1) = rest := by
    rw [hsplit, List.drop_left' (by simp)]
  simp only [fgets, if_neg hne, htake, cutFirst_append _ h, hdrop]

/-- It stops earlier where the buffer is full. -/
theorem fgets_full (h : '\n' ∉ line) (hne : line ≠ []) (hsize : line.length = size - 1) :
    fgets size (line ++ rest) = some (line, rest) := by
  have hne' : line ++ rest ≠ [] := List.append_ne_nil_of_left_ne_nil hne rest
  have htake : (line ++ rest).take (size - 1) = line := List.take_left' hsize
  have hdrop : (line ++ rest).drop (size - 1) = rest := List.drop_left' hsize
  simp only [fgets, if_neg hne', htake, cutFirst_eq_none_iff.mpr h, hdrop]

/-- The end of a line is trimmed away. -/
theorem configLine_newline : configLine st (line ++ ['\n']) = configLine st line := by
  have htrim : trim (cString (line ++ ['\n'])) = trim (cString line) := by
    rw [cString, cString, takeWhile_ne_append]
    split
    · rfl
    · next hno =>
      have hline : line.takeWhile (· ≠ '\x00') = line := List.takeWhile_eq_self_iff.mpr
        fun a ha => decide_eq_true fun e : a = '\x00' => hno (e ▸ ha)
      rw [hline, show ['\n'].takeWhile (· ≠ '\x00') = ['\n'] from rfl, trim, trim,
        List.foldl_append]
      rfl
  unfold configLine
  rw [htrim]

theorem configLine_blank : configLine st ['\n'] = .ok st := configLine_ignored (by decide +kernel)

/-- The loop goes over the lines of the file. -/
theorem configLoop_lines {lines : List CStr} (h : ∀ line ∈ lines, IsLine line) (fuel : Nat)
    (hfuel : (fileOf lines).length ≤ fuel) :
    configLoop fuel (fileOf lines) st = lines.foldlM configLine st := by
  induction lines generalizing st fuel with
  | nil => cases fuel <;> rfl
  | cons line lines ih =>
    obtain ⟨hline, hlength⟩ := h line List.mem_cons_self
    have hfile : fileOf (line :: lines) = line ++ '\n' :: fileOf lines := by
      simp [fileOf]
    have hrest (st₁ : ConfigState) (fuel : Nat) (hfuel : (fileOf lines).length ≤ fuel) :=
      @ih st₁ (fun l hl => h l (List.mem_cons_of_mem _ hl)) fuel hfuel
    rw [hfile, List.length_append, List.length_cons] at hfuel
    obtain ⟨fuel, rfl⟩ : ∃ n, fuel = n + 1 := ⟨fuel - 1, by omega⟩
    rw [hfile, List.foldlM_cons]
    by_cases hfull : line.length + 1 < maxReadBufferSize
    · rw [configLoop, fgets_line hline hfull]
      dsimp only
      rw [configLine_newline]
      exact congrArg (configLine st line >>= ·) (funext fun st₁ => hrest st₁ fuel (by omega))
    · -- the end of the line is left for the next turn
      have hsize : line.length = maxReadBufferSize - 1 := by omega
      have hne : line ≠ [] := by
        rintro rfl
        cases hsize
      have hpos : 0 < line.length := List.length_pos_iff.mpr hne
      rw [configLoop, fgets_full hline hne hsize]
      refine congrArg (configLine st line >>= ·) (funext fun st₁ => ?_)
      obtain ⟨fuel, rfl⟩ : ∃ n, fuel = n + 1 := ⟨fuel - 1, by omega⟩
      have hend : fgets maxReadBufferSize ('\n' :: fileOf lines) = some (['\n'], fileOf lines) :=
        @fgets_line [] _ _ List.not_mem_nil (by decide)
      rw [configLoop, hend]
      dsimp only
      rw [configLine_blank]
      exact hrest st₁ fuel (by omega)

end File

/-! ## What the file says -/

/-- The value that a text stands for in a field. -/
def ParamType.read : (type : ParamType) → CStr → type.Field
  | .paramShort, value | .paramInt, value => atoi value
  | .paramString, value => some value

/-- The thread limit fits into the half of its field that the parser writes. -/
def ConfigSetup.ThreadLimitIsShort (setup : ConfigSetup) : Prop :=
  BitVec.toNat (setup .threadlimit : BitVec 32) < 2 ^ 16

/-- An accepted thread limit is a small number. -/
theorem threadlimit_small {value : CStr} (h : Values.threadlimit.checkParam value = none) :
    (atoi value).toNat ≤ 25 := by
  have hrange : 1 ≤ (atoi value).toInt ∧ (atoi value).toInt ≤ 25 := by
    simp only [Values.checkParam, keyIntChecker] at h
    split at h
    · cases h
    · split at h
      · cases h
      · omega
  have hlt := (atoi value).isLt
  rw [BitVec.toInt_eq_toNat_cond] at hrange
  split at hrange <;> omega

/-- What is stored for an accepted value is what the text stands for, if the field of the
thread limit has nothing in its other half. -/
theorem store_eq_read {counter : Values} {value : CStr} (setup : ConfigSetup)
    (h : counter.checkParam value = none) :
    counter.iParamType.store (setup counter) value = counter.iParamType.read value ↔
      (counter = .threadlimit → setup.ThreadLimitIsShort) := by
  cases counter
  case threadlimit =>
    have hsmall := threadlimit_small h
    have hlt := BitVec.isLt (setup .threadlimit : BitVec 32)
    refine Iff.trans (b := setup.ThreadLimitIsShort) ?_ ⟨fun h _ => h, fun h => h rfl⟩
    rw [ConfigSetup.ThreadLimitIsShort]
    show BitVec.ofNat 32 (BitVec.toNat (setup .threadlimit : BitVec 32) / 2 ^ 16 * 2 ^ 16 +
      (atoi value).toNat % 2 ^ 16) = atoi value ↔ _
    rw [← BitVec.toNat_inj, BitVec.toNat_ofNat]
    omega
  all_goals exact iff_of_true rfl nofun

/-- What a configuration file is read for: the parser never leaves the table or follows a
NULL pointer, and if it returns, every key has its first value and every other field is what
it was. -/
def ReadsConfig (start : ConfigSetup) (lines : List CStr) :
    Except ConfigStop ConfigState → Prop
  | .error (.exit _) => True
  | .error _ => False
  | .ok st => ∀ counter, st.sSetup counter =
      match (settings lines).lookup counter with
      | some value => counter.iParamType.read value
      | none => start counter

/-- The file is read as it should be exactly when its lines do not lead the parser astray and,
if they are all accepted and one sets the thread limit, its field has room for a short only. -/
theorem config_file_semantics (start : ConfigState) (fresh : ∀ c, start.isFound c = false)
    (lines : List CStr) (hlines : ∀ line ∈ lines, IsLine line) :
    ReadsConfig start.sSetup lines (configFileParser (some (fileOf lines)) start) ↔
      WellBehaved [] lines ∧ (Accepted (settings lines) →
        ((settings lines).lookup .threadlimit).isSome → start.sSetup.ThreadLimitIsShort) := by
  have hstart : ConfigState.After start.sSetup [] { start with elem := false } :=
    ⟨fresh, fun _ => rfl, iff_of_false nofun not_lastIsNew_nil⟩
  have hrun := hstart.readLines nofun lines
  rw [configFileParser, configLoop_lines hlines _ (Nat.le_refl _)]
  cases hr : lines.foldlM configLine { start with elem := false } with
  | ok st =>
    rw [hr] at hrun
    obtain ⟨hwell, haccepted, hafter⟩ := hrun
    rw [List.nil_append] at haccepted hafter
    have hfield (counter : Values) {value : CStr}
        (hvalue : (settings lines).lookup counter = some value) :
        st.sSetup counter = counter.iParamType.read value ↔
          (counter = .threadlimit → start.sSetup.ThreadLimitIsShort) := by
      rw [hafter.setup, hvalue]
      exact store_eq_read start.sSetup (haccepted counter value hvalue)
    constructor
    · intro hread
      refine ⟨hwell, fun _ hset => ?_⟩
      obtain ⟨value, hvalue⟩ := Option.isSome_iff_exists.mp hset
      have hthread := hread .threadlimit
      rw [hvalue] at hthread
      exact (hfield _ hvalue).mp hthread rfl
    · rintro ⟨-, hshort⟩ counter
      cases hvalue : (settings lines).lookup counter with
      | none =>
        have hsame := hafter.setup counter
        rw [hvalue] at hsame
        exact hsame
      | some value =>
        refine (hfield counter hvalue).mpr ?_
        rintro rfl
        exact hshort haccepted (hvalue ▸ rfl)
  | error stop =>
    rw [hr] at hrun
    cases hrun with
    | exits hwell hnot => exact iff_of_true trivial ⟨hwell, fun haccepted => absurd haccepted hnot⟩
    | fails hstop hnot =>
      refine iff_of_false ?_ fun h => hnot h.1
      cases stop with
      | exit err => exact absurd rfl (hstop err)
      | _ => exact not_false

/-- A file in which every line is ignored or sets a key of the table is well behaved. -/
theorem wellBehaved_of_known {made : List (Values × CStr)} {lines : List CStr}
    (h : ∀ line ∈ lines, entryOf line ≠ .malformed ∧ entryOf line ≠ .unknown) :
    WellBehaved made lines := by
  rintro before line behind rfl -
  obtain ⟨hkey, hknown⟩ := h line (List.mem_append_right _ List.mem_cons_self)
  exact ⟨hkey, fun hunknown => absurd hunknown hknown⟩

/-- A bot that nothing was set for. -/
def zeroConfig : ConfigState where
  sSetup counter :=
    match counter.iParamType with
    | .paramString => none
    | .paramShort | .paramInt => (0 : BitVec 32)
  isFound _ := false
  elem := false

/-- A file with a comment, a repeated key and a thread limit. -/
def shortFile : List CStr :=
  ["# comment line", "botname = UnitBot", "hostname=irc.example.org", "", "threadlimit=4",
    "botname=SecondBot"]

/-- It is read as it should be. -/
theorem config_file_read :
    ReadsConfig zeroConfig.sSetup shortFile
      (configFileParser (some (fileOf shortFile)) zeroConfig) :=
  (config_file_semantics zeroConfig (fun _ => rfl) shortFile (by decide +kernel)).mpr
    ⟨wellBehaved_of_known (by decide +kernel), fun _ _ => by
      show BitVec.toNat (0 : BitVec 32) < 2 ^ 16
      decide⟩

/-- An unknown key behind a known one leads the parser out of its table. -/
theorem config_file_unknown_key : (∀ line ∈ ["botname=UnitBot".toList, "color=blue"], IsLine line) ∧
    configFileParser (some (fileOf ["botname=UnitBot", "color=blue"])) zeroConfig =
      .error .indexRange := by
  have computed : (match configFileParser (some (fileOf ["botname=UnitBot", "color=blue"]))
      zeroConfig with
      | .error stop => some stop
      | .ok _ => none) = some .indexRange := by
    decide +kernel
  refine ⟨by decide, ?_⟩
  split at computed
  · next stop hstop => rw [hstop, Option.some.inj computed]
  · cases computed

end Ebotula
