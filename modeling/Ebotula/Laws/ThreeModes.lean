import Ebotula.Laws.AccountMode
import Ebotula.Laws.Names
import Ebotula.Laws.Password
import Ebotula.Laws.Protection

/-!
# Identify, join and log off

Three handlers tell the server which mode a user has in a channel. `ident` asks first whether he
is a master, `hSetModUser` asks first for his record in the channel, and `logoff` takes back what
it finds in the channel or, from whoever had the level of a master when the command came in, an
operator's mode. So they agree on everybody who has one kind of record. Of a master with a record
in the channel they agree if that is an owner's; and of a master without one, if the line of the
log-off does not name a channel in which he has a right.
-/

set_option autoImplicit false

namespace Ebotula

open Library

variable {G : Type} [DbLib G] {env : Env} {w w' : World G} {dbs : Databases G} {pMsg : MsgItem}

/-! ## The modes of one channel -/

/-- The sign and the letter of a mode, as the server reads them. -/
def signLetter (pMod : CStr) : Char × Char := (strAt (pMod ++ [' ']) 0, strAt (pMod ++ [' ']) 1)

/-- The modes that were sent for a channel, as the lines have them. -/
def modesSent (c : CStr) (w w' : World G) : List (Char × Char) :=
  ((w'.issued (modeHead c)).drop (w.issued (modeHead c)).length).map fun line =>
    (strAt (line.drop (modeHead c).length) 0, strAt (line.drop (modeHead c).length) 1)

theorem drop_modeLine (c pMod pNick : CStr) : (modeLine c pMod pNick).drop (modeHead c).length =
    pMod ++ ' ' :: (pNick ++ "\r\n".toList) := by
  simp only [modeLine, List.append_assoc, List.drop_left]
  rfl

theorem strAt_word {pMod : CStr} (hne : pMod ≠ []) (rest : CStr) (i : Nat) (hi : i ≤ 1) :
    strAt (pMod ++ ' ' :: rest) i = strAt (pMod ++ [' ']) i := by
  cases pMod with
  | nil => exact absurd rfl hne
  | cons a pMod =>
    cases pMod with
    | nil =>
      obtain rfl | rfl : i = 0 ∨ i = 1 := by omega
      · rfl
      · rfl
    | cons b pMod =>
      obtain rfl | rfl : i = 0 ∨ i = 1 := by omega
      · rfl
      · rfl

omit [DbLib G] in
/-- What the lines about a channel say. -/
theorem modesSent_eq {c pNick : CStr} {mods : List CStr} (hne : ∀ m ∈ mods, m ≠ [])
    (h : w'.issued (modeHead c) =
      w.issued (modeHead c) ++ mods.map fun m => modeLine c m pNick) :
    modesSent c w w' = mods.map signLetter := by
  rw [modesSent, h, List.drop_left, List.map_map]
  refine List.map_congr_left fun m hm => ?_
  simp only [Function.comp_apply, drop_modeLine, signLetter]
  rw [strAt_word (hne m hm) _ 0 (by omega), strAt_word (hne m hm) _ 1 (by omega)]

/-- Only one channel of a list is the one asked for. -/
theorem flatMap_only {β : Type} {c : CStr} {l : List CStr} (hl : l.Nodup) (hc : c ∈ l)
    (lines : CStr → List β) : (l.flatMap fun x => if c = x then lines x else []) = lines c := by
  induction l with
  | nil => cases hc
  | cons x l ih =>
    obtain ⟨hx, hl⟩ := List.nodup_cons.mp hl
    rw [List.flatMap_cons]
    by_cases heq : c = x
    · subst heq
      have hrest : (l.flatMap fun x => if c = x then lines x else []) = [] := by
        refine List.flatMap_eq_nil_iff.mpr fun y hy => if_neg fun h => ?_
        subst h
        exact hx hy
      rw [if_pos rfl, hrest, List.append_nil]
    · rw [if_neg heq, List.nil_append]
      exact ih hl ((List.mem_cons.mp hc).resolve_left heq)

/-- A mode change is a line about its own channel and about no other. -/
theorem issues_mode_channel {c x pMod : CStr} {pNick : Option CStr} (hc : ' ' ∉ c)
    (hx : ' ' ∉ x) : Issues env (modeHead c) (mode (some x) (some pMod) pNick) w
      (if c = x then [modeLine x pMod (pNick.getD [])] else []) := by
  have hhead : (modeHead c).isPrefixOf (modeLine x pMod (pNick.getD [])) = decide (c = x) :=
    modeHead_isPrefixOf hc hx
  split
  · next heq => exact issues_mode_of (hhead.trans (decide_eq_true heq))
  · next hne => exact issues_mode_other (hhead.trans (decide_eq_false hne))

/-! ## What each of them sends -/

/-- The modes `ident` sets for a login with this record in the channel. -/
def identModes (isMaster : Bool) (pMod : Option CStr) : List CStr :=
  if isMaster then ["+o"] else pMod.toList

/-- The modes `hSetModUser` sets. -/
def joinModes (isMaster : Bool) (pMod : Option CStr) : List CStr :=
  match pMod with
  | some pMod => [pMod]
  | none => if isMaster then ["+o"] else []

/-- The modes `logoff` takes back. -/
def logoffModes (isMaster : Bool) (pMod : Option CStr) : List CStr :=
  match pMod with
  | some pMod => ['-' :: pMod.tail]
  | none => if isMaster then ["-o"] else []

/-- The lines of these modes for a channel and the caller. -/
def MsgItem.modeLines (pMsg : MsgItem) (c : CStr) (mods : List CStr) : List CStr :=
  mods.map fun m => modeLine c m (pMsg.pCallingNick.getD [])

variable {pLogin c x : CStr} {isMaster : Bool}

theorem issues_identChannel (hc : ' ' ∉ c) (hx : ' ' ∉ x) :
    Issues env (modeHead c) (identChannel pMsg isMaster pLogin x) w
      (if c = x then pMsg.modeLines x
        (identModes isMaster (w.db.getDb .access (some (pLogin ++ x)))) else []) := by
  unfold identChannel identModes MsgItem.modeLines
  cases isMaster with
  | true =>
    simp only [if_true, List.map_cons, List.map_nil]
    exact issues_mode_channel hc hx
  | false =>
    simp only [Bool.false_eq_true, if_false]
    refine issues_getDb ?_
    cases w.db.getDb .access (some (pLogin ++ x)) with
    | some pMod =>
      simp only [Option.toList_some, List.map_cons, List.map_nil]
      exact issues_mode_channel hc hx
    | none =>
      simp only [Option.toList_none, List.map_nil, ite_self]
      exact .pure

theorem issues_logoffChannel (hc : ' ' ∉ c) (hx : ' ' ∉ x)
    (hne : w.db.getDb .access (some (pLogin ++ x)) ≠ some []) :
    Issues env (modeHead c) (logoffChannel pMsg pLogin x) w
      (if c = x then pMsg.modeLines x (logoffModes (pMsg.userLevel = .masterLevel)
        (w.db.getDb .access (some (pLogin ++ x)))) else []) := by
  unfold logoffChannel logoffModes MsgItem.modeLines
  refine issues_getDb ?_
  cases h : w.db.getDb .access (some (pLogin ++ x)) with
  | some pMode =>
    cases pMode with
    | nil => exact absurd h hne
    | cons a pMode =>
      simp only [List.tail_cons, List.map_cons, List.map_nil]
      refine issues_setFirstChar ?_
      exact issues_mode_channel hc hx
  | none =>
    by_cases hmaster : pMsg.userLevel = .masterLevel
    · simp only [hmaster, if_true, decide_true, List.map_cons, List.map_nil]
      exact issues_mode_channel hc hx
    · simp only [hmaster, if_false, decide_false, Bool.false_eq_true, List.map_nil, ite_self]
      exact .pure

/-! ## What is sent for one registered channel -/

/-- A channel that is registered, and none with a blank in its name. -/
structure Listed (dbs : Databases G) (c : CStr) : Prop where
  words : ∀ x ∈ dbs.listDb .channel, ' ' ∉ x
  mem : c ∈ dbs.listDb .channel

theorem Listed.flatMap {β : Type} {c : CStr} (listed : Listed dbs c)
    (lines : CStr → List β) :
    ((dbs.listDb .channel).flatMap fun x => if c = x then lines x else []) = lines c :=
  flatMap_only (Table.nodup_keys _) listed.mem lines

theorem Listed.of_list {dbs' : Databases G} (listed : Listed dbs c)
    (h : dbs'.listDb .channel = dbs.listDb .channel) : Listed dbs' c :=
  ⟨h ▸ listed.words, h ▸ listed.mem⟩

theorem issues_identChannels (listed : Listed w.db c) :
    Issues env (modeHead c) (identChannels pMsg pLogin) w (pMsg.modeLines c
      (identModes (w.db.existDb .access (some pLogin))
        (w.db.getDb .access (some (pLogin ++ c))))) := by
  unfold identChannels
  refine issues_existDb (issues_listDb ?_)
  refine .after issues_logger fun w₁ h₁ => ?_
  rw [← listed.flatMap fun x => pMsg.modeLines x (identModes
    (w.db.existDb .access (some pLogin)) (w.db.getDb .access (some (pLogin ++ x))))]
  refine .forEach fun x hx w₂ h₂ => ?_
  rw [← h₁, ← h₂]
  exact issues_identChannel (listed.words c listed.mem) (listed.words x hx)

/-- No record is the empty text. -/
def NoEmptyRight (dbs : Databases G) : Prop := ∀ k, dbs.fetch .access k ≠ some []

theorem issues_logoffChannels (listed : Listed w.db c) (hne : NoEmptyRight w.db) :
    Issues env (modeHead c) (logoffChannels pMsg pLogin) w (pMsg.modeLines c
      (logoffModes (pMsg.userLevel = .masterLevel)
        (w.db.getDb .access (some (pLogin ++ c))))) := by
  unfold logoffChannels
  refine issues_listDb ?_
  rw [← listed.flatMap fun x => pMsg.modeLines x (logoffModes
    (pMsg.userLevel = .masterLevel) (w.db.getDb .access (some (pLogin ++ x)))),
    ← List.append_nil (List.flatMap _ _)]
  refine .bind (.forEach fun x hx w₁ h₁ => ?_) fun w₁ h₁ => ?_
  · rw [← h₁]
    refine issues_logoffChannel (listed.words c listed.mem) (listed.words x hx) ?_
    rw [h₁]
    exact hne (key (pLogin ++ x))
  · exact issues_answer (noTalk_modeHead c) [] (by decide +kernel) rfl

/-- A join of somebody who is logged on, and is not the bot. -/
structure Joins (w : World G) (pMsg : MsgItem) (u : Key) (pChannel : CStr) : Prop where
  nick : ∃ pNick ∈ pMsg.pCallingNick, strcaseeq pNick w.pBotname = false
  session : ∃ pLogin ∈ w.db.getDb .nickToUser pMsg.pNetmask, key pLogin = u
  channel : pMsg.pAccessChannel = some pChannel

theorem issues_hSetModUser {u : Key} {pChannel : CStr} (joins : Joins w pMsg u pChannel)
    (hchannel : ' ' ∉ pChannel) :
    Issues env (modeHead pChannel) (hSetModUser pMsg) w (pMsg.modeLines pChannel
      (joinModes (w.db.fetch .access u).isSome (w.db.fetch .access (u ++ key pChannel)))) := by
  obtain ⟨pNick, hnick, hbot⟩ := joins.nick
  obtain ⟨pLogin, hlogin, rfl⟩ := joins.session
  have hline (pMod : CStr) {w' : World G} : Issues env (modeHead pChannel)
      (mode (some pChannel) (some pMod) (some pNick)) w' [modeLine pChannel pMod pNick] := by
    have hmode : Issues env (modeHead pChannel) (mode (some pChannel) (some pMod) (some pNick)) w'
        (if pChannel = pChannel then [modeLine pChannel pMod pNick] else []) :=
      issues_mode_channel hchannel hchannel
    rwa [if_pos rfl] at hmode
  unfold hSetModUser MsgItem.modeLines joinModes
  rw [Option.mem_def.mp hnick]
  dsimp only
  refine issues_botname ?_
  rw [hbot, Bool.not_false, if_pos rfl]
  refine issues_getDb ?_
  rw [Option.mem_def.mp hlogin]
  dsimp only
  refine .after issues_logger fun w₁ h₁ => ?_
  rw [joins.channel]
  dsimp only
  refine issues_getDb ?_
  rw [Databases.getDb_some, key_append, h₁]
  cases w.db.fetch .access (key pLogin ++ key pChannel) with
  | some pMod => exact hline pMod
  | none =>
    refine issues_existDb ?_
    rw [Databases.existDb_some, h₁]
    split
    · exact hline "+o"
    · exact .pure

/-! ## The commands around them -/

section Total

attribute [local irreducible] Prog.Calls

theorem total_logoffChannels : Total (logoffChannels pMsg pLogin).lift := by
  refine Prog.Calls.lift (S := quietSig) (T := writeSig) ?_
  unfold logoffChannels
  refine .bind (.request (S := quietSig) trivial) fun _ => .bind (.forEach fun _ => ?_) fun _ => ?_
  · unfold logoffChannel
    refine .bind (.request trivial) fun pMode => ?_
    cases pMode with
    | none => exact .ite talks_mode.answered (.pure ())
    | some pMode =>
      refine .bind ?_ fun _ => talks_mode.answered
      cases pMode with
      | nil => exact .bind (.request trivial) fun _ => .pure _
      | cons a pMode => exact .pure _
  · exact (talks_answer [] (by decide +kernel) rfl).answered

theorem total_logoff : Total (logoff pMsg) := by
  unfold logoff
  simp only [Prog.liftM_eq]
  refine .bind (total_request trivial) fun pLogin => ?_
  cases pLogin with
  | none => exact .pure ()
  | some pLogin =>
    refine .bind (total_logOut pLogin) fun _ => ?_
    exact .ite total_logoffChannels (.pure ())

end Total

/-- A netmask that is not logged on gives the password of an account. -/
structure Identifies (w : World G) (pMsg : MsgItem) (u : Key) : Prop where
  guest : w.db.existDb .nickToUser pMsg.pNetmask = false
  password : ∃ pParameter ∈ pMsg.parameters, key (strtokBuf ' ' pParameter) = u ∧
    w.db.checkDb .user (some (strtokBuf ' ' pParameter))
      (some (((cutFirst ' ' pParameter).map Prod.snd).getD [])) = true

theorem wp_ident_modes {u : Key} (listed : Listed w.db c)
    (identifies : Identifies w pMsg u) :
    (ident pMsg).wp (perform env) (fun _ w' => w'.issued (modeHead c) =
      w.issued (modeHead c) ++ pMsg.modeLines c
        (identModes (w.db.fetch .access u).isSome (w.db.fetch .access (u ++ key c)))) w := by
  obtain ⟨pParameter, hparameter, rfl, hcheck⟩ := identifies.password
  simp only [ident, Prog.wp_bind, Prog.liftM_eq, wp_perform_lift]
  refine Issues.wp_nil (modeHead c) issues_logger fun w₁ h₁ i₁ => ?_
  simp only [wp_existDb, Prog.wp_ite, wp_perform_lift, h₁, identifies.guest,
    Option.mem_def.mp hparameter, Bool.false_eq_true, false_implies, true_and, not_false_eq_true,
    forall_const]
  simp only [Prog.wp_ite, Prog.wp_bind, wp_perform_lift, wp_checkDb]
  have talk (w' : World G) (text : CStr) (hformat : Formats text []) :
      Issues env (modeHead c) (answer pMsg text []) w' [] :=
    issues_answer (noTalk_modeHead c) [] hformat rfl
  refine Issues.wp_if (modeHead c) (talk w₁ _ (by decide +kernel)) fun w₂ h₂ i₂ => ?_
  refine Issues.wp_nil (modeHead c) issues_logger fun w₃ h₃ i₃ => ?_
  rw [h₃, h₂, h₁]
  refine ⟨fun _ => ?_, fun hno => absurd hcheck hno⟩
  refine Issues.wp_nil (modeHead c) issues_logger fun w₄ h₄ i₄ => ?_
  have hdb : w₄.db = w.db := by rw [h₄, h₃, h₂, h₁]
  -- the log-on sends nothing, and leaves the records and the channels alone
  have logged : (logOn pMsg.pNetmask (strtokBuf ' ' pParameter)).wp (perform env) (fun _ w₅ =>
      SameExcept (.timelog :: sessionDbs) w₄.db w₅.db ∧ w₅.sent = w₄.sent) w₄ :=
    Prog.wp_and (wp_logOn fun _ same _ => same) (wp_silent silent_logOn)
  refine Prog.wp_mono logged fun _ w₅ hlogged => ?_
  obtain ⟨same, hsent⟩ := hlogged
  refine Issues.wp_nil (modeHead c) (talk w₅ _ (by decide +kernel)) fun w₆ h₆ i₆ => ?_
  have hrights : w₆.db.fetch .access = w.db.fetch .access := by
    rw [h₆, same.fetch (by decide), hdb]
  have listed₆ : Listed w₆.db c := by
    refine listed.of_list ?_
    rw [h₆, same.listDb (by decide), hdb]
  refine (issues_identChannels listed₆).wp fun w₇ _ i₇ => ?_
  rw [i₇, i₆, World.issued, hsent, ← World.issued, i₄, i₃, i₂, i₁, Databases.existDb_some,
    Databases.getDb_some, key_append, hrights]

/-- The log-off of somebody who is logged on, with the level his line was given. -/
structure LogsOff (w : World G) (pMsg : MsgItem) (u : Key) : Prop where
  session : ∃ pLogin ∈ w.db.getDb .nickToUser pMsg.pNetmask, key pLogin = u
  interactive : pMsg.bInteractiveMode = true
  level : pMsg.userLevel = w.db.userLevel pMsg.pAccessChannel pMsg.pNetmask

theorem wp_logoff_modes {u : Key} (listed : Listed w.db c) (hne : NoEmptyRight w.db)
    (logsOff : LogsOff w pMsg u) :
    (logoff pMsg).wp (perform env) (fun _ w' => w'.issued (modeHead c) =
      w.issued (modeHead c) ++ pMsg.modeLines c
        (logoffModes (pMsg.userLevel = .masterLevel) (w.db.fetch .access (u ++ key c)))) w := by
  obtain ⟨pLogin, hlogin, rfl⟩ := logsOff.session
  simp only [logoff, Prog.wp_bind, Prog.liftM_eq, wp_perform_lift, wp_getDb,
    Option.mem_def.mp hlogin, logsOff.interactive, if_true]
  have out : (logOut pLogin).wp (perform env) (fun _ w₁ =>
      SameExcept sessionDbs w.db w₁.db ∧ w₁.sent = w.sent) w :=
    Prog.wp_and (wp_logOut fun _ same _ => same) (wp_silent silent_logOut)
  refine Prog.wp_mono out fun _ w₁ hout => ?_
  obtain ⟨same, hsent⟩ := hout
  have hrights : w₁.db.fetch .access = w.db.fetch .access := same.fetch (by decide)
  have listed₁ : Listed w₁.db c := listed.of_list (same.listDb (by decide))
  have hne₁ : NoEmptyRight w₁.db := fun k => hrights ▸ hne k
  refine (issues_logoffChannels listed₁ hne₁).wp fun w₂ _ i₂ => ?_
  rw [i₂, World.issued, hsent, ← World.issued, Databases.getDb_some, key_append, hrights]

/-! ## Where they agree -/

/-- Two lists of modes set and one taken back are about the same letters. -/
def Agree (identified joined loggedOff : List (Char × Char)) : Prop :=
  ∃ letters : List Char, identified = letters.map ('+', ·) ∧ joined = letters.map ('+', ·) ∧
    loggedOff = letters.map ('-', ·)

theorem signLetter_right (a : Char) :
    signLetter (cString ['+', a]) = ('+', if a = '\x00' then ' ' else a) := by
  by_cases h : a = '\x00'
  · subst h
    rfl
  · simp [signLetter, cString, strAt, h]

theorem signLetter_taken (a : Char) :
    signLetter ('-' :: (cString ['+', a]).tail) = ('-', if a = '\x00' then ' ' else a) := by
  by_cases h : a = '\x00'
  · subst h
    rfl
  · simp [signLetter, cString, strAt, h]

theorem agree_singletons {a b d : Char} :
    Agree [('+', a)] [('+', b)] [('-', d)] ↔ a = b ∧ a = d := by
  constructor
  · rintro ⟨letters, h, h', h''⟩
    obtain ⟨x, rfl⟩ : ∃ x, letters = [x] := by
      cases letters with
      | nil => cases h
      | cons x letters =>
        cases letters with
        | nil => exact ⟨x, rfl⟩
        | cons y letters => cases h
    cases h
    cases h'
    cases h''
    exact ⟨rfl, rfl⟩
  · rintro ⟨rfl, rfl⟩
    exact ⟨[a], rfl, rfl, rfl⟩

/-- The three agree on everybody with one kind of record. -/
theorem modes_agree_iff {pMod : Option CStr} {asMaster : Bool}
    (record : ∀ r ∈ pMod, ∃ a, r = cString ['+', a])
    (level : asMaster = true → isMaster = true) :
    Agree ((identModes isMaster pMod).map signLetter) ((joinModes isMaster pMod).map signLetter)
        ((logoffModes asMaster pMod).map signLetter) ↔
      (isMaster = true → (pMod = none ∧ asMaster = true) ∨ pMod = some ['+', 'o']) := by
  have howner : signLetter "+o" = ('+', 'o') := by decide
  have htaken : signLetter "-o" = ('-', 'o') := by decide
  unfold identModes joinModes logoffModes
  cases pMod with
  | none =>
    cases isMaster with
    | false =>
      have hlevel : asMaster = false := by
        cases asMaster with
        | false => rfl
        | true => exact absurd (level rfl) nofun
      simp only [hlevel, Bool.false_eq_true, if_false, Option.toList_none, List.map_nil,
        false_implies, iff_true]
      exact ⟨[], rfl, rfl, rfl⟩
    | true =>
      cases asMaster with
      | false =>
        simp only [if_true, Bool.false_eq_true, if_false, List.map_cons, List.map_nil]
        refine iff_of_false ?_ (by simp)
        rintro ⟨letters, h, -, h'⟩
        cases letters with
        | nil => cases h
        | cons => cases h'
      | true =>
        simp only [if_true, List.map_cons, List.map_nil, howner, htaken, agree_singletons,
          and_self, true_or, implies_true]
  | some r =>
    obtain ⟨a, rfl⟩ := record r rfl
    simp only [reduceCtorEq, false_and, false_or, Option.some.injEq, List.map_cons, List.map_nil,
      signLetter_right, signLetter_taken]
    cases isMaster with
    | false =>
      simp only [Bool.false_eq_true, if_false, Option.toList_some, List.map_cons, List.map_nil,
        signLetter_right, agree_singletons, and_self, false_implies]
    | true =>
      simp only [if_true, List.map_cons, List.map_nil, howner, agree_singletons, and_self,
        true_implies]
      by_cases h : a = '\x00'
      · subst h
        decide
      · simp [cString, h, eq_comm]

/-- None of the modes is empty. -/
theorem modes_ne_nil (isMaster asMaster : Bool) {pMod : Option CStr} (record : ∀ r ∈ pMod, r ≠ []) :
    (∀ m ∈ identModes isMaster pMod, m ≠ []) ∧ (∀ m ∈ joinModes isMaster pMod, m ≠ []) ∧
      ∀ m ∈ logoffModes asMaster pMod, m ≠ [] := by
  unfold identModes joinModes logoffModes
  cases pMod with
  | none => cases isMaster <;> cases asMaster <;> simp
  | some r =>
    have hr := record r rfl
    cases isMaster <;> simp [hr]

/-- The records and the channels are those of another state. -/
structure SameRights (dbs dbs' : Databases G) : Prop where
  access : dbs' .access = dbs .access
  channel : dbs' .channel = dbs .channel

theorem SameRights.fetch {dbs' : Databases G} (same : SameRights dbs dbs') :
    dbs'.fetch .access = dbs.fetch .access := by
  funext k
  simp only [Databases.fetch, same.access]

theorem SameRights.listed {dbs' : Databases G} (same : SameRights dbs dbs')
    (listed : Listed dbs c) : Listed dbs' c := by
  refine listed.of_list ?_
  simp only [Databases.listDb, same.channel]

/-- Who is logged on has the level of a master exactly as a master without a record in the channel
of his line. -/
theorem userLevel_master_iff {pChannel pNetmask : Option CStr}
    (session : dbs.getDb .nickToUser pNetmask = some pLogin) :
    dbs.userLevel pChannel pNetmask = .masterLevel ↔
      (∀ d ∈ pChannel, dbs.fetch .access (key pLogin ++ key d) = none) ∧
        (dbs.fetch .access (key pLogin)).isSome := by
  have hadmits : Group.master.admits (dbs.userLevel pChannel pNetmask) = true ↔ _ :=
    Databases.admits_userLevel .master
  rw [Group.admits, decide_eq_true_eq] at hadmits
  rw [hadmits]
  simp only [Databases.permits, session, Option.some.injEq, exists_eq_left',
    Databases.actsAsMaster, Databases.channelRight]
  cases pChannel with
  | none => simp
  | some d => simp [key_append]

/-- Identify, join and log off agree about an account and a channel exactly where the account is
no master's, or an owner's, or a master's without a record in the channel who names no channel in
which he has one when he logs off. -/
theorem identify_join_logoff_agree {as : List Act} {u c : Key} {env' env'' : Env}
    {w₁ w₂ w₃ : World G} {pMsg₁ pMsg₂ pMsg₃ : MsgItem} {pChannel : CStr}
    (start : w.db.NoRights) (lower : w.db.InLowerCase)
    (run : Run Ebotula.act (fun _ a => a.FromLine) w as w')
    (account : (w'.db.fetch .user u).isSome) (channel : (w'.db.fetch .channel c).isSome)
    (same₁ : SameRights w'.db w₁.db) (same₂ : SameRights w'.db w₂.db)
    (same₃ : SameRights w'.db w₃.db) (identifies : Identifies w₁ pMsg₁ u)
    (joins : Joins w₂ pMsg₂ u pChannel) (hchannel : key pChannel = c)
    (logsOff : LogsOff w₃ pMsg₃ u) :
    ∃ w₁' w₂' w₃', (ident pMsg₁).run (perform env) w₁ = some ((), w₁') ∧
      (hSetModUser pMsg₂).run (performQuiet env') w₂ = some ((), w₂') ∧
      (logoff pMsg₃).run (perform env'') w₃ = some ((), w₃') ∧
      (Agree (modesSent c.val w₁ w₁') (modesSent pChannel w₂ w₂') (modesSent c.val w₃ w₃') ↔
        ((w'.db.fetch .access u).isSome →
          (w'.db.fetch .access (u ++ c) = none ∧
            ∀ d ∈ pMsg₃.pAccessChannel, w'.db.fetch .access (u ++ key d) = none) ∨
          w'.db.fetch .access (u ++ c) = some ['+', 'o'])) := by
  have recorded : Recorded w'.db :=
    run.invariant (I := fun w => Recorded w.db) (fun _ _ _ h _ hstep => h.act hstep)
      start.recorded
  have checked : Checked w'.db := .of_run start lower run
  have words : OneWord w'.db := .of_run start run
  have listed : Listed w'.db c.val := by
    refine ⟨fun x hx => ?_, Databases.val_mem_listDb channel⟩
    obtain ⟨k, rfl, hk⟩ := checked.lower.mem_listDb_iff.mp hx
    exact words k hk
  have proper : Grant.Proper ⟨u, some c⟩ :=
    ⟨checked.named.nick u account, by rintro _ ⟨⟩; exact checked.named.channel c channel⟩
  have record (r : CStr) (hr : r ∈ w'.db.fetch .access (u ++ c)) : ∃ a, r = cString ['+', a] := by
    obtain ⟨a, -, ha⟩ := recorded.record_of_grant proper hr
    exact ⟨a, ha⟩
  have hne : NoEmptyRight w'.db := fun k hk => by
    obtain ⟨g, -, -, hg⟩ := recorded.record k [] hk
    exact hg.ne_nil rfl
  have hfull (asMaster : Bool) := modes_ne_nil (w'.db.fetch .access u).isSome asMaster
    fun r hr h => hne (u ++ c) (h ▸ hr)
  have hc : ' ' ∉ c.val := words c channel
  have hchan : ' ' ∉ pChannel := fun h => hc (hchannel ▸ mem_key (by decide) h)
  -- each of the three comes to its end
  have htotal₁ : Total (ident pMsg₁) := total_ident
  have htotal₃ : Total (logoff pMsg₃) := total_logoff
  obtain ⟨⟨⟨⟩, w₁'⟩, hrun₁⟩ := htotal₁.run env w₁
  have hident := wp_ident_modes (same₁.listed listed) identifies () w₁' hrun₁
  obtain ⟨w₂', hrun₂, -, hset⟩ :
      Issues env' (modeHead pChannel) (hSetModUser pMsg₂) w₂ _ := issues_hSetModUser joins hchan
  obtain ⟨⟨⟨⟩, w₃'⟩, hrun₃⟩ := htotal₃.run env'' w₃
  have hlogoff := wp_logoff_modes (same₃.listed listed)
    (fun k => same₃.fetch ▸ hne k) logsOff () w₃' hrun₃
  refine ⟨w₁', w₂', w₃', hrun₁, hrun₂, hrun₃, ?_⟩
  rw [key_val, same₁.fetch] at hident
  rw [hchannel, same₂.fetch] at hset
  rw [key_val, same₃.fetch] at hlogoff
  obtain ⟨pLogin, hlogin, rfl⟩ := logsOff.session
  have hlevel : w₃.db.userLevel pMsg₃.pAccessChannel pMsg₃.pNetmask = .masterLevel ↔ _ :=
    userLevel_master_iff hlogin
  rw [← logsOff.level, same₃.fetch] at hlevel
  rw [modesSent_eq (hfull true).1 hident, modesSent_eq (hfull true).2.1 hset,
    modesSent_eq (hfull _).2.2 hlogoff,
    modes_agree_iff record fun h => (hlevel.mp (of_decide_eq_true h)).2]
  refine forall_congr' fun hmaster => or_congr_left (and_congr_right fun hnone => ?_)
  rw [decide_eq_true_eq, hlevel, and_iff_left hmaster]

/-- Somebody identifies himself from home. -/
def identItem (pLogin : CStr) : MsgItem :=
  fillItem (":".toList ++ pLogin ++ "!x@home PRIVMSG ebotula :!ident ".toList ++ pLogin)
    .noneLevel true

def joinItem (pNetmask : CStr) : MsgItem :=
  fillItem (":".toList ++ pNetmask ++ " JOIN :#c".toList) .loggedLevel false

def logoffItem (pNetmask : CStr) (userLevel : UserLevel) : MsgItem :=
  fillItem (":".toList ++ pNetmask ++ " PRIVMSG ebotula :!logoff".toList) userLevel true

/-- Alice owns the channel: she is given o, and o is taken from her. -/
theorem identify_join_logoff_agree_alice : ∃ w w₁ w₂ w₃,
    receiveAll (fun _ _ => true) calmEnv freshBot ownedChannel = some w ∧
    (ident (identItem "alice")).run (perform calmEnv) w = some ((), w₁) ∧
    (hSetModUser (joinItem "alice!a@h")).run (performQuiet calmEnv) w = some ((), w₂) ∧
    (logoff (logoffItem "alice!a@h" .loggedLevel)).run (perform calmEnv) w = some ((), w₃) ∧
    Agree (modesSent "#c" w w₁) (modesSent "#c" w w₂) (modesSent "#c" w w₃) := by
  have computed : (receiveAll (fun _ _ => true) calmEnv freshBot ownedChannel).map (fun w =>
      ((w.db.fetch .user (key "alice")).isSome && (w.db.fetch .channel (key "#c")).isSome &&
        !w.db.existDb .nickToUser (identItem "alice").pNetmask &&
        w.db.checkDb .user (some "alice") (some "") && !strcaseeq "alice" w.pBotname &&
        !(w.db.fetch .access (key "alice")).isSome,
        w.db.getDb .nickToUser (joinItem "alice!a@h").pNetmask,
        w.db.userLevel none (some "alice!a@h"))) =
      some (true, some "alice".toList, UserLevel.loggedLevel) := by
    decide +kernel
  obtain ⟨w, hw, hfacts⟩ := Option.map_eq_some_iff.mp computed
  simp only [Prod.mk.injEq, Bool.and_eq_true, Bool.not_eq_true'] at hfacts
  obtain ⟨⟨⟨⟨⟨⟨huser, hchannel⟩, hguest⟩, hcheck⟩, hbot⟩, hmaster⟩, hsession, hlevel⟩ := hfacts
  obtain ⟨as, run⟩ := run_of_lines hw
  have identifies : Identifies w (identItem "alice") (key "alice") :=
    ⟨hguest, "alice", rfl, rfl, hcheck⟩
  have joins : Joins w (joinItem "alice!a@h") (key "alice") "#c" :=
    ⟨⟨"alice", rfl, hbot⟩, ⟨"alice", hsession, rfl⟩, rfl⟩
  have logsOff : LogsOff w (logoffItem "alice!a@h" .loggedLevel) (key "alice") :=
    ⟨⟨"alice", hsession, rfl⟩, rfl, hlevel.symm⟩
  have same : SameRights w.db w.db := ⟨rfl, rfl⟩
  obtain ⟨w₁, w₂, w₃, hident, hjoin, hlogoff, hagree⟩ := identify_join_logoff_agree
    freshBot_noRights freshBot_inLowerCase run huser hchannel same same same identifies joins rfl
    logsOff
  refine ⟨w, w₁, w₂, w₃, hw, hident, hjoin, hlogoff, hagree.mpr fun h => ?_⟩
  rw [hmaster] at h
  cases h

/-- The first master is given v in a channel by another: `ident` gives him o, a join gives him v,
and when he logs off he keeps the o. -/
theorem first_master_keeps_operator : ∃ w w₁ w₂ w₃,
    receiveAll (fun _ _ => true) calmEnv freshBot (ownedChannel ++
      [":root!r@h PRIVMSG ebotula :!accountmode #c bob +m".toList,
        ":bob!b@h PRIVMSG ebotula :!accountmode #c root +v".toList]) = some w ∧
    Identifies w (identItem "root") (key "root") ∧ Joins w (joinItem "root!r@h") (key "root") "#c" ∧
    LogsOff w (logoffItem "root!r@h" .masterLevel) (key "root") ∧
    (ident (identItem "root")).run (perform calmEnv) w = some ((), w₁) ∧
    (hSetModUser (joinItem "root!r@h")).run (performQuiet calmEnv) w = some ((), w₂) ∧
    (logoff (logoffItem "root!r@h" .masterLevel)).run (perform calmEnv) w = some ((), w₃) ∧
    modesSent "#c" w w₁ = [('+', 'o')] ∧ modesSent "#c" w w₂ = [('+', 'v')] ∧
    modesSent "#c" w w₃ = [('-', 'v')] ∧
    ¬ Agree (modesSent "#c" w w₁) (modesSent "#c" w w₂) (modesSent "#c" w w₃) := by
  have computed : (receiveAll (fun _ _ => true) calmEnv freshBot (ownedChannel ++
      [":root!r@h PRIVMSG ebotula :!accountmode #c bob +m".toList,
        ":bob!b@h PRIVMSG ebotula :!accountmode #c root +v".toList])).bind (fun w =>
      ((ident (identItem "root")).run (perform calmEnv) w).bind fun r₁ =>
      ((hSetModUser (joinItem "root!r@h")).run (performQuiet calmEnv) w).bind fun r₂ =>
      ((logoff (logoffItem "root!r@h" .masterLevel)).run (perform calmEnv) w).map fun r₃ =>
      ([modesSent "#c" w r₁.2, modesSent "#c" w r₂.2, modesSent "#c" w r₃.2],
        !w.db.existDb .nickToUser (identItem "root").pNetmask &&
          w.db.checkDb .user (some "root") (some "") && !strcaseeq "root" w.pBotname &&
          w.db.getDb .nickToUser (joinItem "root!r@h").pNetmask = some "root",
        w.db.userLevel none (some "root!r@h"))) =
      some ([[('+', 'o')], [('+', 'v')], [('-', 'v')]], true, UserLevel.masterLevel) := by
    decide +kernel
  obtain ⟨w, hw, hrest⟩ := Option.bind_eq_some_iff.mp computed
  obtain ⟨⟨⟨⟩, w₁⟩, hident, hrest⟩ := Option.bind_eq_some_iff.mp hrest
  obtain ⟨⟨⟨⟩, w₂⟩, hjoin, hrest⟩ := Option.bind_eq_some_iff.mp hrest
  obtain ⟨⟨⟨⟩, w₃⟩, hlogoff, hfacts⟩ := Option.map_eq_some_iff.mp hrest
  simp only [Prod.mk.injEq, List.cons.injEq, and_true, Bool.and_eq_true, Bool.not_eq_true',
    decide_eq_true_eq] at hfacts
  obtain ⟨⟨h₁, h₂, h₃⟩, ⟨⟨⟨hguest, hcheck⟩, hbot⟩, hsession⟩, hlevel⟩ := hfacts
  refine ⟨w, w₁, w₂, w₃, hw, ⟨hguest, "root", rfl, rfl, hcheck⟩,
    ⟨⟨"root", rfl, hbot⟩, ⟨"root", hsession, rfl⟩, rfl⟩,
    ⟨⟨"root", hsession, rfl⟩, rfl, hlevel.symm⟩, hident, hjoin, hlogoff, h₁, h₂, h₃, ?_⟩
  rw [h₁, h₂, h₃, agree_singletons]
  decide

end Ebotula
