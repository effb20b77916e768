import Ebotula.Laws.CallbackData
import Ebotula.Laws.CallbackOrder
import Ebotula.Laws.ModeLetters

/-!
# Callbacks for the letters of a mode

`hResetModes` registers a callback for each user that it finds in a MODE line. What a run of it
adds to the callback list is read off the letters with what they are given, and compared with
what is due for them.
-/

set_option autoImplicit false

namespace Ebotula

open Library

/-! ## What the loop does with a letter -/

section Loop

variable {G : Type} {w : World G}

/-- What a routine leaves alone that talks to the server only. -/
structure SameBot (w w' : World G) : Prop where
  db : w'.db = w.db
  pBotname : w'.pBotname = w.pBotname

theorem SameBot.refl : SameBot w w := ⟨rfl, rfl⟩

theorem SameBot.trans {w₁ w₂ : World G} (h : SameBot w w₁) (h' : SameBot w₁ w₂) : SameBot w w₂ :=
  ⟨h'.db.trans h.db, h'.pBotname.trans h.pBotname⟩

variable [DbLib G] {env : Env} {q : List CallbackItem}

/-- A routine ends, and the callback list has these items more. -/
def Adds (env : Env) (p : Quiet Unit) (w : World G) (q items : List CallbackItem) : Prop :=
  ∃ w', p.run (performQuiet env) w = some ((), w') ∧ w'.callbackList.Queues (q ++ items) ∧
    SameBot w w'

theorem adds_talk {p : Quiet Unit} (hp : Talks p) (h : w.callbackList.Queues q) :
    Adds env p w q [] := by
  obtain ⟨⟨⟨⟩, w'⟩, hrun⟩ := Prog.Calls.total (H := performQuiet (G := G) env) hp
    (fun o ho w => performQuiet_answers ho.answers w) w
  have hkeep := Prog.Calls.keeps (H := performQuiet (G := G) env)
    (f := fun w => (w.callbackList, w.db, w.pBotname)) hp (fun o ho w r w' hrun => by
      cases o <;> first | exact ho.elim | (cases hrun; rfl)) w () w' hrun
  simp only [Prod.mk.injEq] at hkeep
  refine ⟨w', hrun, ?_, hkeep.2.1, hkeep.2.2⟩
  rw [hkeep.1, List.append_nil]
  exact h

theorem Adds.bind {p r : Quiet Unit} {items items' : List CallbackItem}
    (hp : Adds env p w q items)
    (hr : ∀ w', SameBot w w' → w'.callbackList.Queues (q ++ items) →
      Adds env r w' (q ++ items) items') :
    Adds env (p >>= fun _ => r) w q (items ++ items') := by
  obtain ⟨w₁, hrun₁, hqueues₁, hsame₁⟩ := hp
  obtain ⟨w₂, hrun₂, hqueues₂, hsame₂⟩ := hr w₁ hsame₁ hqueues₁
  refine ⟨w₂, ?_, List.append_assoc .. ▸ hqueues₂, hsame₁.trans hsame₂⟩
  rw [Prog.run_bind, hrun₁, Option.bind_some, hrun₂]

theorem adds_registerCallback (h : w.callbackList.Queues q) (item : CallbackItem) :
    Adds env (registerCallback item) w q [item] := by
  obtain ⟨elems, h, rfl⟩ := h
  obtain ⟨w', a, hrun, hcarries, hdb, hbot⟩ := run_registerCallback env h item
  refine ⟨w', hrun, ⟨_, hcarries, ?_⟩, hdb, hbot⟩
  rw [List.map_append, List.map_singleton]

theorem adds_getDb {d : DatabaseID} {k : Option CStr} {f : Option CStr → Quiet Unit}
    {items : List CallbackItem} (h : Adds env (f (w.db.getDb d k)) w q items) :
    Adds env (getDb d k >>= f) w q items := by
  obtain ⟨w', hrun, hrest⟩ := h
  exact ⟨w', by rw [Prog.run_bind, run_getDb, Option.bind_some, hrun], hrest⟩

theorem adds_botname {f : CStr → Quiet Unit} {items : List CallbackItem}
    (h : Adds env (f w.pBotname) w q items) : Adds env (botname >>= f) w q items := by
  obtain ⟨w', hrun, hrest⟩ := h
  exact ⟨w', by rw [Prog.run_bind, run_botname, Option.bind_some, hrun], hrest⟩

/-- The record that is saved for a channel is one the bot can read. -/
def SavedReadable (w : World G) (c : CStr) : Prop :=
  ∀ pChannelSet, w.db.getDb .channel (some c) = some pChannelSet →
    (strToChannelData pChannelSet).isSome

theorem SameBot.savedReadable {w' : World G} {c : CStr} (h : SameBot w w') :
    SavedReadable w' c ↔ SavedReadable w c := by
  rw [SavedReadable, SavedReadable, h.db]

theorem adds_channelInit {c : CStr} (h : w.callbackList.Queues q) (saved : SavedReadable w c) :
    Adds env (channelInit (some c)) w q [] := by
  unfold channelInit
  refine adds_getDb ?_
  cases hset : w.db.getDb .channel (some c) with
  | none => exact adds_talk (.pure ()) h
  | some pChannelSet =>
    obtain ⟨sChannelData, hdata⟩ := Option.isSome_iff_exists.mp (saved pChannelSet hset)
    simp only [hdata]
    exact adds_talk (talks_initialized sChannelData) h

/-- A record that cannot be read is the end of the bot. -/
theorem run_channelInit_unreadable {c : CStr} (saved : ¬ SavedReadable w c) :
    (channelInit (some c)).run (performQuiet env) w = none := by
  obtain ⟨pChannelSet, hrest⟩ := not_forall.mp saved
  obtain ⟨hset, hdata⟩ := Classical.not_imp.mp hrest
  rw [Option.not_isSome_iff_eq_none] at hdata
  unfold channelInit
  rw [Prog.run_bind, run_getDb, Option.bind_some, hset]
  simp only [hdata]
  rfl

/-- `bTryToSet` and `cModeChr` under a sign: before the first one they are not written. -/
def trying (env : Env) : Option Char → Bool
  | some c => c = '+'
  | none => strAt (env.unwritten .tryToSet) 0 ≠ '\x00'

def signChar (env : Env) (sign : Option Char) : Char :=
  sign.getD (strAt (env.unwritten .modeChr) 0)

/-- The callback for the user of a letter. -/
def UserLetter.item (env : Env) (bot c : CStr) (l : UserLetter) : Option CallbackItem :=
  (l.user bot).map fun pNick =>
    ⟨pNick, .modeResetCb, (CallbackValues.modeReset c (signChar env l.sign) l.letter).data⟩

/-- With this letter the bot gets operator access. -/
def UserLetter.Opens (env : Env) (bot : CStr) (l : UserLetter) : Prop :=
  l.letter = 'o' ∧ trying env l.sign ∧ ∃ pNick ∈ l.param, strcaseeq pNick bot

/-- A routine that adds items, or that has no end if it is stuck. -/
def AddsUnless (env : Env) (p : Quiet Unit) (w : World G) (q items : List CallbackItem)
    (stuck : Prop) : Prop :=
  (¬ stuck → Adds env p w q items) ∧ (stuck → p.run (performQuiet env) w = none)

theorem Adds.before {p r : Quiet Unit} {items items' : List CallbackItem} {stuck : Prop}
    (hp : Adds env p w q items)
    (hr : ∀ w', SameBot w w' → w'.callbackList.Queues (q ++ items) →
      AddsUnless env r w' (q ++ items) items' stuck) :
    AddsUnless env (p >>= fun _ => r) w q (items ++ items') stuck := by
  refine ⟨fun h => hp.bind fun w' hsame hqueues => (hr w' hsame hqueues).1 h, fun h => ?_⟩
  obtain ⟨w₁, hrun₁, hqueues₁, hsame₁⟩ := hp
  rw [Prog.run_bind, hrun₁, Option.bind_some, (hr w₁ hsame₁ hqueues₁).2 h]

theorem AddsUnless.congr {p : Quiet Unit} {items items' : List CallbackItem}
    {stuck stuck' : Prop} (h : AddsUnless env p w q items stuck) (hitems : items = items')
    (hstuck : stuck ↔ stuck') : AddsUnless env p w q items' stuck' := by
  rw [AddsUnless, ← hitems, ← hstuck]
  exact h

theorem addsUnless_botname {f : CStr → Quiet Unit} {items : List CallbackItem} {stuck : Prop}
    (h : AddsUnless env (f w.pBotname) w q items stuck) :
    AddsUnless env (botname >>= f) w q items stuck :=
  ⟨fun hno => adds_botname (h.1 hno),
    fun hstuck => by rw [Prog.run_bind, run_botname, Option.bind_some, h.2 hstuck]⟩

theorem addsUnless_stuck {p r : Quiet Unit} {items : List CallbackItem} {stuck : Prop}
    (h : stuck) (hrun : p.run (performQuiet env) w = none) :
    AddsUnless env (p >>= fun _ => r) w q items stuck :=
  ⟨fun hno => absurd h hno, fun _ => by rw [Prog.run_bind, hrun, Option.bind_none]⟩

/-- Without parameters no letter has one. -/
theorem givenLetters_none {pMode : CStr} {sign : Option Char} :
    ∀ l ∈ givenLetters pMode sign [], l.param = none := by
  intro l hl
  obtain ⟨j, hj⟩ := List.mem_iff_getElem?.mp hl
  exact (givenLetters_param pMode sign [] j l hj).trans rfl

variable {pMsg : MsgItem} {bot c x : CStr} {saved : Prop} {a : Char} {sign : Option Char}
  {ls : List UserLetter} {r : Quiet Unit}

/-- What a loop adds for its letters, and when it is stuck: at a letter that opens a channel
whose record cannot be read. -/
def Resets (env : Env) (bot c : CStr) (saved : Prop) (r : Quiet Unit) (w : World G)
    (q : List CallbackItem) (ls : List UserLetter) : Prop :=
  AddsUnless env r w q (ls.filterMap (·.item env bot c)) (¬ saved ∧ ∃ l ∈ ls, l.Opens env bot)

theorem stuck_cons {l : UserLetter} (hl : l.Opens env bot → saved) :
    (¬ saved ∧ ∃ l ∈ ls, l.Opens env bot) ↔ ¬ saved ∧ ∃ l' ∈ l :: ls, l'.Opens env bot := by
  refine and_congr_right fun hno => ?_
  simp only [List.mem_cons, exists_eq_or_imp]
  exact (or_iff_right fun h => hno (hl h)).symm

/-- A letter for the bot itself. -/
theorem resets_bot (h : w.callbackList.Queues q) (saved_iff : SavedReadable w c ↔ saved)
    (hx : strcaseeq x bot = true)
    (later : ∀ w' q', SameBot w w' → w'.callbackList.Queues q' →
      Resets env bot c saved r w' q' ls) :
    Resets env bot c saved (do
      logger .info "Bot get a new account mode" []
      if trying env sign ∧ a = 'o' then
        channelInit (some c)
        r
      else
        action (some c) (some "needs operator access rights.")
        r) w q (⟨a, sign, some x⟩ :: ls) := by
  have hnobody : ls.filterMap (·.item env bot c) =
      (⟨a, sign, some x⟩ :: ls).filterMap (·.item env bot c) := by
    rw [List.filterMap_cons_none]
    simp only [UserLetter.item, UserLetter.user, Option.filter_some, hx, Bool.not_true,
      Bool.false_eq_true, if_false, Option.map_none]
  refine (adds_talk talks_logger h).before fun w₁ hsame₁ hqueues₁ => ?_
  by_cases hopens : trying env sign = true ∧ a = 'o'
  · rw [if_pos hopens]
    have hl : UserLetter.Opens env bot ⟨a, sign, some x⟩ := ⟨hopens.2, hopens.1, x, rfl, hx⟩
    by_cases hread : saved
    · have hinit := hsame₁.savedReadable.mpr (saved_iff.mpr hread)
      refine (adds_channelInit hqueues₁ hinit).before fun w₂ hsame₂ hqueues₂ => ?_
      exact (later w₂ _ (hsame₁.trans hsame₂) hqueues₂).congr hnobody (stuck_cons fun _ => hread)
    · refine addsUnless_stuck ⟨hread, _, List.mem_cons_self, hl⟩ ?_
      refine run_channelInit_unreadable fun hsaved => hread ?_
      exact saved_iff.mp (hsame₁.savedReadable.mp hsaved)
  · rw [if_neg hopens]
    refine (adds_talk talks_action hqueues₁).before fun w₂ hsame₂ hqueues₂ => ?_
    exact (later w₂ _ (hsame₁.trans hsame₂) hqueues₂).congr hnobody
      (stuck_cons fun hl => absurd ⟨hl.2.1, hl.1⟩ hopens)

/-- A letter for another user. -/
theorem resets_user (h : w.callbackList.Queues q) (hx : ¬ strcaseeq x bot = true)
    (later : ∀ w' q', SameBot w w' → w'.callbackList.Queues q' →
      Resets env bot c saved r w' q' ls) :
    Resets env bot c saved (do
      logger .debug "Added callback routine for the reset of the account modes" []
      registerCallback ⟨x, .modeResetCb, (CallbackValues.modeReset c (signChar env sign) a).data⟩
      r) w q (⟨a, sign, some x⟩ :: ls) := by
  have hitem : (⟨a, sign, some x⟩ :: ls).filterMap (·.item env bot c) =
      [⟨x, .modeResetCb, (CallbackValues.modeReset c (signChar env sign) a).data⟩] ++
        ls.filterMap (·.item env bot c) := by
    rw [List.filterMap_cons_some]
    · rfl
    · simp only [UserLetter.item, UserLetter.user, Option.filter_some, Bool.not_eq_true _ ▸ hx,
        Bool.not_false, if_true, Option.map_some]
  have hother : ¬ UserLetter.Opens env bot ⟨a, sign, some x⟩ := by
    rintro ⟨-, -, pNick, ⟨⟩, hnick⟩
    exact hx hnick
  rw [Resets, hitem]
  refine (adds_talk talks_logger h).before fun w₁ hsame₁ hqueues₁ => ?_
  refine (adds_registerCallback hqueues₁ _).before fun w₂ hsame₂ hqueues₂ => ?_
  exact (later w₂ _ (hsame₁.trans hsame₂) hqueues₂).congr rfl
    (stuck_cons fun hl => absurd hl hother)

/-- What stands where the rest of a line goes. -/
def restOf (params : List CStr) : Option CStr := if params = [] then none else some (unwords params)

/-- Where no letter has a parameter, nothing is to be added. -/
theorem resets_nobody (hnone : ∀ l ∈ ls, l.param = none) (h : Adds env r w q []) :
    Resets env bot c saved r w q ls := by
  refine ⟨fun _ => ?_, fun ⟨_, l, hl, _, _, pNick, hparam, _⟩ => ?_⟩
  · rw [List.filterMap_eq_nil_iff.mpr fun l hl => ?_]
    · exact h
    · rw [UserLetter.item, UserLetter.user, hnone l hl]
      rfl
  · rw [hnone l hl] at hparam
    cases hparam

/-- The loop over the letters. -/
theorem resets_hResetModesLoop (pMode : CStr) (sign : Option Char) (params : List CStr)
    (hparams : ∀ x ∈ params, IsParam x) (w : World G) (q : List CallbackItem)
    (hbot : w.pBotname = bot) (hsaved : SavedReadable w c ↔ saved)
    (h : w.callbackList.Queues q) :
    Resets env bot c saved (hResetModesLoop pMsg (some c) pMode (trying env sign)
      (signChar env sign) (restOf params)) w q (givenLetters pMode sign params) := by
  induction pMode generalizing sign params w q with
  | nil => exact ⟨fun _ => adds_talk (.pure ()) h, fun h => by simp [givenLetters] at h⟩
  | cons a pMode ih =>
    rw [givenLetters]
    unfold hResetModesLoop
    by_cases hplus : a = '+'
    · subst hplus
      rw [if_pos rfl, if_pos (.inl rfl)]
      exact ih (some '+') params hparams w q hbot hsaved h
    rw [if_neg hplus]
    by_cases hminus : a = '-'
    · subst hminus
      rw [if_pos rfl, if_pos (.inr rfl)]
      exact ih (some '-') params hparams w q hbot hsaved h
    rw [if_neg hminus, if_neg (not_or.mpr ⟨hplus, hminus⟩)]
    have later (params' : List CStr) (hparams' : ∀ x ∈ params', IsParam x) (w' : World G)
        (q' : List CallbackItem) (hsame : SameBot w w') (hqueues : w'.callbackList.Queues q') :=
      ih sign params' hparams' w' q' (hsame.pBotname.trans hbot)
        (hsame.savedReadable.trans hsaved) hqueues
    by_cases huser : a = 'o' ∨ a = 'v'
    · rw [if_pos huser, if_pos huser]
      cases params with
      | nil =>
        -- the loop ends here, and there is no parameter for the letters behind
        have hnone : ∀ l ∈ (⟨a, sign, none⟩ : UserLetter) :: givenLetters pMode sign [],
            l.param = none := List.forall_mem_cons.mpr ⟨rfl, givenLetters_none⟩
        exact resets_nobody hnone (adds_talk talks_logger h)
      | cons x rest =>
        have hparams' : ∀ y ∈ leftOver (x :: rest), IsParam y :=
          fun y hy => hparams y (mem_of_mem_leftOver hy)
        have hpRest : some (unwords (leftOver (x :: rest))) = restOf (leftOver (x :: rest)) :=
          (if_neg (leftOver_ne_nil (List.cons_ne_nil _ _))).symm
        rw [restOf, if_neg (List.cons_ne_nil _ _), getFirstPart_unwords hparams,
          List.head?_cons]
        dsimp only
        rw [hpRest]
        refine addsUnless_botname ?_
        rw [hbot]
        by_cases hx : strcaseeq x bot = true
        · rw [if_pos hx]
          exact resets_bot h hsaved hx (later _ hparams')
        · rw [if_neg hx]
          exact resets_user h hx (later _ hparams')
    · rw [if_neg huser, if_neg huser]
      split
      · exact (adds_talk talks_logger h).before (later params hparams · _)
      · split
        · exact later params hparams w q .refl h
        · exact (adds_talk talks_logger h).before (later params hparams · _)

end Loop

/-! ## Lines -/

/-- `:pSender MODE pChannel pMode params`. -/
structure ModeLine where
  pSender : CStr
  pChannel : CStr
  pMode : CStr
  params : List CStr
  sender_word : ' ' ∉ pSender
  channel_word : ' ' ∉ pChannel ∧ '\x00' ∉ pChannel
  mode_word : ' ' ∉ pMode
  params_words : ∀ x ∈ params, IsParam x

namespace ModeLine

def raw (line : ModeLine) : CStr :=
  (':' :: line.pSender) ++ ' ' :: ("MODE".toList ++ ' ' :: (line.pChannel ++ ' ' ::
    (line.pMode ++ ' ' :: unwords line.params)))

/-- The line up to some of its letters. -/
def upTo (line : ModeLine) (i : Nat) : ModeLine :=
  { line with
    pMode := line.pMode.take i
    mode_word := fun h => line.mode_word (List.mem_of_mem_take h) }

/-- The letters of the line with the parameters that belong to them. -/
def letters (line : ModeLine) : List UserLetter := rfcLetters line.pMode none line.params

/-- The callbacks that are due: one for each letter whose parameter is there and not the bot. -/
def due (line : ModeLine) (bot : CStr) : List CallbackItem :=
  line.letters.filterMap (·.due bot line.pChannel)

/-- The parameter that the letter number `j` is given, if the sender is one the bot reads. -/
def given (line : ModeLine) (j : Nat) : Option CStr :=
  if (getNickname (':' :: line.pSender)).isSome then line.params[min j (line.params.length - 1)]?
  else none

/-- The letters of the line with what they are given. -/
def givenLetters (line : ModeLine) : List UserLetter :=
  (Ebotula.givenLetters line.pMode none line.params).map fun l =>
    if (getNickname (':' :: line.pSender)).isSome then l else { l with param := none }

theorem givenLetters_param (line : ModeLine) (j : Nat) :
    ∀ l ∈ line.givenLetters[j]?, l.param = line.given j := by
  intro l hl
  rw [givenLetters, List.getElem?_map] at hl
  obtain ⟨l', hl', rfl⟩ := Option.map_eq_some_iff.mp hl
  rw [given]
  split
  · exact Ebotula.givenLetters_param line.pMode none line.params j l' hl'
  · rfl

theorem letters_agree (line : ModeLine) : line.letters.map (fun l => (l.letter, l.sign)) =
    line.givenLetters.map fun l => (l.letter, l.sign) := by
  rw [letters, givenLetters, List.map_map,
    Ebotula.letters_agree line.pMode none line.params line.params]
  refine List.map_congr_left fun l _ => ?_
  rw [Function.comp_apply]
  split <;> rfl

variable {G : Type} [DbLib G] {env : Env} {w : World G} {q : List CallbackItem} {pMsg : MsgItem}

/-- A line that somebody else has sent. -/
def Foreign (line : ModeLine) (w : World G) : Prop :=
  ∀ pAccessNick ∈ getNickname (':' :: line.pSender), strcaseeq pAccessNick w.pBotname = false

theorem resets_hResetModes (line : ModeLine) (env : Env) (hraw : pMsg.pRawLine = line.raw)
    (foreign : line.Foreign w) (h : w.callbackList.Queues q) :
    Resets env w.pBotname line.pChannel (SavedReadable w line.pChannel) (hResetModes pMsg) w q
      line.givenLetters := by
  have hsender : ' ' ∉ ':' :: line.pSender := by simp [line.sender_word]
  unfold hResetModes
  rw [hraw, raw, getFirstPart_blank hsender (by simp)]
  dsimp only
  rw [rmFirstPart_blank (by decide) (by simp), getFirstPart_blank line.channel_word.1 (by simp)]
  dsimp only
  rw [getFirstPart_before line.mode_word line.params_words, Option.bind_some]
  cases hnick : getNickname (':' :: line.pSender) with
  | none =>
    have hnone : ∀ l ∈ line.givenLetters, l.param = none := by
      intro l hl
      obtain ⟨j, hj⟩ := List.mem_iff_getElem?.mp hl
      rw [line.givenLetters_param j l hj, given, hnick]
      rfl
    exact resets_nobody hnone (adds_talk (.pure ()) h)
  | some pAccessNick =>
    have hgiven : line.givenLetters = Ebotula.givenLetters line.pMode none line.params := by
      rw [givenLetters, hnick]
      exact List.map_id' _
    rw [hgiven]
    refine addsUnless_botname ?_
    rw [foreign pAccessNick hnick, Bool.not_false, if_pos rfl]
    dsimp only
    have hunwritten {place : Unwritten} {f : CStr → Quiet Unit} {items : List CallbackItem}
        {stuck : Prop} (hf : AddsUnless env (f (env.unwritten place)) w q items stuck) :
        AddsUnless env (unwritten place >>= f) w q items stuck := hf
    exact hunwritten (hunwritten (resets_hResetModesLoop line.pMode none line.params
      line.params_words w q rfl .rfl h))

/-- The handler registers what is due for the line. -/
def Served (line : ModeLine) (env : Env) (w : World G) (q : List CallbackItem) : Prop :=
  ∀ pMsg : MsgItem, pMsg.pRawLine = line.raw →
    Adds env (hResetModes pMsg) w q (line.due w.pBotname)

theorem served_iff (line : ModeLine) (foreign : line.Foreign w) (h : w.callbackList.Queues q) :
    line.Served env w q ↔
      line.due w.pBotname =
        line.givenLetters.filterMap (·.item env w.pBotname line.pChannel) ∧
      ∀ l ∈ line.givenLetters, l.Opens env w.pBotname → SavedReadable w line.pChannel := by
  constructor
  · intro served
    let pMsg : MsgItem := ⟨.noneLevel, .prvMsgMode, none, none, none, line.raw, false, none,
      nofun, nofun⟩
    have hraw : pMsg.pRawLine = line.raw := rfl
    obtain ⟨adds, stuck⟩ := line.resets_hResetModes env hraw foreign h
    obtain ⟨w', hrun, hqueues, -⟩ := served pMsg rfl
    have hends : ∀ l ∈ line.givenLetters, l.Opens env w.pBotname →
        SavedReadable w line.pChannel := by
      intro l hl hopens
      by_contra hsaved
      rw [stuck ⟨hsaved, l, hl, hopens⟩] at hrun
      cases hrun
    obtain ⟨w'', hrun', hqueues', -⟩ := adds fun ⟨hsaved, l, hl, hopens⟩ =>
      hsaved (hends l hl hopens)
    cases hrun.symm.trans hrun'
    exact ⟨List.append_cancel_left (hqueues.unique hqueues'), hends⟩
  · rintro ⟨hdue, hends⟩ pMsg hraw
    rw [hdue]
    exact (line.resets_hResetModes env hraw foreign h).1 fun ⟨hsaved, l, hl, hopens⟩ =>
      hsaved (hends l hl hopens)

/-- Letter by letter. -/
theorem served_upTo_iff (line : ModeLine) (foreign : line.Foreign w)
    (h : w.callbackList.Queues q) : (∀ i, (line.upTo i).Served env w q) ↔
      line.letters.map (·.due w.pBotname line.pChannel) =
        line.givenLetters.map (·.item env w.pBotname line.pChannel) ∧
      ∀ l ∈ line.givenLetters, l.Opens env w.pBotname → SavedReadable w line.pChannel := by
  have hlength : line.letters.length = line.givenLetters.length := by
    simpa only [List.length_map] using congrArg List.length line.letters_agree
  have hcut {i k : Nat} (hi : CutAt line.pMode i k) :
      (line.upTo i).letters = line.letters.take k ∧
        (line.upTo i).givenLetters = line.givenLetters.take k := by
    refine ⟨(hi none line.params).1, ?_⟩
    rw [givenLetters, givenLetters, ← List.map_take, ← (hi none line.params).2]
    rfl
  have hserved (i : Nat) : (line.upTo i).Served env w q ↔
      (line.upTo i).due w.pBotname =
        (line.upTo i).givenLetters.filterMap (·.item env w.pBotname line.pChannel) ∧
      ∀ l ∈ (line.upTo i).givenLetters, l.Opens env w.pBotname → SavedReadable w line.pChannel :=
    (line.upTo i).served_iff foreign h
  simp only [hserved, due]
  rw [← filterMap_take_iff hlength, forall_and]
  refine and_congr ⟨fun hall k => ?_, fun hall i => ?_⟩ ⟨fun hall l hl => ?_, fun hall i l hl => ?_⟩
  · obtain ⟨i, hi⟩ := exists_cut line.pMode k
    rw [← (hcut hi).1, ← (hcut hi).2]
    exact hall i
  · obtain ⟨k, hk⟩ := exists_letters line.pMode i
    rw [(hcut hk).1, (hcut hk).2]
    exact hall k
  · obtain ⟨i, hi⟩ := exists_cut line.pMode line.givenLetters.length
    refine hall i l ?_
    rw [(hcut hi).2, List.take_length]
    exact hl
  · obtain ⟨k, hk⟩ := exists_letters line.pMode i
    rw [(hcut hk).2] at hl
    exact hall l (List.mem_of_mem_take hl)

/-- Each letter stands in both readings, with the same sign. -/
theorem getElem?_letters (line : ModeLine) (j : Nat) : line.givenLetters[j]? =
    line.letters[j]?.map fun l => { l with param := line.given j } := by
  have hagree := congrArg (·[j]?) line.letters_agree
  simp only [List.getElem?_map] at hagree
  have hparam := line.givenLetters_param j
  cases hl : line.letters[j]? with
  | none =>
    rw [hl, Option.map_none] at hagree
    exact Option.map_eq_none_iff.mp hagree.symm
  | some l =>
    rw [hl, Option.map_some] at hagree
    obtain ⟨g, hg, hsame⟩ := Option.map_eq_some_iff.mp hagree.symm
    obtain ⟨hletter, hsign⟩ := Prod.mk.inj hsame
    rw [hg, Option.map_some, ← hletter, ← hsign, ← hparam g hg]

/-- Whose mode is reset for the letter number `j`. -/
def givenUser (line : ModeLine) (bot : CStr) (j : Nat) : Option CStr :=
  (line.given j).filter fun pNick => !strcaseeq pNick bot

/-- Every letter is given its own parameter, as far as that is there and not the bot. Before
such a letter stands a sign, and if the bot gets operator access the record of the channel can
be read. -/
structure Pairs (line : ModeLine) (w : World G) : Prop where
  param : ∀ j, ∀ l ∈ line.letters[j]?, l.user w.pBotname = line.givenUser w.pBotname j
  sign : ∀ l ∈ line.letters, (l.user w.pBotname).isSome → l.sign.isSome
  saved : ∀ j, ∀ l ∈ line.letters[j]?, l.letter = 'o' → l.sign ≠ some '-' →
    (∃ pNick ∈ line.given j, strcaseeq pNick w.pBotname) → SavedReadable w line.pChannel

/-- With a sign, the data is the channel and the sign. -/
theorem data_eq (line : ModeLine) {c : Char} (hc : c ≠ '\x00') (letter : Char) :
    (CallbackValues.modeReset line.pChannel c letter).data = line.pChannel ++ [' ', c] := by
  rw [CallbackValues.data_modeReset, cString, List.takeWhile_eq_self_iff]
  intro a ha
  refine decide_eq_true fun hnul => ?_
  subst hnul
  rcases List.mem_append.mp ha with ha | ha
  · exact line.channel_word.2 ha
  · simp only [List.mem_cons, List.not_mem_nil, or_false] at ha
    exact ha.elim (by decide) fun h => hc h.symm

end ModeLine

theorem ModeLine.letters_sign (line : ModeLine) :
    ∀ l ∈ line.letters, ∀ c ∈ l.sign, c = '+' ∨ c = '-' :=
  rfcLetters_sign fun c hc => by cases hc

/-- The callback for what the letter number `j` is given. -/
theorem ModeLine.item_given (line : ModeLine) (env : Env) (bot : CStr) (j : Nat)
    (l : UserLetter) : UserLetter.item env bot line.pChannel { l with param := line.given j } =
      (line.givenUser bot j).map fun pNick => ⟨pNick, .modeResetCb,
        (CallbackValues.modeReset line.pChannel (signChar env l.sign) l.letter).data⟩ := rfl

/-- A machine on which everything that was not written reads `x`. -/
def scribbledEnv : Env := { calmEnv with unwritten := fun _ => "x" }

/-- Every letter of a line, told apart by cutting the line off behind it, gets the callback that
is due for it, on every machine, exactly where the words are paired as they should be. -/
theorem mode_letters_paired {G : Type} [DbLib G] {w : World G} {q : List CallbackItem}
    (h : w.callbackList.Queues q) (line : ModeLine) (foreign : line.Foreign w) :
    (∀ env i, (line.upTo i).Served env w q) ↔ line.Pairs w := by
  constructor
  · intro served
    have all (env : Env) := (line.served_upTo_iff foreign h).mp (served env)
    have hitem (env : Env) {j : Nat} {l : UserLetter} (hl : line.letters[j]? = some l) :
        l.due w.pBotname line.pChannel = (line.givenUser w.pBotname j).map fun pNick =>
          ⟨pNick, .modeResetCb,
            (CallbackValues.modeReset line.pChannel (signChar env l.sign) l.letter).data⟩ := by
      rw [← line.item_given]
      have hj := congrArg (·[j]?) (all env).1
      simpa only [List.getElem?_map, line.getElem?_letters, hl, Option.map_some,
        Option.some.injEq] using hj
    have hparam (j : Nat) (l : UserLetter) (hl : line.letters[j]? = some l) :
        l.user w.pBotname = line.givenUser w.pBotname j := by
      have hnick := congrArg (Option.map CallbackItem.nickname) (hitem calmEnv hl)
      simpa only [UserLetter.due, Option.map_map, Function.comp_def, Option.map_id'] using hnick
    refine ⟨hparam, fun l hl huser => ?_, fun j l hl hletter hsign hbot => ?_⟩
    · by_contra hsign
      rw [Option.not_isSome_iff_eq_none] at hsign
      obtain ⟨j, hj⟩ := List.mem_iff_getElem?.mp hl
      obtain ⟨pNick, hnick⟩ := Option.isSome_iff_exists.mp huser
      have hdata := congrArg (Option.map CallbackItem.data) (hitem scribbledEnv hj)
      rw [← hparam j l hj, hnick, UserLetter.due, hnick, hsign] at hdata
      have hdata := Option.some.inj hdata
      rw [show signChar scribbledEnv none = 'x' from rfl, line.data_eq (by decide)] at hdata
      exact absurd (List.append_cancel_left hdata) (by decide)
    · refine (all scribbledEnv).2 { l with param := line.given j } ?_ ⟨hletter, ?_, hbot⟩
      · refine List.mem_of_getElem? (i := j) ?_
        rw [line.getElem?_letters, hl, Option.map_some]
      · cases hs : l.sign with
        | none => rfl
        | some c =>
          have hmem := line.letters_sign l (List.mem_of_getElem? hl) c hs
          exact decide_eq_true (hmem.resolve_right fun hc => hsign (hc ▸ hs))
  · intro pairs env
    refine (line.served_upTo_iff foreign h).mpr
      ⟨List.ext_getElem? fun j => ?_, fun g hg hopens => ?_⟩
    · rw [List.getElem?_map, List.getElem?_map, line.getElem?_letters]
      cases hl : line.letters[j]? with
      | none => rfl
      | some l =>
        refine congrArg some ?_
        dsimp only
        rw [line.item_given, ← pairs.param j l hl, UserLetter.due]
        cases hnick : l.user w.pBotname with
        | none => rfl
        | some pNick =>
          have hl' := List.mem_of_getElem? hl
          obtain ⟨c, hsign⟩ := Option.isSome_iff_exists.mp (pairs.sign l hl' (hnick ▸ rfl))
          have hc : c ≠ '\x00' := by
            rcases line.letters_sign l hl' c hsign with rfl | rfl <;> decide
          simp only [hsign, signChar, Option.getD_some, Option.map_some, line.data_eq hc]
    · obtain ⟨j, hj⟩ := List.mem_iff_getElem?.mp hg
      rw [line.getElem?_letters] at hj
      obtain ⟨l, hl, rfl⟩ := Option.map_eq_some_iff.mp hj
      obtain ⟨hletter, htry, hbot⟩ := hopens
      refine pairs.saved j l hl hletter (fun hsign => ?_) hbot
      rw [hsign] at htry
      cases htry

/-- A line of `alice` with its letters and parameters. -/
def aliceLine (pMode : CStr) (params : List CStr) (hmode : ' ' ∉ pMode)
    (hparams : ∀ x ∈ params, IsParam x) : ModeLine :=
  ⟨"alice!a@h", "#c", pMode, params, by decide, by decide, hmode, hparams⟩

/-- Two letters with a parameter each. -/
def opAndVoice : ModeLine := aliceLine "+ov" ["bob", "carol"] (by decide) (by decide)

theorem aliceLine_foreign {pMode : CStr} {params : List CStr} {hmode : ' ' ∉ pMode}
    {hparams : ∀ x ∈ params, IsParam x} :
    (aliceLine pMode params hmode hparams).Foreign freshBot := by
  have halice : getNickname (':' :: "alice!a@h".toList) = some "alice" := by decide +kernel
  intro pAccessNick hnick
  obtain rfl : "alice".toList = pAccessNick := Option.some.inj (halice.symm.trans hnick)
  decide

/-- Both users are looked up, each for its own letter. -/
theorem mode_letters_paired_voice : (opAndVoice.upTo 3).Served calmEnv freshBot [] := by
  refine (mode_letters_paired CallbackDList.init_queues opAndVoice aliceLine_foreign).mpr ?_ _ _
  have hletters : opAndVoice.letters =
      [⟨'o', some '+', some "bob"⟩, ⟨'v', some '+', some "carol"⟩] := by decide +kernel
  have hgiven : opAndVoice.given 0 = some "bob" ∧ opAndVoice.given 1 = some "carol" := by
    decide +kernel
  refine ⟨fun j l hl => ?_, fun l hl _ => ?_, fun j l hl _ _ ⟨pNick, hnick, hbot⟩ => ?_⟩
  · rw [hletters] at hl
    match j, hl with
    | 0, rfl =>
      rw [ModeLine.givenUser, hgiven.1]
      rfl
    | 1, rfl =>
      rw [ModeLine.givenUser, hgiven.2]
      rfl
  · rw [hletters, List.mem_cons, List.mem_singleton] at hl
    rcases hl with rfl | rfl <;> rfl
  · rw [hletters] at hl
    match j, hl with
    | 0, rfl =>
      cases hgiven.1.symm.trans hnick
      exact absurd hbot (by decide)
    | 1, rfl =>
      cases hgiven.2.symm.trans hnick
      exact absurd hbot (by decide)

/-- A ban in front of the letter takes the parameter of the letter away from it. -/
def banAndOp : ModeLine := aliceLine "+bo" ["*!*@h", "bob"] (by decide) (by decide)

/-- The mask is looked up instead of the user. -/
theorem ban_takes_parameter :
    banAndOp.due "ebotula" = [⟨"bob", .modeResetCb, "#c +"⟩] ∧
      banAndOp.givenLetters.filterMap (·.item calmEnv "ebotula" "#c") =
        [⟨"*!*@h", .modeResetCb, "#c +"⟩] ∧
      ¬ banAndOp.Served calmEnv freshBot [] := by
  have hdue : banAndOp.due "ebotula" = [⟨"bob", .modeResetCb, "#c +"⟩] := by decide +kernel
  have hgiven : banAndOp.givenLetters.filterMap (·.item calmEnv "ebotula" "#c") =
      [⟨"*!*@h", .modeResetCb, "#c +"⟩] := by decide +kernel
  refine ⟨hdue, hgiven, fun served => ?_⟩
  have heq := ((banAndOp.served_iff aliceLine_foreign CallbackDList.init_queues).mp served).1
  exact absurd (hdue.symm.trans (heq.trans hgiven)) (by decide)

end Ebotula
