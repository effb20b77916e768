import Ebotula.Laws.AccountMode
import Ebotula.Laws.Sending
import Mathlib.Algebra.Order.BigOperators.Group.List
import Mathlib.Algebra.Order.Group.Nat

/-!
# The account list of a master

Without an argument a master gets a line for every other master and a line for every right that
another account has in a channel. Each line is composed in a block of its own, whose size is an
`unsigned int`, and then handed to `sendMsg`, as its format. What a routine hands to `sendMsg` is a
list of texts (`Hands`), and such lists go together as the routines do; a text that asks for an
argument, or has no room in the buffer of `sendMsg`, is where the bot ends.
-/

set_option autoImplicit false

namespace Ebotula

open Library

variable {G : Type} [DbLib G] {env : Env} {w : World G} {pMsg : MsgItem} {n : CStr}

/-! ## Texts for `sendMsg` -/

/-- The line that a printed text comes to. -/
def answerLine (pMsg : MsgItem) (n printed : CStr) : CStr :=
  match pMsg.answerMode with
  | .noticeMode => noticeLine n (cString printed)
  | .prvMsgMode => privmsgLine n (cString printed)

/-- The lines for some texts without arguments. -/
def answerLines (pMsg : MsgItem) (n : CStr) (texts : List CStr) : List CStr :=
  texts.map fun text => answerLine pMsg n ((vsprintf text []).getD [])

/-- None of the texts asks for an argument, and what is printed has room in the buffer. -/
def Printable (texts : List CStr) : Prop :=
  ∀ text ∈ texts, (vsprintf text []).any fun printed => printed.length < 2 ^ 10

theorem printable_append {texts texts' : List CStr} :
    Printable (texts ++ texts') ↔ Printable texts ∧ Printable texts' := List.forall_mem_append

/-- The routine hands these texts to `sendMsg`, one after the other. -/
structure Hands (env : Env) (pMsg : MsgItem) (n : CStr) (p : Quiet Unit) (w : World G)
    (texts : List CStr) : Prop where
  ends : Printable texts → ∃ w', p.run (performQuiet env) w = some ((), w') ∧ w'.db = w.db ∧
    w'.sent = w.sent ++ answerLines pMsg n texts
  stuck : ¬ Printable texts → p.run (performQuiet env) w = none

namespace Hands

/-- A routine that hands nothing over. -/
theorem quiet {p : Quiet Unit} {w' : World G} (hrun : p.run (performQuiet env) w = some ((), w'))
    (hdb : w'.db = w.db) (hsent : w'.sent = w.sent) : Hands env pMsg n p w [] :=
  ⟨fun _ => ⟨w', hrun, hdb, by rw [hsent]; exact (List.append_nil _).symm⟩,
    fun h => absurd (fun _ => nofun) h⟩

theorem bind {p q : Quiet Unit} {texts texts' : List CStr} (hp : Hands env pMsg n p w texts)
    (hq : ∀ w' : World G, w'.db = w.db → Hands env pMsg n q w' texts') :
    Hands env pMsg n (p >>= fun _ => q) w (texts ++ texts') := by
  by_cases hprint : Printable texts
  · obtain ⟨w₁, hrun₁, hdb₁, hsent₁⟩ := hp.ends hprint
    refine ⟨fun h => ?_, fun h => ?_⟩
    · obtain ⟨w₂, hrun₂, hdb₂, hsent₂⟩ := (hq w₁ hdb₁).ends (printable_append.mp h).2
      refine ⟨w₂, ?_, hdb₂.trans hdb₁, ?_⟩
      · rw [Prog.run_bind, hrun₁, Option.bind_some, hrun₂]
      · rw [hsent₂, hsent₁, List.append_assoc, answerLines, answerLines, answerLines,
          List.map_append]
    · rw [Prog.run_bind, hrun₁, Option.bind_some]
      exact (hq w₁ hdb₁).stuck fun h' => h (printable_append.mpr ⟨hprint, h'⟩)
  · refine ⟨fun h => absurd (printable_append.mp h).1 hprint, fun _ => ?_⟩
    rw [Prog.run_bind, hp.stuck hprint, Option.bind_none]

/-- A routine that hands nothing over comes first. -/
theorem after {p q : Quiet Unit} {texts : List CStr} (hp : Hands env pMsg n p w [])
    (hq : ∀ w' : World G, w'.db = w.db → Hands env pMsg n q w' texts) :
    Hands env pMsg n (p >>= fun _ => q) w texts := hp.bind hq

/-- A question that changes nothing comes first. -/
theorem ask {α : Type} {p : Quiet α} {f : α → Quiet Unit} {a : α} {texts : List CStr}
    (hrun : p.run (performQuiet env) w = some (a, w)) (h : Hands env pMsg n (f a) w texts) :
    Hands env pMsg n (p >>= f) w texts := by
  have hbind : (p >>= f).run (performQuiet env) w = (f a).run (performQuiet env) w := by
    rw [Prog.run_bind, hrun, Option.bind_some]
  exact ⟨fun hprint => hbind ▸ h.ends hprint, fun hprint => hbind ▸ h.stuck hprint⟩

theorem forEach {β : Type} {l : List β} {body : β → Quiet Unit} {texts : β → List CStr}
    (h : ∀ x ∈ l, ∀ w' : World G, w'.db = w.db → Hands env pMsg n (body x) w' (texts x)) :
    Hands env pMsg n (Prog.forEach body l) w (l.flatMap texts) := by
  induction l generalizing w with
  | nil => exact quiet rfl rfl rfl
  | cons x l ih =>
    rw [Prog.forEach, List.flatMap_cons]
    refine (h x List.mem_cons_self w rfl).bind fun w' hdb => ?_
    exact ih fun y hy w'' hdb' => h y (List.mem_cons_of_mem _ hy) w'' (hdb'.trans hdb)

end Hands

theorem hands_logger {priority : LogLevel} {format : CStr} {args : List FmtArg} :
    Hands env pMsg n (logger priority format args) w [] := .quiet run_logger rfl rfl

theorem hands_sendListLine (hnick : pMsg.pCallingNick = some n) (text : CStr) :
    Hands env pMsg n (sendListLine pMsg text) w [text] := by
  have hone : Printable [text] ↔
      (vsprintf text []).any (fun printed => printed.length < 2 ^ 10) = true :=
    List.forall_mem_singleton
  have hsend (printed : CStr) : (sendText pMsg.answerMode (some n) printed).run
      (performQuiet env) w = some ((), w.sending env (answerLine pMsg n printed)) := by
    unfold sendText answerLine
    cases pMsg.answerMode with
    | noticeMode => exact run_notice
    | prvMsgMode => exact run_privmsg
  unfold sendListLine sendMsg
  rw [hnick]
  refine ⟨fun h => ?_, fun h => ?_⟩
  · obtain ⟨printed, hprinted, hroom⟩ := (Option.any_eq_true _ _).mp (hone.mp h)
    rw [hprinted]
    dsimp only
    rw [if_pos (of_decide_eq_true hroom)]
    refine ⟨_, hsend printed, rfl, ?_⟩
    rw [answerLines, List.map_singleton, hprinted]
    rfl
  · rw [hone] at h
    cases hprinted : vsprintf text [] with
    | none => exact run_crash
    | some printed =>
      rw [hprinted, Option.any_some, decide_eq_true_eq] at h
      dsimp only
      rw [if_neg h]
      exact run_crash

/-- A text of the source that has room. -/
theorem hands_answer (hnick : pMsg.pCallingNick = some n) (text : CStr)
    (h : (vsprintf text []).any (fun printed => printed.length < 2 ^ 10) = true) :
    Hands env pMsg n (answer pMsg text []) w [text] := by
  obtain ⟨printed, hprinted, hroom⟩ := (Option.any_eq_true _ _).mp h
  rw [answer_eq_sendMsg hprinted (of_decide_eq_true hroom)]
  exact hands_sendListLine hnick text

/-! ## The texts of the list -/

/-- The text for a master. -/
def masterText (dbs : Databases G) (pLogin : CStr) : CStr :=
  accountListFill pLogin ++ " Master   Status:".toList ++
    (if dbs.existDb .userToNick (some pLogin) then " ON ".toList else " OFF".toList)

/-- The text for an account with a right. -/
def rightText (dbs : Databases G) (pLogin right : CStr) : CStr :=
  accountListFill pLogin ++ right ++ "   Status: ".toList ++
    (if dbs.existDb .userToNick (some pLogin) then "ON ".toList else "OFF".toList)

/-- The right in a channel that the second character of a record stands for. -/
def rightIn (pChannel : CStr) (c : Char) : Option CStr :=
  if c = 'o' then some (" Owner of ".toList ++ pChannel)
  else if c = 'v' then some (" Friend of ".toList ++ pChannel)
  else none

/-- The texts for an account and a channel, if `second` is the second character of a record. -/
def channelTexts (second : CStr → Option Char) (dbs : Databases G) (pLogin pChannel : CStr) :
    List CStr :=
  (((dbs.getDb .access (some (pLogin ++ pChannel))).bind fun pMod =>
    (second pMod).bind (rightIn pChannel)).map (rightText dbs pLogin)).toList

/-- The texts for an account: one if it is a master, and else those of all channels. -/
def accountTexts (second : CStr → Option Char) (dbs : Databases G) (pLogin : CStr) : List CStr :=
  if dbs.existDb .access (some pLogin) then [masterText dbs pLogin]
  else (dbs.listDb .channel).reverse.flatMap (channelTexts second dbs pLogin)

/-- The whole list. -/
def listTexts (second : CStr → Option Char) (dbs : Databases G) : List CStr :=
  "Account list:".toList :: ((dbs.listDb .user).flatMap (accountTexts second dbs) ++
    ["End of the account list.".toList])

section Texts

variable (hnick : pMsg.pCallingNick = some n)

include hnick

/-- The line for one right, if `accountListUser` knows a word for it. -/
theorem hands_rightLine (pLogin : CStr) (right : Option CStr) : Hands env pMsg n (do
    let status : CStr := if ← existDb .userToNick (some pLogin) then "ON " else "OFF"
    match right with
    | none => return
    | some right =>
      sendListLine pMsg (accountListFill pLogin ++ right ++ "   Status: ".toList ++ status)) w
    (right.map (rightText w.db pLogin)).toList := by
  refine .ask run_existDb ?_
  cases right with
  | none => exact .quiet rfl rfl rfl
  | some right => exact hands_sendListLine hnick _

theorem hands_accountListUser (pLogin pChannel : CStr) :
    Hands env pMsg n (accountListUser pMsg pLogin pChannel) w
      (channelTexts (fun pMod => some (charBehind env pMod)) w.db pLogin pChannel) := by
  unfold accountListUser
  refine .ask run_getDb ?_
  rw [channelTexts]
  cases w.db.getDb .access (some (pLogin ++ pChannel)) with
  | none => exact hands_rightLine hnick pLogin none
  | some pMod =>
    refine .ask run_secondChar ?_
    rw [Option.bind_some, Option.bind_some, rightIn]
    split
    · exact hands_rightLine hnick pLogin (some _)
    · split
      · exact hands_rightLine hnick pLogin (some _)
      · exact hands_rightLine hnick pLogin none

theorem hands_accountListMaster (pLogin : CStr) :
    Hands env pMsg n (accountListMaster pMsg (w.db.listDb .channel) pLogin) w
      (accountTexts (fun pMod => some (charBehind env pMod)) w.db pLogin) := by
  unfold accountListMaster
  refine .ask run_existDb ?_
  rw [accountTexts]
  split
  · refine .ask run_existDb ?_
    exact hands_sendListLine hnick _
  · have loop {w₁ : World G} (h₁ : w₁.db = w.db) : Hands env pMsg n
        (Prog.forEach (accountListUser pMsg pLogin) (w.db.listDb .channel).reverse) w₁
        ((w.db.listDb .channel).reverse.flatMap
          (channelTexts (fun pMod => some (charBehind env pMod)) w.db pLogin)) :=
      .forEach fun pChannel _ w₂ h₂ => h₁ ▸ h₂ ▸ hands_accountListUser hnick pLogin pChannel
    split
    · exact hands_logger.after fun w₁ h₁ => loop h₁
    · exact loop rfl

/-- What the list comes to, with the second characters as they are read. -/
theorem hands_accountlist (hmaster : pMsg.userLevel = .masterLevel)
    (hargument : (getArgument pMsg.pRawLine).1 = none) :
    Hands env pMsg n (accountlist pMsg) w
      (listTexts (fun pMod => some (charBehind env pMod)) w.db) := by
  unfold accountlist
  refine .ask run_listDb ?_
  rw [if_pos ⟨hmaster, by rw [hargument]; rfl⟩]
  refine (hands_answer hnick _ (by decide +kernel)).bind fun w₁ h₁ => ?_
  refine hands_logger.after fun w₂ h₂ => ?_
  refine .ask run_listDb ?_
  rw [h₂, h₁]
  refine Hands.bind (.forEach fun pLogin _ w₃ h₃ => ?_) fun w₃ _ =>
    hands_answer hnick _ (by decide +kernel)
  have hdb : w₃.db = w.db := h₃.trans (h₂.trans h₁)
  exact hdb ▸ hands_accountListMaster hnick pLogin

end Texts

/-! ## The blocks of the lines -/

/-- `malloc((iLoginTab+22)*sizeof(char))`. -/
def masterSize (pLogin : CStr) : ℕ := toUnsigned (iLoginTab pLogin + 22)

/-- `malloc((iLoginTab+iChanLen+26)*sizeof(char))`; the length of the channel counts its NUL. -/
def rightSize (pLogin pChannel : CStr) : ℕ :=
  toUnsigned (iLoginTab pLogin + toUnsigned (pChannel.length + 1) + 26)

/-- What is written into the block for an account and a channel: a right or none. -/
def RightWritten (pChannel right : CStr) : Prop := right = [] ∨ ∃ c, rightIn pChannel c = some right

theorem length_accountListFill (pLogin : CStr) : (accountListFill pLogin).length =
    pLogin.length + (iLoginTab pLogin - iLoginLen pLogin) := by
  rw [accountListFill, List.length_append, List.length_replicate]

variable {dbs : Databases G} {pLogin pChannel right : CStr}

/-- The line of a master has room in its block exactly if the size of the block can be counted. -/
theorem length_masterText : (masterText dbs pLogin).length < masterSize pLogin ↔
    max 16 (pLogin.length + 1) + 22 < 2 ^ 32 := by
  have hlength : (masterText dbs pLogin).length = (accountListFill pLogin).length + 21 := by
    rw [masterText, List.length_append, List.length_append]
    split <;> rfl
  rw [hlength, length_accountListFill, masterSize, iLoginTab, iLoginLen, toUnsigned, toUnsigned]
  split <;> omega

theorem length_rightText :
    (rightText dbs pLogin right).length = (accountListFill pLogin).length + right.length + 14 := by
  rw [rightText, List.length_append, List.length_append, List.length_append]
  split <;> rfl

/-- A right has at most the length of an owner's. -/
theorem length_right (h : RightWritten pChannel right) : right.length ≤ pChannel.length + 11 := by
  rcases h with rfl | ⟨c, hc⟩
  · exact Nat.zero_le _
  · rw [rightIn] at hc
    split at hc
    · obtain rfl := Option.some.inj hc
      rw [List.length_append, Nat.add_comm]
      exact Nat.add_le_add_left (by decide) _
    · split at hc
      · obtain rfl := Option.some.inj hc
        rw [List.length_append, Nat.add_comm]
        exact Nat.add_le_add_left (by decide) _
      · cases hc

/-- So have the lines of the rights. -/
theorem rightText_fits_iff : (∀ right, RightWritten pChannel right →
      (rightText dbs pLogin right).length < rightSize pLogin pChannel) ↔
    max 16 (pLogin.length + 1) + (pChannel.length + 1) + 26 < 2 ^ 32 := by
  constructor
  · intro h
    have howner := h _ (.inr ⟨'o', rfl⟩)
    rw [length_rightText, length_accountListFill, rightSize, List.length_append, iLoginTab,
      iLoginLen, toUnsigned, toUnsigned, toUnsigned] at howner
    have hten : " Owner of ".toList.length = 10 := rfl
    rw [hten] at howner
    split at howner <;> omega
  · intro h right hright
    have hle := length_right hright
    rw [length_rightText, length_accountListFill, rightSize, iLoginTab, iLoginLen, toUnsigned,
      toUnsigned, toUnsigned]
    split <;> omega

/-! ## Every account once -/

/-- What the list of a master is to be: it ends, it is handed over text by text, in each account
once, and every text that is composed for an account has room in its block. -/
structure ListsAccounts (env : Env) (pMsg : MsgItem) (n : CStr) (w : World G) : Prop where
  lines : ∃ w', (accountlist pMsg).run (performQuiet env) w = some ((), w') ∧
    w'.sent = w.sent ++ answerLines pMsg n (listTexts (·[1]?) w.db)
  once : (w.db.listDb .user).Nodup ∧ (w.db.listDb .channel).Nodup
  room : ∀ pLogin ∈ w.db.listDb .user,
    if w.db.existDb .access (some pLogin) then
      (masterText w.db pLogin).length < masterSize pLogin
    else ∀ pChannel ∈ w.db.listDb .channel, ∀ right, RightWritten pChannel right →
      (rightText w.db pLogin right).length < rightSize pLogin pChannel

/-- No size of a block is too large for an `unsigned int`: neither that for the line of a master,
nor that for a channel and an account that is no master. -/
def SizesCounted (dbs : Databases G) : Prop :=
  ∀ pLogin ∈ dbs.listDb .user,
    if dbs.existDb .access (some pLogin) then max 16 (pLogin.length + 1) + 22 < 2 ^ 32
    else ∀ pChannel ∈ dbs.listDb .channel,
      max 16 (pLogin.length + 1) + (pChannel.length + 1) + 26 < 2 ^ 32

instance (dbs : Databases G) : Decidable (SizesCounted dbs) :=
  inferInstanceAs (Decidable (∀ _ ∈ _, _))

/-- A record without a second character is not taken for a right: there is none under the keys of
accounts that are no masters, or what stands behind it in memory is neither an o nor a v. -/
def NoStray (env : Env) (dbs : Databases G) : Prop :=
  ∀ pLogin ∈ dbs.listDb .user, dbs.existDb .access (some pLogin) = false →
    ∀ pChannel ∈ dbs.listDb .channel,
      dbs.getDb .access (some (pLogin ++ pChannel)) = some [] →
        charBehind env [] ≠ 'o' ∧ charBehind env [] ≠ 'v'

section Stray

variable (env) (dbs pLogin pChannel)

/-- The second character of a record is read right unless the record is empty. -/
theorem channelTexts_cases :
    channelTexts (fun pMod => some (charBehind env pMod)) dbs pLogin pChannel =
        channelTexts (·[1]?) dbs pLogin pChannel ∨
      dbs.getDb .access (some (pLogin ++ pChannel)) = some [] ∧
        (charBehind env [] = 'o' ∨ charBehind env [] = 'v') ∧
        channelTexts (·[1]?) dbs pLogin pChannel = [] ∧
        (channelTexts (fun pMod => some (charBehind env pMod)) dbs pLogin pChannel).length = 1 := by
  rw [channelTexts, channelTexts]
  cases dbs.getDb .access (some (pLogin ++ pChannel)) with
  | none => exact .inl rfl
  | some pMod =>
    match pMod with
    | [] =>
      rw [Option.bind_some, Option.bind_some, Option.bind_some, rightIn]
      by_cases ho : charBehind env [] = 'o'
      · exact .inr ⟨rfl, .inl ho, rfl, by rw [if_pos ho]; rfl⟩
      · by_cases hv : charBehind env [] = 'v'
        · exact .inr ⟨rfl, .inr hv, rfl, by rw [if_neg ho, if_pos hv]; rfl⟩
        · left
          rw [if_neg ho, if_neg hv]
          rfl
    | [_] => exact .inl rfl
    | _ :: _ :: _ => exact .inl rfl

theorem length_channelTexts_le : (channelTexts (·[1]?) dbs pLogin pChannel).length ≤
    (channelTexts (fun pMod => some (charBehind env pMod)) dbs pLogin pChannel).length := by
  rcases channelTexts_cases env dbs pLogin pChannel with heq | ⟨-, -, hnone, -⟩
  · rw [heq]
  · rw [hnone]
    exact Nat.zero_le _

theorem length_accountTexts_le : (accountTexts (·[1]?) dbs pLogin).length ≤
    (accountTexts (fun pMod => some (charBehind env pMod)) dbs pLogin).length := by
  rw [accountTexts, accountTexts]
  split
  · exact le_rfl
  · rw [List.length_flatMap, List.length_flatMap]
    exact List.sum_le_sum fun pChannel _ => length_channelTexts_le env dbs pLogin pChannel

end Stray

/-- Lists that are nowhere longer and have as many elements together are everywhere as long. -/
theorem length_eq_of_flatMap {α β : Type} {f g : α → List β} {l : List α}
    (hle : ∀ x ∈ l, (g x).length ≤ (f x).length)
    (heq : (l.flatMap f).length = (l.flatMap g).length) :
    ∀ x ∈ l, (f x).length = (g x).length := by
  induction l with
  | nil => exact nofun
  | cons a l ih =>
    rw [List.forall_mem_cons] at hle
    have hrest : (l.flatMap g).length ≤ (l.flatMap f).length := by
      rw [List.length_flatMap, List.length_flatMap]
      exact List.sum_le_sum hle.2
    rw [List.flatMap_cons, List.flatMap_cons, List.length_append, List.length_append] at heq
    rw [List.forall_mem_cons]
    exact ⟨by omega, ih hle.2 (by omega)⟩

/-- Without a stray right the list is composed as it is to be. -/
theorem listTexts_eq (h : NoStray env dbs) :
    listTexts (fun pMod => some (charBehind env pMod)) dbs = listTexts (·[1]?) dbs := by
  have haccount : ∀ pLogin ∈ dbs.listDb .user,
      accountTexts (fun pMod => some (charBehind env pMod)) dbs pLogin =
        accountTexts (·[1]?) dbs pLogin := by
    intro pLogin hlogin
    rw [accountTexts, accountTexts]
    split
    · rfl
    · next hmaster =>
      refine List.flatMap_congr fun pChannel hchannel => ?_
      rcases channelTexts_cases env dbs pLogin pChannel with heq | ⟨hempty, hchar, -⟩
      · exact heq
      · have hnone := h pLogin hlogin ((Bool.not_eq_true _).mp hmaster) pChannel
          (List.mem_reverse.mp hchannel) hempty
        exact (hchar.elim hnone.1 hnone.2).elim
  rw [listTexts, listTexts, List.flatMap_congr haccount]

/-- A stray right is a text too many. -/
theorem noStray_of_length
    (h : (listTexts (fun pMod => some (charBehind env pMod)) dbs).length =
      (listTexts (·[1]?) dbs).length) : NoStray env dbs := by
  rw [listTexts, listTexts, List.length_cons, List.length_cons, List.length_append,
    List.length_append, Nat.add_right_cancel_iff, Nat.add_right_cancel_iff] at h
  intro pLogin hlogin hmaster pChannel hchannel hempty
  have haccount := length_eq_of_flatMap (fun pLogin _ => length_accountTexts_le env dbs pLogin) h
    pLogin hlogin
  rw [accountTexts, accountTexts, hmaster, if_neg Bool.false_ne_true,
    if_neg Bool.false_ne_true] at haccount
  have hone := length_eq_of_flatMap
    (fun pChannel _ => length_channelTexts_le env dbs pLogin pChannel) haccount pChannel
    (List.mem_reverse.mpr hchannel)
  rw [channelTexts, channelTexts, hempty] at hone
  refine ⟨fun hchar => ?_, fun hchar => ?_⟩
  · rw [Option.bind_some, Option.bind_some, hchar] at hone
    cases hone
  · rw [Option.bind_some, Option.bind_some, hchar] at hone
    cases hone

/-- Every text that is composed has room in its block exactly if the sizes can be counted. -/
theorem room_iff : (∀ pLogin ∈ dbs.listDb .user,
      if dbs.existDb .access (some pLogin) then
        (masterText dbs pLogin).length < masterSize pLogin
      else ∀ pChannel ∈ dbs.listDb .channel, ∀ right, RightWritten pChannel right →
        (rightText dbs pLogin right).length < rightSize pLogin pChannel) ↔ SizesCounted dbs := by
  refine forall₂_congr fun pLogin _ => ?_
  split
  · exact length_masterText
  · exact forall₂_congr fun pChannel _ => rightText_fits_iff

/-- A master gets the list as it is to be if and only if there is no stray right, each text of the
list can be printed without arguments and has room in the buffer, and the sizes of the blocks can
be counted. -/
theorem accountlist_complete_iff (hmaster : pMsg.userLevel = .masterLevel)
    (hargument : (getArgument pMsg.pRawLine).1 = none) (hnick : pMsg.pCallingNick = some n) :
    ListsAccounts env pMsg n w ↔
      NoStray env w.db ∧ Printable (listTexts (·[1]?) w.db) ∧ SizesCounted w.db := by
  have hands : Hands env pMsg n (accountlist pMsg) w _ := hands_accountlist hnick hmaster hargument
  constructor
  · rintro ⟨⟨w', hrun, hsent⟩, -, hroom⟩
    have hprint : Printable (listTexts (fun pMod => some (charBehind env pMod)) w.db) := by
      by_contra h
      rw [hands.stuck h] at hrun
      cases hrun
    obtain ⟨w₁, hrun₁, -, hsent₁⟩ := hands.ends hprint
    rw [hrun₁] at hrun
    cases hrun
    have hlines := List.append_cancel_left (hsent₁.symm.trans hsent)
    have hstray := noStray_of_length (by
      simpa only [answerLines, List.length_map] using congrArg List.length hlines)
    exact ⟨hstray, listTexts_eq hstray ▸ hprint, room_iff.mp hroom⟩
  · rintro ⟨hstray, hprint, hsizes⟩
    rw [listTexts_eq hstray] at hands
    obtain ⟨w', hrun, -, hsent⟩ := hands.ends hprint
    exact ⟨⟨w', hrun, hsent⟩, ⟨Table.nodup_keys _, Table.nodup_keys _⟩, room_iff.mpr hsizes⟩

/-! ## Two bots with an owner -/

/-- The master asks for the list. -/
def rootAsks : MsgItem := fillItem ":root!r@h PRIVMSG ebotula :!accountlist" .masterLevel true

/-- The lines of a bot with a master and the owner of a channel with a percent sign. -/
def percentChannel : List CStr :=
  [":root!r@h PRIVMSG ebotula :!hello", ":alice!a@h PRIVMSG ebotula :!hello",
    ":root!r@h PRIVMSG ebotula :!addchannel #100%",
    ":root!r@h PRIVMSG ebotula :!accountmode #100% alice +o"]

/-- The master of a bot with a usual channel gets the whole list. -/
theorem accountlist_complete_owned : ∃ w,
    receiveAll (fun _ _ => true) calmEnv freshBot ownedChannel = some w ∧
    ListsAccounts calmEnv rootAsks "root" w := by
  have computed : (receiveAll (fun _ _ => true) calmEnv freshBot ownedChannel).map (fun w =>
      ((listTexts (·[1]?) w.db).all fun text =>
        (vsprintf text []).any fun printed => printed.length < 2 ^ 10,
        decide (SizesCounted w.db))) = some (true, true) := by
    decide +kernel
  obtain ⟨w, hw, hpair⟩ := Option.map_eq_some_iff.mp computed
  obtain ⟨hprint, hsizes⟩ := Prod.mk.inj hpair
  have hstray : NoStray calmEnv w.db := fun _ _ _ _ _ _ => by decide
  exact ⟨w, hw, (accountlist_complete_iff rfl (by decide +kernel) (by decide +kernel)).mpr
    ⟨hstray, List.all_eq_true.mp hprint, of_decide_eq_true hsizes⟩⟩

/-- In a line with the channel `#100%` the percent sign asks for an argument. -/
theorem percent_ends_accountlist :
    ¬ ∀ (env : Env) (pMsg : MsgItem) (n : CStr) (w : World Gdbm),
      pMsg.userLevel = .masterLevel → (getArgument pMsg.pRawLine).1 = none →
      pMsg.pCallingNick = some n → ListsAccounts env pMsg n w := by
  intro claim
  have computed : (receiveAll (fun _ _ => true) calmEnv freshBot percentChannel).map (fun w =>
      ((accountlist rootAsks).run (performQuiet calmEnv) w).isNone) = some true := by
    decide +kernel
  obtain ⟨w, -, hstuck⟩ := Option.map_eq_some_iff.mp computed
  obtain ⟨w', hrun, -⟩ :=
    (claim calmEnv rootAsks "root" w rfl (by decide +kernel) (by decide +kernel)).lines
  rw [hrun] at hstuck
  cases hstuck

end Ebotula
