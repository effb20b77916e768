import Ebotula.Laws.Callbacks
import Ebotula.Laws.KickBan

/-!
# The data of a callback

A handler that asks the server WHOIS leaves a string for the callback that the answer will run,
and the callback takes it apart again. `CallbackValues` is what goes in. For a ban and for a kick
it comes out as it was. The buffer of `hResetModes` is one byte too short: `snprintf` cuts the
letter of the mode off, and `ModeResetCb` is given the sign alone.
-/

set_option autoImplicit false

namespace Ebotula

open Library

/-- The values that a callback is registered with. -/
inductive CallbackValues
  | modeReset (pChannel : CStr) (cModeChr pMode : Char)
  | ban (pLogin pChannel : CStr)
  | kick (pLogin pChannel pReason : CStr)

namespace CallbackValues

/-- The callback they are for. -/
def fkt : CallbackValues → CallbackFkt
  | modeReset .. => .modeResetCb
  | ban .. => .setBanCb
  | kick .. => .kickCb

/-- The data string, as far as the buffer of its handler takes it. -/
def data : CallbackValues → CStr
  | modeReset pChannel cModeChr pMode =>
    let nDataLen := pChannel.length + 3
    cString ((pChannel ++ [' ', cModeChr, pMode]).take (nDataLen - 1))
  | ban pLogin pChannel =>
    let nDataLen := pLogin.length + pChannel.length + 2
    (pLogin ++ ' ' :: pChannel).take (nDataLen - 1)
  | kick pLogin pChannel pReason =>
    let nDataLen := pLogin.length + pChannel.length + pReason.length + 5
    (pLogin ++ ' ' :: pChannel ++ ' ' :: pReason).take (nDataLen - 1)

/-- The parts in which the callback should find them. -/
def parts : CallbackValues → List (Option CStr)
  | modeReset pChannel cModeChr pMode => [some pChannel, some [cModeChr, pMode]]
  | ban pLogin pChannel => [some pLogin, some pChannel]
  | kick pLogin pChannel pReason => [some pLogin, some pChannel, some pReason]

/-- The name of a channel and the login have no blanks, and there is a reason. -/
def Separable : CallbackValues → Prop
  | modeReset pChannel _ _ => pChannel ≠ [] ∧ ' ' ∉ pChannel
  | ban pLogin pChannel => ' ' ∉ pLogin ∧ pChannel ≠ [] ∧ ' ' ∉ pChannel
  | kick pLogin pChannel pReason =>
    ' ' ∉ pLogin ∧ (pChannel ≠ [] ∧ ' ' ∉ pChannel) ∧ pReason ≠ []

/-- The buffers of the other two are long enough. -/
theorem data_ban (pLogin pChannel : CStr) :
    (ban pLogin pChannel).data = pLogin ++ ' ' :: pChannel :=
  List.take_of_length_le (by simp only [List.length_append, List.length_cons]; omega)

theorem data_kick (pLogin pChannel pReason : CStr) :
    (kick pLogin pChannel pReason).data = pLogin ++ ' ' :: pChannel ++ ' ' :: pReason :=
  List.take_of_length_le (by simp only [List.length_append, List.length_cons]; omega)

/-- The buffer of `hResetModes` has no room for the letter. -/
theorem data_modeReset (pChannel : CStr) (cModeChr pMode : Char) :
    (modeReset pChannel cModeChr pMode).data = cString (pChannel ++ [' ', cModeChr]) := by
  have htake : (pChannel ++ [' ', cModeChr, pMode]).take (pChannel.length + 3 - 1) =
      pChannel ++ [' ', cModeChr] := by
    rw [show pChannel.length + 3 - 1 = pChannel.length + 2 from rfl, List.take_length_add_append]
    rfl
  rw [data, htake]

end CallbackValues

/-- The parts into which a callback splits its data. -/
def CallbackFkt.split : CallbackFkt → CStr → List (Option CStr)
  | modeResetCb, data => [(getFirstPart data none).1, (getFirstPart data none).2]
  | setBanCb, data => [issuerOf data, channelOf data]
  | kickCb, data => [issuerOf data, channelOf data, reasonOf data]

/-! ## The parts are all a callback sees -/

theorem getFirstPart_rest_congr {rest rest' : Option CStr}
    (hfst : (getFirstPart rest none).1 = (getFirstPart rest' none).1)
    (hsnd : (getFirstPart rest rest).2 = (getFirstPart rest' rest').2) :
    getFirstPart rest rest = getFirstPart rest' rest' := by
  refine Prod.ext ?_ hsnd
  rw [getFirstPart_fst rest rest none, getFirstPart_fst rest' rest' none, hfst]

/-- A callback does the same with all data that it splits the same way. -/
theorem CallbackFkt.call_congr {fkt : CallbackFkt} {data data' : CStr}
    (h : fkt.split data = fkt.split data') (pNetmask : CStr) :
    fkt.call pNetmask data = fkt.call pNetmask data' := by
  cases fkt with
  | modeResetCb =>
    simp only [split, List.cons.injEq, and_true] at h
    have hparts : getFirstPart data none = getFirstPart data' none := Prod.ext h.1 h.2
    show Ebotula.modeResetCb pNetmask data = Ebotula.modeResetCb pNetmask data'
    unfold Ebotula.modeResetCb
    rw [hparts]
  | setBanCb =>
    simp only [split, issuerOf, channelOf, List.cons.injEq, and_true] at h
    show Ebotula.setBanCb pNetmask data = Ebotula.setBanCb pNetmask data'
    unfold Ebotula.setBanCb
    dsimp only
    rw [h.1, h.2]
  | kickCb =>
    simp only [split, issuerOf, channelOf, reasonOf, List.cons.injEq, and_true] at h
    obtain ⟨hissuer, hchannel, hreason⟩ := h
    have hparts := getFirstPart_rest_congr hchannel hreason
    show Ebotula.kickCb pNetmask data = Ebotula.kickCb pNetmask data'
    unfold Ebotula.kickCb
    dsimp only
    rw [hissuer, hparts]

/-! ## What the handlers register -/

/-- A registration is one of the values that are meant. -/
def Registers (meant : CallbackValues → Prop) (o : Op) : Prop :=
  ∀ element item, o = .insertNextCallback element item →
    ∃ v, meant v ∧ item.callbackFkt = v.fkt ∧ item.data = v.data

section Registers

attribute [local irreducible] Prog.Calls Prog.CallsFrom

variable {meant : CallbackValues → Prop} {pMsg : MsgItem}

theorem registers_talk {α : Type} {p : Quiet α} (h : Talks p) : p.Calls (Registers meant) :=
  h.mono fun o ho _ _ he => by
    subst he
    exact ho.elim

theorem registers_nothing {o : Op} (h : o.insertion = none) : Registers meant o := by
  rintro _ _ rfl
  cases h

theorem registers_request {o : Op} (h : o.insertion = none) :
    (Prog.request (S := quietSig) o).Calls (Registers meant) := .request (registers_nothing h)

theorem registers_crash {α : Type} : (crash : Quiet α).Calls (Registers meant) :=
  .bind (registers_request rfl) nofun

theorem registers_answer {format : CStr} (hformat : Formats format []) :
    (answer pMsg format []).Calls (Registers meant) :=
  registers_talk (talks_answer [] hformat rfl)

theorem registers_callback {item : CallbackItem} {v : CallbackValues} (hv : meant v)
    (hfkt : item.callbackFkt = v.fkt) (hdata : item.data = v.data) :
    (registerCallback item).Calls (Registers meant) := by
  unfold registerCallback
  refine .bind (registers_request rfl) fun tail => .bind (.request ?_) fun _ => ?_
  · rintro _ _ he
    cases he
    exact ⟨v, hv, hfkt, hdata⟩
  · exact registers_talk (talks_sendCommand [.str none] (by decide +kernel) rfl)

theorem registers_answerNoChannel : (answerNoChannel pMsg).Calls (Registers meant) := by
  unfold answerNoChannel
  exact registers_answer (by decide +kernel)

theorem registers_answerNoParameters : (answerNoParameters pMsg).Calls (Registers meant) := by
  unfold answerNoParameters
  exact registers_answer (by decide +kernel)

/-- The caller of a command is logged in, and the command is for a channel. -/
def MsgItem.CalledBy {G : Type} [DbLib G] (pMsg : MsgItem) (dbs : Databases G)
    (pLogin pChannel : CStr) : Prop :=
  dbs.getDb .nickToUser pMsg.pNetmask = some pLogin ∧ pMsg.pAccessChannel = some pChannel

/-- The reason of a kick command, or the one for no reason. -/
def MsgItem.kickReason (pMsg : MsgItem) : CStr :=
  ((pMsg.parameters.bind fun p => (getFirstPart p none).2)).getD "You are kicked from the bot."

section Callers

variable {G : Type} [DbLib G] {w : World G} {env : Env}

theorem callsFrom_botname {P : Op → Prop} {α : Type} {f : CStr → Quiet α} :
    (botname >>= f).CallsFrom (performQuiet env) P w ↔
      P .botname ∧ (f w.pBotname).CallsFrom (performQuiet env) P w :=
  Prog.callsFrom_request rfl

/-- `banuser` puts in the login of the caller and the channel. -/
theorem registers_banuser : (banuser pMsg).CallsFrom (performQuiet env) (Registers fun v =>
    ∃ pLogin pChannel, pMsg.CalledBy w.db pLogin pChannel ∧ v = .ban pLogin pChannel) w := by
  unfold banuser
  cases hchannel : pMsg.pAccessChannel with
  | none => exact registers_answerNoChannel.callsFrom w
  | some pChannel =>
    dsimp only
    split
    · exact registers_answerNoParameters.callsFrom w
    · split
      · exact registers_answerNoParameters.callsFrom w
      · refine callsFrom_botname.mpr ⟨registers_nothing rfl, ?_⟩
        split
        · exact (registers_answer (by decide +kernel)).callsFrom w
        · refine callsFrom_getDb.mpr ⟨registers_nothing rfl, ?_⟩
          cases hlogin : w.db.getDb .nickToUser pMsg.pNetmask with
          | none => exact registers_crash.callsFrom w
          | some pLogin =>
            exact (registers_callback ⟨pLogin, pChannel, ⟨hlogin, hchannel⟩, rfl⟩ rfl
              (CallbackValues.data_ban ..).symm).callsFrom w

/-- `kickuser` puts in the login of the caller, the channel and the reason. -/
theorem registers_kickuser : (kickuser pMsg).CallsFrom (performQuiet env) (Registers fun v =>
    ∃ pLogin pChannel, pMsg.CalledBy w.db pLogin pChannel ∧
      v = .kick pLogin pChannel pMsg.kickReason) w := by
  unfold kickuser
  cases hchannel : pMsg.pAccessChannel with
  | none => exact registers_answerNoChannel.callsFrom w
  | some pChannel =>
    dsimp only
    split
    · exact registers_answerNoParameters.callsFrom w
    · next pParameter hparameter =>
      split
      · exact (Prog.Calls.pure ()).callsFrom w
      · next pReason hparts =>
        have hreason : pMsg.kickReason = pReason.getD "You are kicked from the bot." := by
          rw [MsgItem.kickReason, hparameter, Option.bind_some, hparts]
        refine callsFrom_botname.mpr ⟨registers_nothing rfl, ?_⟩
        split
        · exact (registers_answer (by decide +kernel)).callsFrom w
        · refine callsFrom_getDb.mpr ⟨registers_nothing rfl, ?_⟩
          cases hlogin : w.db.getDb .nickToUser pMsg.pNetmask with
          | none => exact (registers_answer (by decide +kernel)).callsFrom w
          | some pLogin =>
            refine (registers_callback ⟨pLogin, pChannel, ⟨hlogin, hchannel⟩, rfl⟩ rfl
              ?_).callsFrom w
            rw [hreason, CallbackValues.data_kick]

end Callers

theorem registers_channelInit {pChannel : Option CStr} :
    (channelInit pChannel).Calls (Registers meant) := by
  unfold channelInit
  refine .bind (registers_request rfl) fun pChannelSet => ?_
  cases pChannelSet with
  | none => exact .pure ()
  | some pChannelSet =>
    dsimp only
    cases strToChannelData pChannelSet with
    | none => exact registers_crash
    | some sChannelData => exact registers_talk (talks_initialized sChannelData)

/-- The loop puts in the channel, the sign in force and the letter. -/
theorem registers_hResetModesLoop {pChannel : Option CStr} (pMode : CStr) (bTryToSet : Bool)
    (cModeChr : Char) (pRest : Option CStr) :
    (hResetModesLoop pMsg pChannel pMode bTryToSet cModeChr pRest).Calls (Registers fun v =>
      ∃ c sign, ∃ letter ∈ pMode, pChannel = some c ∧ v = .modeReset c sign letter) := by
  induction pMode generalizing bTryToSet cModeChr pRest with
  | nil => exact .pure ()
  | cons c pMode ih =>
    have later (bTryToSet : Bool) (cModeChr : Char) (pRest : Option CStr) :
        (hResetModesLoop pMsg pChannel pMode bTryToSet cModeChr pRest).Calls
          (Registers fun v => ∃ d sign, ∃ letter ∈ c :: pMode, pChannel = some d ∧
            v = .modeReset d sign letter) := by
      refine (ih bTryToSet cModeChr pRest).mono fun o ho element item he => ?_
      obtain ⟨v, ⟨d, sign, letter, hletter, hmeant⟩, hitem⟩ := ho element item he
      exact ⟨v, ⟨d, sign, letter, List.mem_cons_of_mem _ hletter, hmeant⟩, hitem⟩
    unfold hResetModesLoop
    refine .ite (later ..) (.ite (later ..) (.ite ?_ ?_))
    · split
      · exact registers_talk talks_logger
      · next pNick pRest' _ =>
        refine .bind (registers_request rfl) fun pBotname => ?_
        refine .ite (.bind (registers_talk talks_logger) fun _ => ?_)
          (.bind (registers_talk talks_logger) fun _ => ?_)
        · exact .ite (.bind registers_channelInit fun _ => later ..)
            (.bind (registers_talk talks_action) fun _ => later ..)
        · cases pChannel with
          | none => exact .bind registers_crash fun _ => later ..
          | some pChannel =>
            refine .bind (registers_callback
              ⟨pChannel, cModeChr, c, List.mem_cons_self, rfl, rfl⟩ rfl rfl) fun _ => ?_
            exact later ..
    · refine .ite (.bind (registers_talk talks_logger) fun _ => later ..) (.ite ?_ ?_)
      · exact later ..
      · exact .bind (registers_talk talks_logger) fun _ => later ..

/-- The channel and the letters of a MODE line. -/
def MsgItem.modeWords (pMsg : MsgItem) : Option CStr × Option CStr :=
  let pRest := (getFirstPart pMsg.pRawLine none).2
  let pRest := rmFirstPart pRest pRest
  let (pChannel, pRest) := getFirstPart pRest pRest
  (pChannel, (getFirstPart pRest pRest).1)

/-- `hResetModes` puts in the channel of the line and a letter of its modes. -/
theorem registers_hResetModes : (hResetModes pMsg).Calls (Registers fun v =>
    ∃ pChannel pMode, pMsg.modeWords = (some pChannel, some pMode) ∧
      ∃ sign, ∃ letter ∈ pMode, v = .modeReset pChannel sign letter) := by
  unfold hResetModes
  dsimp only
  split
  · exact .pure ()
  · refine .bind (registers_request rfl) fun pBotname => .ite ?_ (.pure ())
    split
    · exact registers_talk talks_logger
    · next pMode hmode =>
      refine .bind (registers_request rfl) fun _ => .bind (registers_request rfl) fun _ => ?_
      refine (registers_hResetModesLoop ..).mono fun o ho element item he => ?_
      obtain ⟨v, ⟨c, sign, letter, hletter, hchannel, rfl⟩, hitem⟩ := ho element item he
      exact ⟨_, ⟨c, pMode, Prod.ext hchannel hmode, sign, letter, hletter, rfl⟩, hitem⟩

end Registers

/-! ## The round trip -/

/-- `ModeResetCb` never finds a letter behind the sign. -/
theorem modeReset_loses_letter {pChannel : CStr} (h : ' ' ∉ pChannel) (cModeChr pMode : Char) :
    (getFirstPart (some (cString (pChannel ++ [' ', cModeChr]))) none).2 ≠
      some [cModeChr, pMode] := by
  intro hparts
  rw [getFirstPart] at hparts
  split at hparts
  · next x y hcut =>
    obtain ⟨-, hdata⟩ := cutFirst_eq_some_iff.mp hcut
    split at hparts
    · cases hparts
    · cases hparts
      -- two characters behind the first blank are one more than there is room for
      obtain ⟨cut, hall⟩ := List.takeWhile_prefix (l := pChannel ++ [' ', cModeChr])
        (p := fun c => decide (c ≠ '\x00'))
      rw [show List.takeWhile _ _ = x ++ ' ' :: [cModeChr, pMode] from hdata] at hall
      have hlength := congrArg List.length hall
      have hblank : (pChannel ++ [' ', cModeChr])[x.length]? = some ' ' := by
        rw [← hall]
        simp
      simp only [List.length_append, List.length_cons, List.length_nil] at hlength
      rw [List.getElem?_append_left (by omega)] at hblank
      exact h (List.mem_of_getElem? hblank)
  · cases hparts

/-- Data for a ban or a kick is split into what was put in, and data for the modes of a user never
is. -/
theorem split_data_iff {v : CallbackValues} (h : v.Separable) :
    v.fkt.split v.data = v.parts ↔ v.fkt ≠ .modeResetCb := by
  cases v with
  | modeReset pChannel cModeChr pMode =>
    refine iff_of_false (fun hparts => ?_) (fun hne => hne rfl)
    rw [CallbackValues.data_modeReset] at hparts
    simp only [CallbackValues.fkt, CallbackFkt.split, CallbackValues.parts, List.cons.injEq,
      and_true] at hparts
    exact modeReset_loses_letter h.2 _ _ hparts.2
  | ban pLogin pChannel =>
    refine iff_of_true ?_ nofun
    obtain ⟨hlogin, hne, hchannel⟩ := h
    rw [CallbackValues.data_ban]
    simp only [CallbackValues.fkt, CallbackFkt.split, CallbackValues.parts, issuerOf, channelOf]
    rw [getFirstPart_blank hlogin hne, getFirstPart_word hchannel]
  | kick pLogin pChannel pReason =>
    refine iff_of_true ?_ nofun
    obtain ⟨hlogin, ⟨-, hchannel⟩, hreason⟩ := h
    rw [CallbackValues.data_kick]
    simp only [CallbackValues.fkt, CallbackFkt.split, CallbackValues.parts, issuerOf, channelOf,
      reasonOf, List.append_assoc, List.cons_append]
    rw [getFirstPart_blank hlogin (by simp)]
    dsimp only
    rw [getFirstPart_blank hchannel hreason, getFirstPart_blank hchannel hreason]

/-- The data a handler registers is made of its values, the channel of its line and the login of its
caller among them, and a callback sees no more of it than the parts it splits it into. They are
what was put in if it is for a ban or a kick, and not if it is for the modes of a user. -/
theorem callback_data_round_trip {v : CallbackValues} (h : v.Separable) :
    ((∀ pMsg, (hResetModes pMsg).Calls (Registers fun v =>
        ∃ pChannel pMode, pMsg.modeWords = (some pChannel, some pMode) ∧
          ∃ sign, ∃ letter ∈ pMode, v = .modeReset pChannel sign letter)) ∧
      ∀ (G : Type) [DbLib G] (w : World G) env pMsg,
        (banuser pMsg).CallsFrom (performQuiet env) (Registers fun v =>
          ∃ pLogin pChannel, pMsg.CalledBy w.db pLogin pChannel ∧
            v = .ban pLogin pChannel) w ∧
        (kickuser pMsg).CallsFrom (performQuiet env) (Registers fun v =>
          ∃ pLogin pChannel, pMsg.CalledBy w.db pLogin pChannel ∧
            v = .kick pLogin pChannel pMsg.kickReason) w) ∧
    (∀ (fkt : CallbackFkt) data data', fkt.split data = fkt.split data' →
      ∀ pNetmask, fkt.call pNetmask data = fkt.call pNetmask data') ∧
    (v.fkt.split v.data = v.parts ↔ v.fkt ≠ .modeResetCb) :=
  ⟨⟨fun _ => registers_hResetModes, fun _ _ _ _ _ => ⟨registers_banuser, registers_kickuser⟩⟩,
    fun _ _ _ => CallbackFkt.call_congr, split_data_iff h⟩

/-- A kick with a reason of several words. -/
theorem callback_data_round_trip_kick :
    CallbackFkt.kickCb.split (CallbackValues.kick "alice" "#c" "be quiet").data =
      [some "alice".toList, some "#c".toList, some "be quiet".toList] :=
  (@callback_data_round_trip (.kick "alice" "#c" "be quiet")
    ⟨by decide, ⟨by decide, by decide⟩, by decide⟩).2.2.mpr nofun

/-- Bob is given an operator's mode: the callback is registered with the sign alone. -/
theorem modeReset_data_cut : ∃ w,
    (hResetModes (fillItem ":alice!a@h MODE #c +o bob" .noneLevel false)).run
      (performQuiet calmEnv) freshBot = some ((), w) ∧
    w.callbackList.itemOf 0 = some ⟨"bob", .modeResetCb, "#c +"⟩ ∧
    (CallbackValues.modeReset "#c" '+' 'o').data = "#c +".toList ∧
    CallbackFkt.modeResetCb.split "#c +" ≠ (CallbackValues.modeReset "#c" '+' 'o').parts := by
  have computed : ((hResetModes (fillItem ":alice!a@h MODE #c +o bob" .noneLevel false)).run
      (performQuiet calmEnv) freshBot).map (fun r => r.2.callbackList.itemOf 0) =
      some (some ⟨"bob", .modeResetCb, "#c +"⟩) := by
    decide +kernel
  obtain ⟨⟨⟨⟩, w⟩, hrun, hitem⟩ := Option.map_eq_some_iff.mp computed
  exact ⟨w, hrun, hitem, by decide, by decide⟩

end Ebotula
