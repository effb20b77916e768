import Ebotula.Laws.RecordRuns
import Ebotula.Laws.Sending

/-!
# The greeting that is shown

A greeting is stored as it was delivered, and read back as it was stored. On its way to the user
it is the format of `sendMsg`, with no argument behind it: a percent sign takes the character
after it away, or asks for an argument that is not there. Any other text arrives as it is.
-/

set_option autoImplicit false

namespace Ebotula

open Library

variable {G : Type} [DbLib G] {w w₁ w₂ : World G} {env env' : Env} {pSet pView : MsgItem}
  {K : Key} {n t record : CStr}

/-- A text as a received line carries it: a string of C, and short enough for the buffer of
`sendMsg`. -/
structure LineText (t : CStr) : Prop where
  nul : '\x00' ∉ t
  short : t.length < 500

theorem LineText.cString (h : LineText t) : Library.cString t = t :=
  List.takeWhile_eq_self_iff.mpr fun c hc => by
    simp only [ne_eq, decide_eq_true_eq]
    rintro rfl
    exact h.nul hc

/-- The command sends one line, a notice with this text. -/
def Shows (env : Env) (pView : MsgItem) (w : World G) (n t : CStr) : Prop :=
  ∃ w', step w (.command env .viewGreat pView) = some w' ∧ w'.sent = w.sent ++ [noticeLine n t]

/-- A format without arguments is shown as the text it is. -/
theorem run_sendMsg_notice (htext : LineText t) :
    (sendMsg .noticeMode (some n) t []).run (performQuiet env) w =
      (vsprintf t []).map fun s => ((), w.sending env (noticeLine n (cString s))) := by
  cases h : vsprintf t [] with
  | none =>
    rw [sendMsg, h]
    exact run_crash
  | some s =>
    have hprinted := (length_vsprintf_nil h).1
    have hshort := htext.short
    rw [sendMsg, h]
    dsimp only
    rw [if_pos (by omega)]
    exact run_notice

/-- `!viewgreet` by another user sends what the stored greeting is as a format. -/
theorem step_viewGreat (env : Env) (hview : pView.pAccessChannel.map key = some K)
    (hnick : pView.pCallingNick = some n) (hother : strcaseeq n w.pBotname = false)
    (hrecord : channelRecord K w = some record) (hgreeting : getGreeting record = some t)
    (htext : LineText t) : ∃ entry, step w (.command env .viewGreat pView) =
      (vsprintf t []).map fun s => (w.logging entry).sending env (noticeLine n (cString s)) := by
  obtain ⟨pChannel, hchannel, rfl⟩ := Option.map_eq_some_iff.mp hview
  have hget (entry : LogLine) : (w.logging entry).db.getDb .channel (some pChannel) =
      some record := hrecord
  have hrun : ∃ entry, (greeting pView).run (performQuiet env) w =
      (vsprintf t []).map fun s =>
        ((), (w.logging entry).sending env (noticeLine n (cString s))) := by
    unfold greeting
    simp only [hnick, hchannel]
    rw [Prog.run_bind, run_botname, Option.bind_some, hother, Bool.not_false, if_pos rfl,
      Prog.run_bind, run_logger, Option.bind_some, Prog.run_bind, run_getDb, Option.bind_some,
      hget]
    simp only [hgreeting]
    exact ⟨_, run_sendMsg_notice htext⟩
  obtain ⟨entry, hrun⟩ := hrun
  refine ⟨entry, ?_⟩
  have hstep : step w (.command env .viewGreat pView) =
      (((greeting pView).lift : Bot Unit).run (perform env) w).map Prod.snd := rfl
  rw [hstep, run_perform_lift, hrun, Option.map_map]
  rfl

/-- A text is what it is as a format without arguments if it has no percent sign. -/
theorem vsprintf_nil_eq (h : LineText t) :
    (∃ s, vsprintf t [] = some s ∧ cString s = t) ↔ '%' ∉ t := by
  refine ⟨fun ⟨s, hs, hst⟩ hmem => ?_, fun hmem => ⟨t, vsprintf_plain [] hmem, h.cString⟩⟩
  have hlt := (length_vsprintf_nil hs).2 hmem
  have hle : (cString s).length ≤ s.length := (List.takeWhile_prefix _).length_le
  rw [hst] at hle
  exact absurd hlt (Nat.not_lt.mpr hle)

/-- A greeting that was set in any run from an empty channel list on, in a record that no later
event changed, is shown to another user as it was delivered exactly if it has no percent sign. -/
theorem greeting_shown_iff {w₀ : World G} {es later : List Event} (start : NoRecords w₀)
    (run : Run step (fun _ _ => True) w₀ es w) (hchannel : pSet.pAccessChannel.map key = some K)
    (hlisted : channelRecord K w = some record) (hparameters : pSet.parameters = some t)
    (htext : LineText t) (hset : step w (.command env .setGreating pSet) = some w₁)
    (rest : Run step (fun w e => ∀ w' ∈ step w e, channelRecord K w' = channelRecord K w)
      w₁ later w₂)
    (hview : pView.pAccessChannel.map key = some K) (hnick : pView.pCallingNick = some n)
    (hother : strcaseeq n w₂.pBotname = false) :
    Shows env' pView w₂ n t ↔ '%' ∉ t := by
  have canonical := start.canonical.run run K record hlisted
  have hfits : RecordJob.setGreeting.Fits pSet := nofun
  obtain ⟨w₁', record', hset', hrecord, hupdate⟩ := hfits.updates env hchannel hlisted canonical
  obtain rfl := Option.some.inj (hset.symm.trans hset')
  -- the record is the one that was written, and the greeting in it the text
  have hkept : channelRecord K w₂ = some record' :=
    rest.invariant (I := fun w => channelRecord K w = some record')
      (fun _ _ _ h hsame hstep => (hsame _ hstep).trans h) hrecord
  have htext' : RecordJob.setGreeting ≠ .chanmode := nofun
  have hgreeting : getGreeting record' = some t :=
    (update_reads canonical htext' hupdate).trans hparameters
  obtain ⟨entry, hstep⟩ := step_viewGreat env' hview hnick hother hkept hgreeting htext
  rw [← vsprintf_nil_eq htext, Shows, hstep]
  constructor
  · rintro ⟨w', hw', hsent⟩
    obtain ⟨s, hs, rfl⟩ := Option.map_eq_some_iff.mp hw'
    exact ⟨s, hs, noticeLine_inj.mp (List.singleton_inj.mp (List.append_cancel_left hsent))⟩
  · rintro ⟨s, hs, hst⟩
    exact ⟨_, Option.map_eq_some_iff.mpr ⟨s, hs, rfl⟩, by rw [hst]; rfl⟩

/-- The bot of a master with a channel. -/
def registeredLines : List CStr :=
  [":root!r@h PRIVMSG ebotula :!hello", ":root!r@h PRIVMSG ebotula :!addchannel #c"]

/-- A greeting without a percent sign, and a user who asks for it. -/
def welcomeItem : MsgItem := rootItem "!greeting #c  Welcome, and have fun! "

def viewItem : MsgItem := fillItem ":alice!a@h PRIVMSG ebotula :!viewgreet #c" .noneLevel true

/-- The user sees the welcome. -/
theorem greeting_shown_welcome : ∃ es w w₁, Run step (fun _ _ => True) freshBot es w ∧
    step w (.command calmEnv .setGreating welcomeItem) = some w₁ ∧
    Shows calmEnv viewItem w₁ "alice" "Welcome, and have fun!" := by
  have hitems : welcomeItem.pAccessChannel.map key = some (key "#c") ∧
      welcomeItem.parameters = some "Welcome, and have fun!".toList ∧
      viewItem.pAccessChannel.map key = some (key "#c") ∧
      viewItem.pCallingNick = some "alice".toList := by decide +kernel
  have htext : LineText "Welcome, and have fun!" ∧ '%' ∉ "Welcome, and have fun!".toList :=
    ⟨⟨by decide +kernel, by decide +kernel⟩, by decide +kernel⟩
  have computed : ((receiveAll (fun _ _ => true) calmEnv freshBot registeredLines).map fun w =>
      (channelRecord (key "#c") w, (step w (.command calmEnv .setGreating welcomeItem)).map
        fun w₁ => strcaseeq "alice" w₁.pBotname)) =
      some (some "\t\t".toList, some false) := by
    decide +kernel
  obtain ⟨w, hw, hpair⟩ := Option.map_eq_some_iff.mp computed
  obtain ⟨hrecord, hset⟩ := Prod.mk.inj hpair
  obtain ⟨w₁, hset, hother⟩ := Option.map_eq_some_iff.mp hset
  obtain ⟨es, run⟩ := run_of_receiveAll hw
  have run : Run step (fun _ _ => True) freshBot es w := run.mono fun _ _ _ => trivial
  exact ⟨es, w, w₁, run, hset, (greeting_shown_iff (fun _ => rfl) run hitems.1 hrecord hitems.2.1
    htext.1 hset (.nil w₁) hitems.2.2.1 hitems.2.2.2 hother).mpr htext.2⟩

/-- Two percent signs are a greeting too. -/
def percentItem : MsgItem := rootItem "!greeting #c 50%% off"

/-- They are shown as one. -/
theorem greeting_percent : ∃ es w record w₁, Run step (fun _ _ => True) freshBot es w ∧
    percentItem.pAccessChannel.map key = some (key "#c") ∧
    channelRecord (key "#c") w = some record ∧
    percentItem.parameters = some "50%% off".toList ∧ LineText "50%% off" ∧
    step w (.command calmEnv .setGreating percentItem) = some w₁ ∧
    viewItem.pAccessChannel.map key = some (key "#c") ∧
    viewItem.pCallingNick = some "alice".toList ∧ strcaseeq "alice" w₁.pBotname = false ∧
    Shows calmEnv viewItem w₁ "alice" "50% off" ∧
    ¬ Shows calmEnv viewItem w₁ "alice" "50%% off" := by
  have hitems : percentItem.pAccessChannel.map key = some (key "#c") ∧
      percentItem.parameters = some "50%% off".toList ∧
      viewItem.pAccessChannel.map key = some (key "#c") ∧
      viewItem.pCallingNick = some "alice".toList := by decide +kernel
  have computed : ((receiveAll (fun _ _ => true) calmEnv freshBot registeredLines).map fun w =>
      (channelRecord (key "#c") w, (step w (.command calmEnv .setGreating percentItem)).map
        fun w₁ => (strcaseeq "alice" w₁.pBotname,
          (step w₁ (.command calmEnv .viewGreat viewItem)).map fun w' =>
            decide (w'.sent = w₁.sent ++ [noticeLine "alice" "50% off"])))) =
      some (some "\t\t".toList, some (false, some true)) := by
    decide +kernel
  obtain ⟨w, hw, hpair⟩ := Option.map_eq_some_iff.mp computed
  obtain ⟨hrecord, hset⟩ := Prod.mk.inj hpair
  obtain ⟨w₁, hset, hpair⟩ := Option.map_eq_some_iff.mp hset
  obtain ⟨hother, hview⟩ := Prod.mk.inj hpair
  obtain ⟨w', hview, hsent⟩ := Option.map_eq_some_iff.mp hview
  have hsent := of_decide_eq_true hsent
  obtain ⟨es, run⟩ := run_of_receiveAll hw
  refine ⟨es, w, _, w₁, run.mono fun _ _ _ => trivial, hitems.1, hrecord, hitems.2.1,
    ⟨by decide +kernel, by decide +kernel⟩, hset, hitems.2.2.1, hitems.2.2.2, hother,
    ⟨w', hview, hsent⟩, ?_⟩
  rintro ⟨w'', hview', hsent'⟩
  obtain rfl := Option.some.inj (hview.symm.trans hview')
  have htexts := noticeLine_inj.mp
    (List.singleton_inj.mp (List.append_cancel_left (hsent.symm.trans hsent')))
  exact absurd htexts (by decide +kernel)

end Ebotula
