import Ebotula.Laws.Stream

/-!
# The saved channels are joined

The thread that joins the channels lists them once and then asks for one after the other, while
the main thread, the workers and the timing thread send lines of their own and change the
databases. `joins_every_channel` says that none of this costs a channel its JOIN.
-/

set_option autoImplicit false

namespace Ebotula

open Library

/-- The line that `join` sends. -/
def joinLine (pChannel : CStr) : CStr := "JOIN ".toList ++ pChannel ++ "\r\n".toList

theorem join_eq (pChannel : CStr) : join (some pChannel) = sendLine (joinLine pChannel) := by
  have hline : vsprintf "JOIN %s\r\n" [.str pChannel] = some (joinLine pChannel) := by
    delta joinLine
    simp [vsprintf]
  unfold join sendCommand
  simp only [List.find?_cons, List.find?_nil, Option.isNone_some, List.map_cons, List.map_nil,
    hline]

/-- What is left of the thread when these channels are still to be joined. -/
def joinRest (channels : List CStr) : Bot Unit :=
  (Prog.forEach (fun pChannel => join (some pChannel)) channels : Quiet Unit).lift

theorem joinRest_cons (pChannel : CStr) (channels : List CStr) :
    joinRest (pChannel :: channels) =
      .call (.inl (.sendLine (joinLine pChannel))) fun _ => joinRest channels := by
  unfold joinRest
  rw [Prog.forEach, join_eq]
  rfl

theorem joinAllChannels_program :
    Task.joinAllChannels.program = .call (.inl (.listDb .channel)) joinRest := rfl

section Interleaving

variable {ι G : Type} [DecidableEq ι] [DbLib G] {works : ι → Work} {w w' : World G}
  {c c' : BotThreads ι G} {ok : BotThreads ι G → ι → Prop} {schedule : List ι} {i : ι}

/-- No request takes back a line. -/
theorem perform_sent {env : Env} {o : (quietSig.sum writeSig).Op}
    {r : (quietSig.sum writeSig).Res o} (h : perform env o w = some (r, w')) :
    w.sent <+: w'.sent := by
  cases o with
  | inr o =>
    cases h
    exact List.prefix_rfl
  | inl o =>
    cases o with
    | sendLine pMsg =>
      cases h
      exact List.prefix_append _ _
    | insertNextCallback | removeCallback | searchCallback | unwrittenPointer =>
      obtain ⟨_, -, he⟩ := Option.map_eq_some_iff.mp h
      cases he
      exact List.prefix_rfl
    | crash => cases h
    | checkDb | existDb | getDb | listDb | logger | callbackHead | callbackTail | botname
    | setBotname | stop | setStop | setAgain | time | host | unwritten =>
      cases h
      exact List.prefix_rfl

theorem sent_grows (run : Run (BotThreads.step works) ok c schedule c') :
    c.shared.sent <+: c'.shared.sent :=
  run.invariant (I := fun d : BotThreads ι G => c.shared.sent <+: d.shared.sent)
    (fun _ _ _ h _ hstep => by
      obtain ⟨o, k, r, s', -, hr, rfl⟩ := Threads.step_cases hstep
      exact h.trans (perform_sent hr)) List.prefix_rfl

/-- The lines for the channels that are left come in their order among those that are sent from
now on. -/
theorem joinRest_sends {channels : List CStr} (hleft : c.left i = joinRest channels)
    (run : Run (BotThreads.step works) ok c schedule c') (hended : c'.left i = .ret ()) :
    ∃ later, c'.shared.sent = c.shared.sent ++ later ∧ (channels.map joinLine).Sublist later := by
  induction channels generalizing c schedule with
  | nil =>
    obtain ⟨later, hlater⟩ := sent_grows run
    exact ⟨later, hlater.symm, List.nil_sublist later⟩
  | cons pChannel channels ih =>
    rw [joinRest_cons] at hleft
    obtain ⟨before, after, c₁, r, s, -, run₁, hr, run₂⟩ := Threads.run_first run hleft hended
    obtain ⟨others, hothers⟩ := sent_grows run₁
    obtain ⟨later, hlater, hsub⟩ := ih (Function.update_self ..) run₂
    cases hr
    refine ⟨others ++ joinLine pChannel :: later, ?_, ?_⟩
    · refine hlater.trans ?_
      show c₁.shared.sent ++ [joinLine pChannel] ++ later = _
      rw [← hothers, List.append_assoc, List.append_assoc, List.singleton_append]
    · exact (hsub.cons_cons (joinLine pChannel)).trans (List.sublist_append_right others _)

/-- Whatever the other threads do meanwhile: when the thread that joins the channels has ended,
every channel that was saved when it listed them has got its JOIN since, each one in its turn. -/
theorem joins_every_channel (hi : (works i).task = .joinAllChannels)
    (run : Run (BotThreads.step works) ok (BotThreads.start works w) schedule c)
    (hended : c.left i = .ret ()) :
    ∃ before after c₁ later, schedule = before ++ i :: after ∧
      Run (BotThreads.step works) ok (BotThreads.start works w) before c₁ ∧
      c.shared.sent = c₁.shared.sent ++ later ∧
      ((c₁.shared.db.listDb .channel).map joinLine).Sublist later := by
  have hleft : (BotThreads.start works w).left i = .call (.inl (.listDb .channel)) joinRest := by
    rw [← joinAllChannels_program, ← hi]
    rfl
  obtain ⟨before, after, c₁, r, s, hschedule, run₁, hr, run₂⟩ :=
    Threads.run_first run hleft hended
  cases hr
  obtain ⟨later, hlater, hsub⟩ := joinRest_sends (Function.update_self ..) run₂ hended
  exact ⟨before, after, c₁, later, hschedule, run₁, hlater, hsub⟩

end Interleaving

theorem joins_every_channel_pingAndJoin : ∃ (c : BotThreads Bool Gdbm) (before after : List Bool)
    (c₁ : BotThreads Bool Gdbm) (later : List CStr),
    [true, false, false, true] = before ++ true :: after ∧
      c.shared.sent = c₁.shared.sent ++ later ∧
      ((c₁.shared.db.listDb .channel).map joinLine).Sublist later := by
  have computed : ((Run.steps (BotThreads.step pingAndJoin) (fun _ _ => true)
      (BotThreads.start pingAndJoin channelBot) [true, false, false, true]).map
        fun c => (c.next true).isSome) = some false := by
    decide +kernel
  obtain ⟨c, hc, hnext⟩ := Option.map_eq_some_iff.mp computed
  obtain ⟨before, after, c₁, later, hschedule, -, hsent, hsub⟩ :=
    joins_every_channel (i := true) rfl (Run.of_steps hc) (Threads.ended_of_next hnext)
  exact ⟨c, before, after, c₁, later, hschedule, hsent, hsub⟩

end Ebotula
