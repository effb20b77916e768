import Ebotula.Laws.CaseMaps
import Ebotula.Laws.Grants

/-!
# The names that are stored

Every routine writes its keys in lower case, so a name on a list is a key that is found. With what
is known of the keys it follows that no account on the list has a `#` in its name and every
channel on the list starts with one, in every state that acts can reach. Where the acts are
those of received lines, no channel has a blank in its name.
-/

set_option autoImplicit false

namespace Ebotula

open Library Databases

variable {G : Type} [DbLib G] {env : Env} {w w' : World G} {dbs : Databases G} {a : Act}

/-! ## Keys in lower case -/

theorem InLowerCase.apply {dbs : Databases G} (h : dbs.InLowerCase) (o : DbWrite) :
    (o.apply dbs).2.InLowerCase := by
  rcases o.apply_cases dbs with heq | ⟨s, -, ⟨value, heq⟩ | ⟨-, heq⟩⟩
  · rw [heq]
    exact h
  · rw [heq]
    exact h.write
  · rw [heq]
    exact h.erase

/-- Whatever a routine does, its keys are in lower case. -/
theorem wp_inLowerCase {α : Type} (p : Bot α) (h : w.db.InLowerCase) :
    p.wp (perform env) (fun _ w' => w'.db.InLowerCase) w := by
  refine (Prog.Calls.any p).wp_inv (I := fun w => w.db.InLowerCase)
    (fun o _ w₁ r w₂ hr h₁ => ?_) w h
  cases o with
  | inl o =>
    have hdb : w₂.db = w₁.db := performQuiet_db hr
    rwa [hdb]
  | inr o =>
    cases hr
    exact InLowerCase.apply h₁ o

/-- The names of accounts and channels have been checked, and all keys are in lower case. -/
structure Checked (dbs : Databases G) : Prop where
  named : Named dbs
  lower : dbs.InLowerCase

namespace Checked

theorem act (checked : Checked w.db) (h : Ebotula.act w a = some w') : Checked w'.db := by
  refine ⟨checked.named.act h, ?_⟩
  cases a with
  | dialogMaster env name passwd repasswd =>
    obtain ⟨⟨made, w₁⟩, hrun, rfl⟩ := Option.map_eq_some_iff.mp h
    exact wp_inLowerCase _ checked.lower made w₁ hrun
  | event e =>
    obtain ⟨⟨⟨⟩, w₁⟩, hrun, rfl⟩ := Option.map_eq_some_iff.mp h
    exact wp_inLowerCase _ checked.lower () w₁ hrun

/-- A channel on the list is one that starts with a `#`. -/
theorem isChannel (checked : Checked dbs) {c : CStr} (h : c ∈ dbs.listDb .channel) :
    (key c).IsChannel := by
  obtain ⟨k, rfl, hk⟩ := checked.lower.mem_listDb_iff.mp h
  rw [key_val]
  exact checked.named.channel k hk

/-- The names of every state that acts reach from empty databases are checked. -/
theorem of_run {as : List Act} {ok : World G → Act → Prop} (start : w.db.NoRights)
    (lower : w.db.InLowerCase) (run : Run Ebotula.act ok w as w') : Checked w'.db :=
  run.invariant (I := fun w => Checked w.db) (fun _ _ _ h _ hstep => h.act hstep)
    ⟨start.owned.named, lower⟩

end Checked

theorem freshBot_inLowerCase : freshBot.db.InLowerCase := fun _ s h => by
  have hnone : Table.fetch (Table.empty : Gdbm) s = none := Table.fetch_empty s
  rw [show freshBot.db _ = (Table.empty : Gdbm) from rfl, hnone] at h
  cases h

/-- Received lines are acts, so the names they leave are checked. -/
theorem checked_of_receiveAll {ok : World Gdbm → Event → Bool} {lines : List CStr}
    {w : World Gdbm} (h : receiveAll ok env freshBot lines = some w) : Checked w.db := by
  obtain ⟨es, run⟩ := run_of_receiveAll h
  exact .of_run freshBot_noRights freshBot_inLowerCase (acts_of_events run)

/-! ## Channels of received lines -/

theorem blank_notMem_strtokBuf (s : CStr) : ' ' ∉ strtokBuf ' ' ('#' :: s) := by
  rw [strtokBuf_of_head (by decide), List.mem_cons, not_or]
  refine ⟨by decide, fun h => ?_⟩
  exact absurd (List.mem_takeWhile_imp h) (by decide)

/-- A channel that is read off a line is one word. -/
theorem getAccessChannel_word {pLine pChannel : CStr}
    (h : (getAccessChannel pLine).1 = some pChannel) : ' ' ∉ pChannel := by
  rw [getAccessChannel] at h
  split at h
  · dsimp only at h
    split at h
    · cases h
      exact blank_notMem_strtokBuf _
    · cases h
  · split at h
    · next hchan =>
      cases h
      rw [getChannel] at hchan
      split at hchan
      · cases hchan
      · split at hchan
        · cases hchan
          exact blank_notMem_strtokBuf _
        · cases hchan
    · split at h
      · cases h
        exact blank_notMem_strtokBuf _
      · cases h

/-- The event of a line: its item was made of one. -/
def Event.FromLine : Event → Prop
  | .command _ _ pMsg => ∃ pMsgLine userLevel bInteractiveMode,
    pMsg = fillItem pMsgLine userLevel bInteractiveMode
  | _ => True

def Act.FromLine : Act → Prop
  | .dialogMaster .. => True
  | .event e => e.FromLine

/-- Received lines are acts of lines. -/
theorem run_of_lines {ok : World G → Event → Bool} {lines : List CStr}
    (h : receiveAll ok env w lines = some w') :
    ∃ as, Run Ebotula.act (fun _ a => a.FromLine) w as w' := by
  induction lines generalizing w with
  | nil =>
    cases h
    exact ⟨[], .nil _⟩
  | cons line lines ih =>
    rw [receiveAll, List.foldlM_cons] at h
    obtain ⟨w₁, hw₁, hrest⟩ := Option.bind_eq_some_iff.mp h
    obtain ⟨e, he, hstep⟩ := Option.bind_eq_some_iff.mp hw₁
    obtain ⟨as, run⟩ := ih hrest
    split at hstep
    · refine ⟨.event e :: as, .cons ?_ hstep run⟩
      -- the event is the handler of a command on the item of the line
      rw [received] at he
      split at he
      · split at he
        · cases he
        · rw [dispatched] at he
          split at he
          · split at he
            · cases he
              exact ⟨_, _, _, rfl⟩
            · cases he
          · cases he
      · cases he
    · cases hstep

/-- No channel has a blank in its name. -/
def OneWord (dbs : Databases G) : Prop := ∀ c, (dbs.fetch .channel c).isSome → ' ' ∉ c.val

theorem OneWord.act (words : OneWord w.db) (hline : a.FromLine)
    (h : Ebotula.act w a = some w') : OneWord w'.db := by
  intro c hc
  rcases act_db h with ⟨env, name, passwd, repasswd, rfl, hdialog⟩ | ⟨e, rfl, hchange⟩
  · cases hdialog with
    | refused same | created _ same =>
      rw [same.fetch (by decide)] at hc
      exact words c hc
  · rcases hchange.channel_new hc with hold | ⟨env, pMsg, pChannel, rfl, hchannel, rfl⟩
    · exact words c hold
    · obtain ⟨pMsgLine, userLevel, bInteractiveMode, rfl⟩ := hline
      exact notMem_key (by decide) (getAccessChannel_word hchannel)

theorem OneWord.of_run {as : List Act} (start : w.db.NoRights)
    (run : Run Ebotula.act (fun _ a => a.FromLine) w as w') : OneWord w'.db :=
  run.invariant (I := fun w => OneWord w.db) (fun _ _ _ h hline hstep => h.act hline hstep)
    fun c hc => by
      rw [start.channel] at hc
      cases hc

end Ebotula
