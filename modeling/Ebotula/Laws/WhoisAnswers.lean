import Ebotula.Laws.Callbacks

/-!
# Answers to a WHOIS under concurrency

The handlers of the two answers search the callback list for the nick and then remove
what they have found; both calls take the mutex, but nothing holds it in between. Each
thread keeps to one discipline, proved here of the two programs once: a removal comes right
after a search, with the element found. From it the invariant of the runs follows, that
who is about to remove an element has one that is in the list, as long as no other worker
has found the same element and removes it first.
-/

set_option autoImplicit false

namespace Ebotula

open Library

variable {G : Type} [DbLib G] {ι : Type} [DecidableEq ι]

/-! ## Programs that leave the list alone -/

/-- Every operation but those that write the callback list. -/
def Op.OffList : Op → Prop
  | insertNextCallback .. | removeCallback _ => False
  | _ => True

/-- A removal is requested right after a search, of the element found there. -/
def Op.Uses : (o : Op) → o.Res → Op → Prop
  | searchCallback _ _, r, removeCallback element => element = r ∧ r.isSome
  | _, _, removeCallback _ => False
  | _, _, _ => True

theorem Op.free_of_offList {o' : Op} (h : o'.OffList) :
    Prog.Free (S := quietSig) Op.Uses o' := by
  intro o r
  cases o' <;> cases o <;> trivial

/-- A routine that writes no callback list. -/
abbrev Leaves {α : Type} (p : Quiet α) : Prop := p.Calls Op.OffList

section Leaves

-- the programs are taken apart by the rules for `Calls`, and never unfolded into requests
attribute [local irreducible] Prog.Calls

variable {α : Type} {pNick pMsgStr pChannel pMod : Option CStr}

theorem leaves_request {o : Op} (h : o.OffList) : Leaves (Prog.request (S := quietSig) o) :=
  .request h

theorem leaves_crash : Leaves (crash : Quiet α) :=
  .bind (leaves_request trivial) fun r => r.elim

theorem leaves_logger {priority : LogLevel} {format : CStr} {args : List FmtArg} :
    Leaves (logger priority format args) := leaves_request trivial

theorem leaves_sendLine {line : CStr} : Leaves (sendLine line) := leaves_request trivial

theorem leaves_getDb {db : DatabaseID} {k : Option CStr} : Leaves (getDb db k) :=
  leaves_request trivial

theorem leaves_existDb {db : DatabaseID} {k : Option CStr} : Leaves (existDb db k) :=
  leaves_request trivial

theorem leaves_botname : Leaves botname := leaves_request trivial

theorem leaves_unwritten {place : Unwritten} : Leaves (unwritten place) := leaves_request trivial

theorem leaves_unwrittenPointer : Leaves unwrittenPointer := leaves_request trivial

theorem leaves_sendCommand {format : CStr} {args : List (CStr × Option CStr)} :
    Leaves (sendCommand format args) := by
  unfold sendCommand
  repeat' first
    | with_reducible exact .pure _
    | with_reducible exact leaves_logger | with_reducible exact leaves_sendLine
    | with_reducible exact leaves_crash
    | with_reducible refine .bind ?_ fun _ => ?_
    | split

theorem leaves_notice : Leaves (notice pNick pMsgStr) := leaves_sendCommand

theorem leaves_mode : Leaves (mode pChannel pMod pNick) := leaves_sendCommand

theorem leaves_ban : Leaves (ban pChannel pMod) := leaves_sendCommand

theorem leaves_kick : Leaves (kick pChannel pNick pMsgStr) := leaves_sendCommand

theorem leaves_secondChar {pMod : CStr} : Leaves (secondChar pMod) := by
  unfold secondChar
  repeat' first
    | with_reducible exact .pure _
    | with_reducible exact leaves_unwritten
    | with_reducible refine .bind ?_ fun _ => ?_
    | split

theorem leaves_setModeSign {c : Char} : Leaves (setModeSign pMod c) := by
  unfold setModeSign
  repeat' first
    | with_reducible exact .pure _
    | with_reducible exact leaves_crash
    | with_reducible refine .bind ?_ fun _ => ?_
    | split

theorem leaves_checkUserLevel {pCmdLogin : CStr} {pLogin : Option CStr} :
    Leaves (checkUserLevel pCmdLogin pLogin pChannel) := by
  unfold checkUserLevel
  dsimp only
  repeat' first
    | with_reducible exact .pure _
    | with_reducible exact leaves_getDb | with_reducible exact leaves_existDb
    | with_reducible exact leaves_crash | with_reducible exact leaves_unwrittenPointer
    | with_reducible exact leaves_secondChar
    | with_reducible refine .bind ?_ fun _ => ?_
    | split

/-- What a callback does, it does elsewhere. -/
theorem leaves_call (f : CallbackFkt) (pNetmask data : CStr) : Leaves (f.call pNetmask data) := by
  cases f with
  | modeResetCb =>
    unfold CallbackFkt.call modeResetCb
    repeat' first
      | with_reducible exact .pure _
      | with_reducible exact leaves_logger | with_reducible exact leaves_getDb
      | with_reducible exact leaves_crash | with_reducible exact leaves_secondChar
      | with_reducible exact leaves_setModeSign | with_reducible exact leaves_mode
      | with_reducible exact leaves_botname
      | with_reducible refine .bind ?_ fun _ => ?_
      | split
  | setBanCb =>
    unfold CallbackFkt.call setBanCb
    repeat' first
      | with_reducible exact .pure _
      | with_reducible exact leaves_logger | with_reducible exact leaves_getDb
      | with_reducible exact leaves_crash | with_reducible exact leaves_checkUserLevel
      | with_reducible exact leaves_ban | with_reducible exact leaves_notice
      | with_reducible refine .bind ?_ fun _ => ?_
      | split
  | kickCb =>
    unfold CallbackFkt.call kickCb
    repeat' first
      | with_reducible exact .pure _
      | with_reducible exact leaves_logger | with_reducible exact leaves_getDb
      | with_reducible exact leaves_checkUserLevel | with_reducible exact leaves_kick
      | with_reducible exact leaves_notice
      | with_reducible refine .bind ?_ fun _ => ?_
      | split

end Leaves

/-! ## The discipline of the two handlers -/

theorem follows_of_leaves {α : Type} {p : Quiet α} (h : Leaves p) : p.Follows Op.Uses :=
  (h.mono fun _ => Op.free_of_offList).follows

/-- A search whose element is removed next, as both handlers go about it. -/
theorem follows_takeOut (nickname : Option CStr) {onItem : CallbackItem → Quiet Unit}
    (h : ∀ item, Leaves (onItem item)) : Prog.Follows (S := quietSig) Op.Uses (do
      match ← searchNicknameFromCallbackDList (← callbackHead) nickname with
      | none => return
      | some element =>
        match ← removeCallbackDList (some element) with
        | none => return
        | some item => onItem item) := by
  refine fun (head : Option Addr) => ⟨fun o ho => ?_, fun (found : Option Addr) => ?_⟩
  · cases ho
    trivial
  · cases found with
    | none => exact ⟨fun o ho => (by cases ho), trivial⟩
    | some element =>
      refine ⟨fun o ho => ?_, fun (item : Option CallbackItem) => ?_⟩
      · cases ho
        exact ⟨rfl, rfl⟩
      · cases item with
        | none => exact ⟨fun o ho => (by cases ho), trivial⟩
        | some item =>
          have hleaves : Leaves (onItem item) := h item
          exact ⟨hleaves.starts.mono fun _ h' => Op.free_of_offList h' _ _,
            follows_of_leaves hleaves⟩

theorem hCallback_follows (pMsg : MsgItem) : (hCallback pMsg).Follows Op.Uses := by
  refine follows_takeOut _ fun item => ?_
  repeat' first | with_reducible exact leaves_call _ _ _ | with_reducible exact leaves_crash | split

theorem hWhoisFailed_follows (pMsg : MsgItem) : (hWhoisFailed pMsg).Follows Op.Uses := by
  refine Prog.Follows.bind (follows_of_leaves leaves_logger) (fun _ o ho => ?_) fun _ => ?_
  · cases ho
    exact Op.free_of_offList trivial
  · exact follows_takeOut _ fun item => leaves_logger

theorem CallbackJob.Answers.follows {job : CallbackJob} (h : job.Answers) (pMsg : MsgItem) :
    (job.handler pMsg).Follows Op.Uses ∧ (job.handler pMsg).Starts Op.OffList := by
  rcases h with rfl | rfl
  · refine ⟨hCallback_follows pMsg, fun o ho => ?_⟩
    cases ho
    trivial
  · refine ⟨hWhoisFailed_follows pMsg, fun o ho => ?_⟩
    cases ho
    trivial

/-! ## Runs -/

namespace Workers

/-- A worker removes an element that no other worker has found meanwhile, and searches
from an element that is still in the list. -/
def Undisturbed (c : Workers ι G) (i : ι) : Prop :=
  (∀ element, c.next i = some (.removeCallback element) →
    ∀ j, j ≠ i → c.next j ≠ some (.removeCallback element)) ∧
  ∀ element nickname, c.next i = some (.searchCallback element nickname) →
    c.list.size = 0 ∨ ∀ a ∈ element, c.list.Has a

/-- What the runs keep: the list is well formed, each worker is inside its handler, and
who is about to remove an element has one that is in the list. -/
structure Disciplined (c : Workers ι G) : Prop where
  wellFormed : c.list.WellFormed
  follows : ∀ i, (c.left i).Follows Op.Uses
  removes : ∀ i element, c.next i = some (.removeCallback element) → ∃ a ∈ element, c.list.Has a

variable {works : ι → CallbackWork} {c c' c'' : Workers ι G} {i j : ι}

omit [DbLib G] [DecidableEq ι] in
theorem Disciplined.start (answers : ∀ i, (works i).job.Answers) {w : World G}
    (wf : w.callbackList.WellFormed) : (Workers.start works w).Disciplined where
  wellFormed := wf
  follows := fun i => ((answers i).follows _).1
  removes := fun i _ h => (((answers i).follows _).2 _ h).elim

theorem Disciplined.step (h : c.Disciplined) (undisturbed : c.Undisturbed i)
    (hstep : Workers.step works c i = some c') : c'.Disciplined := by
  obtain ⟨wf, o, hnext, hchange⟩ := step_change h.wellFormed hstep
  obtain ⟨o', k, r, w', hleft, hrun, rfl⟩ := Threads.step_cases hstep
  obtain rfl : o' = o := by
    rw [Threads.next, hleft] at hnext
    exact Option.some.inj hnext
  have hfollows : ∀ r, (k r).Starts (o'.Uses r) ∧ (k r).Follows Op.Uses := by
    have := h.follows i
    rwa [hleft] at this
  refine ⟨wf, Threads.step_left (fun _ _ r h => (h r).2) hstep h.follows, ?_⟩
  intro j element hj
  by_cases hij : j = i
  · -- the reply of the search is what is removed
    subst hij
    simp only [Threads.next, Function.update_self] at hj
    have huses := (hfollows r).1 _ hj
    cases o' with
    | searchCallback start nickname =>
      obtain ⟨rfl, hsome⟩ := huses
      obtain ⟨found, hfound, heq⟩ := Option.map_eq_some_iff.mp hrun
      cases heq
      obtain ⟨a, rfl⟩ := Option.isSome_iff_exists.mp hsome
      exact ⟨a, rfl, h.wellFormed.searchNickname hfound a rfl⟩
    | _ => exact huses.elim
  · simp only [Threads.next, Function.update_of_ne hij] at hj
    obtain ⟨a, ha, has⟩ := h.removes j element hj
    refine ⟨a, ha, hchange.has has fun ho => ?_⟩
    obtain rfl : element = some a := ha
    exact undisturbed.1 (some a) (ho ▸ hnext) j hij hj

theorem Disciplined.run {es : List ι} (h : c.Disciplined)
    (run : Run (Workers.step works) Undisturbed c es c') : c'.Disciplined :=
  run.invariant (fun _ _ _ h undisturbed hstep => h.step undisturbed hstep) h

/-- An element that a worker has removed is not in the list any more, and never will be. -/
theorem Disciplined.removed {a : Addr} {ok : Workers ι G → ι → Prop} {es : List ι}
    (h : c.Disciplined) (hnext : c.next i = some (.removeCallback (some a)))
    (hstep : Workers.step works c i = some c') (run : Run (Workers.step works) ok c' es c'') :
    ¬ c''.list.Has a := by
  have wf := (step_change h.wellFormed hstep).1
  obtain ⟨o, k, r, w', hleft, hrun, rfl⟩ := Threads.step_cases hstep
  rw [Threads.next, hleft] at hnext
  cases hnext
  obtain ⟨a', ha', has⟩ := h.removes i (some a) (by rw [Threads.next, hleft, Prog.next_call])
  cases ha'
  obtain ⟨item, list', hremove, hgone, hbelow⟩ := h.wellFormed.remove_has has
  obtain ⟨r', hr', heq⟩ := Option.map_eq_some_iff.mp hrun
  obtain rfl := Option.some.inj (hremove.symm.trans hr')
  cases heq
  refine (run.invariant (I := fun c => c.list.WellFormed ∧ a < c.list.unused ∧ ¬ c.list.Has a)
    (fun c₁ j c₂ hI _ hstep => ?_) ⟨wf, hbelow, hgone⟩).2.2
  obtain ⟨wf', o, -, hchange⟩ := step_change hI.1 hstep
  exact ⟨wf', hchange.gone hI.2.1 hI.2.2⟩

end Workers

/-- The requests of the list's routines that a worker makes with a nick. -/
def Op.OnList : Op → Prop
  | removeCallback _ => True
  | searchCallback _ nickname => nickname.isSome
  | _ => False

/-- Undisturbed requests of the list follow no pointer to a freed node. -/
theorem Workers.Disciplined.isSome_step {works : ι → CallbackWork} {c : Workers ι G} {i : ι}
    {o : Op} (h : c.Disciplined) (undisturbed : c.Undisturbed i) (hnext : c.next i = some o)
    (onList : o.OnList) : (Workers.step works c i).isSome := by
  obtain ⟨k, hleft⟩ := Threads.next_eq_some.mp hnext
  rw [Workers.step, Threads.step_call hleft, Option.isSome_map]
  cases o with
  | removeCallback element =>
    obtain ⟨a, rfl, has⟩ := h.removes i element hnext
    obtain ⟨item, list', hrun, -⟩ := h.wellFormed.remove_has has
    exact (Option.isSome_map ..).trans (congrArg Option.isSome hrun)
  | searchCallback element nickname =>
    obtain ⟨nickname, rfl⟩ := Option.isSome_iff_exists.mp onList
    obtain ⟨r, hrun⟩ := h.wellFormed.searchNickname_ends (undisturbed.2 _ _ hnext) nickname
    exact (Option.isSome_map ..).trans (congrArg Option.isSome hrun)
  | _ => exact onList.elim

/-- In every run in which no worker removes an element that another worker has found
meanwhile, and none searches from an element that is gone, the list stays well formed, no
routine of it follows a pointer to a freed node, every removal is of an element that is
linked in the list, and an element that was removed, and with it its item, is never removed
again. -/
theorem callback_runs_once {works : ι → CallbackWork} {w : World G} {c : Workers ι G}
    {es : List ι} (answers : ∀ i, (works i).job.Answers) (wf : w.callbackList.WellFormed)
    (run : Run (Workers.step works) Workers.Undisturbed (Workers.start works w) es c) :
    c.list.WellFormed ∧
    (∀ i o, c.next i = some o → o.OnList → c.Undisturbed i →
      (Workers.step works c i).isSome) ∧
    (∀ i element, c.next i = some (.removeCallback element) → ∃ a ∈ element, c.list.Has a) ∧
    ∀ i a c', c.next i = some (.removeCallback (some a)) → c.Undisturbed i →
      Workers.step works c i = some c' → ∀ es' c'',
        Run (Workers.step works) Workers.Undisturbed c' es' c'' →
        ¬ c''.list.Has a ∧ ∀ j, c''.next j ≠ some (.removeCallback (some a)) := by
  have disciplined := (Workers.Disciplined.start answers wf).run run
  refine ⟨disciplined.wellFormed, fun i o hnext onList undisturbed =>
    disciplined.isSome_step undisturbed hnext onList, disciplined.removes, ?_⟩
  intro i a c' hnext undisturbed hstep es' c'' run'
  have hgone := disciplined.removed hnext hstep run'
  refine ⟨hgone, fun j hj => ?_⟩
  obtain ⟨a', ha', has⟩ := ((disciplined.step undisturbed hstep).run run').removes j _ hj
  cases ha'
  exact hgone has

/-! ## Two answers at once -/

/-- A list of two bans that wait for their WHOIS. -/
def twoCallbackList : CallbackDList where
  size := 2
  head := some 0
  tail := some 1
  nodes
    | 0 => some ⟨banItem "alice", none, some 1⟩
    | 1 => some ⟨banItem "bob", some 0, none⟩
    | _ => none
  unused := 2

theorem twoCallbackList_wellFormed : twoCallbackList.WellFormed := by
  refine ⟨[0, 1], ?_⟩
  exact
    { nodup := by decide
      size := rfl
      head := rfl
      tail := rfl
      used := fun a => by
        match a with
        | 0 | 1 => decide
        | n + 2 => exact iff_of_false Bool.false_ne_true (by simp)
      links := ⟨rfl, rfl, rfl, rfl, trivial⟩
      below := by decide }

/-- Two workers with the same answer to a WHOIS. -/
def twoAnswers (_ : Bool) : CallbackWork :=
  ⟨calmEnv, .hCallback, fillItem ":server 311 ebotula alice a h * :Alice".toList .noneLevel false⟩

/-- The world in which they start. -/
def waitingBot : World Gdbm := { loggedInBot with callbackList := twoCallbackList }

/-- The pointer of a removal. -/
def Op.removal : Op → Option (Option Addr)
  | removeCallback element => some element
  | _ => none

theorem Op.removal_eq {o : Op} {element : Option Addr} (h : o.removal = some element) :
    o = .removeCallback element := by
  cases o <;> cases h
  rfl

/-- Both workers find the callback of the nick, and the second removes it from a list that
it is not in any more. -/
theorem callback_removed_twice :
    ∃ c, Run (Workers.step twoAnswers) (fun _ _ => True) (Workers.start twoAnswers waitingBot)
        [false, false, true, true, false] c ∧
      c.next true = some (.removeCallback (some 0)) ∧ ¬ c.list.Has 0 ∧
      Workers.step twoAnswers c true = none := by
  have computed : ((Run.steps (Workers.step twoAnswers) (fun _ _ => true)
      (Workers.start twoAnswers waitingBot) [false, false, true, true, false]).map fun c =>
        ((c.next true).bind Op.removal, c.list.nodes 0, (Workers.step twoAnswers c true).isNone)) =
      some (some (some 0), none, true) := by
    decide +kernel
  obtain ⟨c, hc, hfacts⟩ := Option.map_eq_some_iff.mp computed
  simp only [Prod.mk.injEq] at hfacts
  obtain ⟨hnext, hnode, hstep⟩ := hfacts
  obtain ⟨o, ho, hremoval⟩ := Option.bind_eq_some_iff.mp hnext
  have run : Run (Workers.step twoAnswers) (fun _ _ => True)
      (Workers.start twoAnswers waitingBot) [false, false, true, true, false] c :=
    (Run.of_steps hc).mono fun _ _ _ => trivial
  have wf : c.list.WellFormed := Workers.run_wellFormed
    (c := Workers.start twoAnswers waitingBot) twoCallbackList_wellFormed run
  refine ⟨c, run, ?_, fun has => ?_, Option.isNone_iff_eq_none.mp hstep⟩
  · rw [ho, Op.removal_eq hremoval]
  · rw [wf.has_iff_used, hnode] at has
    cases has

/-- `Undisturbed`, as two workers can check it. -/
def Workers.undisturbed (c : Workers Bool G) (i : Bool) : Bool :=
  match c.next i with
  | some (.removeCallback element) => (c.next !i).bind Op.removal != some element
  | some (.searchCallback (some a) _) => (c.list.nodes a).isSome
  | _ => true

omit [DbLib G] in
theorem Workers.undisturbed_iff {c : Workers Bool G} {i : Bool} (wf : c.list.WellFormed)
    (h : c.undisturbed i = true) : c.Undisturbed i := by
  constructor
  · intro element hnext j hj hother
    obtain rfl : j = !i := by cases i <;> cases j <;> first | rfl | exact absurd rfl hj
    simp only [undisturbed, hnext, hother, Option.bind_some, Op.removal, bne_self_eq_false,
      Bool.false_eq_true] at h
  · intro element nickname hnext
    refine .inr fun a ha => ?_
    cases ha
    simp only [undisturbed, hnext] at h
    exact wf.has_iff_used.mpr h

/-- One answer after the other: the first removes what it has found. -/
theorem callback_runs_once_answer :
    ∃ c, Run (Workers.step twoAnswers) Workers.Undisturbed (Workers.start twoAnswers waitingBot)
        [false, false] c ∧
      c.next false = some (.removeCallback (some 0)) ∧ c.list.Has 0 ∧
      (Workers.step twoAnswers c false).isSome := by
  have computed : ((Run.steps (Workers.step twoAnswers) Workers.undisturbed
      (Workers.start twoAnswers waitingBot) [false, false]).map fun c =>
        ((c.next false).bind Op.removal, c.undisturbed false)) = some (some (some 0), true) := by
    decide +kernel
  obtain ⟨c, hc, hfacts⟩ := Option.map_eq_some_iff.mp computed
  simp only [Prod.mk.injEq] at hfacts
  obtain ⟨o, ho, hremoval⟩ := Option.bind_eq_some_iff.mp hfacts.1
  have hnext : c.next false = some (.removeCallback (some 0)) := by
    rw [ho, Op.removal_eq hremoval]
  have run : Run (Workers.step twoAnswers) Workers.Undisturbed
      (Workers.start twoAnswers waitingBot) [false, false] c :=
    (Run.of_steps hc).weaken (I := fun c => c.list.WellFormed)
      (fun _ _ _ wf _ hstep => (Workers.step_change wf hstep).1)
      (fun _ _ wf hok => Workers.undisturbed_iff wf hok) twoCallbackList_wellFormed
  obtain ⟨wf, results, removes, -⟩ :=
    callback_runs_once (fun _ => .inl rfl) twoCallbackList_wellFormed run
  obtain ⟨a, ha, has⟩ := removes false _ hnext
  cases ha
  exact ⟨c, run, hnext, has,
    results false _ hnext trivial (Workers.undisturbed_iff wf hfacts.2)⟩

end Ebotula
