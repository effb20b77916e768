import Ebotula.Laws.CallbackList
import Ebotula.Library.Interleave
import Ebotula.Runs

/-!
# Callbacks under concurrency

Workers that register callbacks and workers that answer WHOIS replies share one list.
Each of its routines takes the list's mutex, but the pointers they are given were read
before: `CallbackList.tail` as an argument of the insertion, and the element found as
an argument of the removal. So the laws are about interleavings of the handlers' single
requests, and a thread's pending request shows the pointer it holds.

An insertion takes its item in exactly where the list is empty or the tail read before
is still in it, and what is in the list stays there until it is taken out. The callers
do not look at the answer, so an item that does not come in is lost.
-/

set_option autoImplicit false

namespace Ebotula

open Library

variable {G : Type} [DbLib G] {ι : Type} [DecidableEq ι]

/-! ## Workers -/

/-- The handlers that work on the callback list. -/
inductive CallbackJob
  | banuser | kickuser | hResetModes | hCallback | hWhoisFailed
  deriving DecidableEq, Repr

namespace CallbackJob

def handler : CallbackJob → MsgItem → Quiet Unit
  | banuser => Ebotula.banuser
  | kickuser => Ebotula.kickuser
  | hResetModes => Ebotula.hResetModes
  | hCallback => Ebotula.hCallback
  | hWhoisFailed => Ebotula.hWhoisFailed

/-- The handlers of the two answers to a WHOIS. -/
def Answers (job : CallbackJob) : Prop := job = hCallback ∨ job = hWhoisFailed

end CallbackJob

/-- One execution of a handler, with what its machine answers. -/
structure CallbackWork where
  env : Env
  job : CallbackJob
  pMsg : MsgItem

/-- Workers over the world they share, and the moves of their interleaving. -/
abbrev Workers (ι G : Type) := Threads quietSig ι (World G)

namespace Workers

/-- Every worker stands before its handler. -/
def start (works : ι → CallbackWork) (w : World G) : Workers ι G :=
  ⟨fun i => (works i).job.handler (works i).pMsg, w⟩

/-- One request of one worker. -/
def step (works : ι → CallbackWork) : Workers ι G → ι → Option (Workers ι G) :=
  Threads.step fun i => performQuiet (works i).env

/-- The list as it is. -/
def list (c : Workers ι G) : CallbackDList := c.shared.callbackList

end Workers

/-! ## What one request makes of the list -/

namespace CallbackDList

/-- An element is in the list, with its item. -/
def Holds (list : CallbackDList) (a : Addr) (data : CallbackItem) : Prop :=
  list.Has a ∧ list.itemOf a = some data

/-- The requests that write the list: each inserts a new element, or takes one out. -/
inductive Change (list : CallbackDList) : Op → CallbackDList → Prop
  | same {o : Op} : Change list o list
  | inserted {element : Option Addr} {data : CallbackItem} {list' : CallbackDList} :
      (∀ a, list'.Has a ↔ list.Has a ∨ a = list.unused) →
      list'.itemOf = Function.update list.itemOf list.unused (some data) →
      list'.unused = list.unused + 1 → Change list (.insertNextCallback element data) list'
  | removed {e : Addr} {list' : CallbackDList} : list.Has e →
      (∀ a, list'.Has a ↔ list.Has a ∧ a ≠ e) →
      list'.itemOf = Function.update list.itemOf e none →
      list'.unused = list.unused → Change list (.removeCallback (some e)) list'

section Change

variable {list list' : CallbackDList} {l : List Addr} {a e : Addr} {data : CallbackItem}
  {element : Option Addr}

theorem init_wellFormed : init.WellFormed := ⟨[], init_linked⟩

theorem Linked.wellFormed (h : list.Linked l) : list.WellFormed := ⟨l, h⟩

/-- An element of the list has an address that was used before. -/
theorem WellFormed.below (wf : list.WellFormed) (h : list.Has a) : a < list.unused := by
  obtain ⟨l, hl⟩ := wf
  exact hl.below a (hl.has_iff.mp h)

/-- The insertion behind `element` takes its item in. -/
def Takes (list : CallbackDList) (element : Option Addr) : Prop :=
  list.size = 0 ∨ ∃ a ∈ element, list.Has a

/-- What is true of a chain that has one more element, in terms of the list alone. -/
theorem Linked.inserted {l' : List Addr} (h : list.Linked l) (h' : list'.Linked l')
    (hmem : ∀ a, a ∈ l' ↔ a ∈ l ∨ a = list.unused)
    (hitem : list'.itemOf = Function.update list.itemOf list.unused (some data))
    (hunused : list'.unused = list.unused + 1) :
    list'.WellFormed ∧ list.Change (.insertNextCallback element data) list' ∧
      list'.Holds list.unused data := by
  have hhas (a : Addr) : list'.Has a ↔ list.Has a ∨ a = list.unused := by
    rw [h'.has_iff, h.has_iff, hmem]
  refine ⟨h'.wellFormed, .inserted hhas hitem hunused, (hhas _).mpr (.inr rfl), ?_⟩
  rw [hitem, Function.update_self]

theorem WellFormed.insertNext (wf : list.WellFormed) (data : CallbackItem)
    (takes : list.Takes element) :
    ∃ list', list.insertNext element data = some (true, list') ∧ list'.WellFormed ∧
      list.Change (.insertNextCallback element data) list' ∧ list'.Holds list.unused data := by
  obtain ⟨l, hl⟩ := wf
  by_cases hnil : l = []
  · subst hnil
    obtain ⟨list', hrun, hlinked, hitem, hunused⟩ := hl.insertNext_empty data element
    refine ⟨list', hrun, hl.inserted hlinked (fun a => ?_) hitem hunused⟩
    simp only [List.mem_singleton, List.not_mem_nil, false_or]
  · obtain ⟨e, rfl, he⟩ := takes.resolve_left (mt hl.size_eq_zero.mp hnil)
    obtain ⟨xs, ys, rfl⟩ := List.append_of_mem (hl.has_iff.mp he)
    obtain ⟨list', hrun, hlinked, hitem, hunused⟩ := hl.insertNext data
    refine ⟨list', hrun, hl.inserted hlinked (fun a => ?_) hitem hunused⟩
    simp only [List.mem_append, List.mem_cons]
    tauto

/-- Otherwise nothing happens, or a freed node is followed. -/
theorem WellFormed.insertNext_lost (wf : list.WellFormed) (data : CallbackItem)
    (lost : ¬ list.Takes element) {r : Bool × CallbackDList}
    (h : list.insertNext element data = some r) : r = (false, list) := by
  obtain ⟨l, hl⟩ := wf
  have hne : l ≠ [] := fun he => lost (.inl (hl.size_eq_zero.mpr he))
  cases element with
  | none =>
    rw [hl.insertNext_null hne] at h
    exact (Option.some.inj h).symm
  | some e =>
    have he : e ∉ l := fun hmem => lost (.inr ⟨e, rfl, hl.has_iff.mpr hmem⟩)
    rw [hl.insertNext_freed hne he] at h
    cases h

/-- A removal that has a result takes the element out, or finds the list empty. -/
theorem WellFormed.remove (wf : list.WellFormed) {r : Option CallbackItem × CallbackDList}
    (h : list.remove element = some r) :
    r = (none, list) ∨ ∃ e, element = some e ∧ list.itemOf e = r.1 ∧ r.1.isSome ∧
      r.2.WellFormed ∧ list.Change (.removeCallback element) r.2 := by
  obtain ⟨l, hl⟩ := wf
  cases element with
  | none => exact .inl (Option.some.inj h).symm
  | some e =>
    by_cases hnil : l = []
    · subst hnil
      rw [hl.remove_empty] at h
      exact .inl (Option.some.inj h).symm
    · by_cases he : e ∈ l
      · obtain ⟨xs, ys, rfl⟩ := List.append_of_mem he
        obtain ⟨item, list', hitem, hrun, hlinked, hitems, hunused⟩ := hl.remove
        rw [hrun] at h
        cases h
        refine .inr ⟨e, rfl, hitem, rfl, hlinked.wellFormed, ?_⟩
        refine .removed (hl.has_iff.mpr he) (fun a => ?_) hitems hunused
        have hnodup := List.nodup_cons.mp (List.perm_middle.nodup_iff.mp hl.nodup)
        rw [hl.has_iff, hlinked.has_iff]
        simp only [List.mem_append, List.mem_cons]
        constructor
        · intro ha
          exact ⟨ha.imp_right .inr, fun hae => hnodup.1 (List.mem_append.mpr (hae ▸ ha))⟩
        · rintro ⟨ha, hae⟩
          tauto
      · rw [hl.remove_freed hnil he] at h
        cases h

theorem WellFormed.has_iff_used (wf : list.WellFormed) : list.Has a ↔ (list.nodes a).isSome := by
  obtain ⟨l, hl⟩ := wf
  rw [hl.has_iff, hl.used]

/-- An element of the list can be removed, and is gone then. -/
theorem WellFormed.remove_has (wf : list.WellFormed) (has : list.Has e) :
    ∃ item list', list.remove (some e) = some (some item, list') ∧ ¬ list'.Has e ∧
      e < list'.unused := by
  obtain ⟨l, hl⟩ := wf
  obtain ⟨xs, ys, rfl⟩ := List.append_of_mem (hl.has_iff.mp has)
  obtain ⟨item, list', -, hrun, hlinked, -, hunused⟩ := hl.remove
  refine ⟨item, list', hrun, fun has' => ?_, hunused ▸ hl.below e (hl.has_iff.mp has)⟩
  exact (List.nodup_cons.mp (List.perm_middle.nodup_iff.mp hl.nodup)).1 (hlinked.has_iff.mp has')

/-- A search from an element of the list, or in an empty list, ends. -/
theorem WellFormed.searchNickname_ends (wf : list.WellFormed)
    (h : list.size = 0 ∨ ∀ a ∈ element, list.Has a) (nickname : CStr) :
    ∃ r, list.searchNickname element (some nickname) = some r := by
  obtain ⟨l, hl⟩ := wf
  rcases h with hsize | has
  · exact ⟨none, hl.searchNickname_none (.inl (hl.size_eq_zero.mp hsize)) _⟩
  · cases element with
    | none => exact ⟨none, hl.searchNickname_none (.inr rfl) _⟩
    | some e =>
      obtain ⟨r, hrun, -⟩ := hl.searchNickname (hl.has_iff.mp (has e rfl)) nickname
      exact ⟨r, hrun⟩

/-- What was found is in the list. -/
theorem WellFormed.searchNickname (wf : list.WellFormed) {nickname : Option CStr}
    {r : Option Addr} (h : list.searchNickname element nickname = some r) :
    ∀ a ∈ r, list.Has a := by
  obtain ⟨l, hl⟩ := wf
  by_cases hnone : l = [] ∨ element = none
  · rw [hl.searchNickname_none hnone] at h
    cases h
    exact fun a ha => by cases ha
  · obtain ⟨hnil, hnull⟩ := not_or.mp hnone
    obtain ⟨e, rfl⟩ := Option.ne_none_iff_exists'.mp hnull
    by_cases he : e ∈ l ∧ nickname.isSome
    · obtain ⟨nickname, rfl⟩ := Option.isSome_iff_exists.mp he.2
      obtain ⟨r', hrun, hfound⟩ := hl.searchNickname he.1 nickname
      rw [hrun] at h
      cases h
      exact fun a ha => hl.has_iff.mpr (hfound a ha)
    · -- a freed node or a NULL nick is followed
      have hsome : ¬ (list.head = none ∨ list.tail = none ∨ list.size = 0) := by
        rw [hl.head, hl.tail, hl.size_eq_zero, List.head?_eq_none_iff,
          List.getLast?_eq_none_iff]
        simp only [hnil, or_self, not_false_eq_true]
      have hundefined : list.nodes e = none ∨ nickname = none := by
        rcases not_and_or.mp he with he | hnick
        · exact .inl (hl.nodes_eq_none he)
        · exact .inr (Option.not_isSome_iff_eq_none.mp hnick)
      rw [CallbackDList.searchNickname.eq_def, if_neg hsome] at h
      rcases hundefined with hnode | rfl
      · simp only [hnode, Option.bind_eq_bind, Option.bind_none, reduceCtorEq] at h
      · cases hnode : list.nodes e <;>
          simp only [hnode, Option.bind_eq_bind, Option.bind_none, Option.bind_some,
            reduceCtorEq] at h

end Change

end CallbackDList

namespace CallbackDList

section Keeps

variable {list list' : CallbackDList} {o : Op} {a : Addr} {data : CallbackItem}

/-- An element stays, whatever else is inserted or taken out. -/
theorem Change.has (h : list.Change o list') (has : list.Has a)
    (other : o ≠ .removeCallback (some a)) : list'.Has a := by
  cases h with
  | same => exact has
  | inserted hhas => exact (hhas a).mpr (.inl has)
  | removed _ hhas => exact (hhas a).mpr ⟨has, fun hae => other (hae ▸ rfl)⟩

/-- And so does its item. -/
theorem Change.holds (h : list.Change o list') (wf : list.WellFormed) (holds : list.Holds a data)
    (other : o ≠ .removeCallback (some a)) : list'.Holds a data := by
  refine ⟨h.has holds.1 other, ?_⟩
  cases h with
  | same => exact holds.2
  | inserted _ hitem =>
    rw [hitem, Function.update_of_ne (Nat.ne_of_lt (wf.below holds.1))]
    exact holds.2
  | removed _ _ hitem =>
    have hne : a ≠ _ := fun hae => other (hae ▸ rfl)
    rw [hitem, Function.update_of_ne hne]
    exact holds.2

/-- An element that was taken out does not come back: its address is not used again. -/
theorem Change.gone (h : list.Change o list') (ha : a < list.unused) (gone : ¬ list.Has a) :
    a < list'.unused ∧ ¬ list'.Has a := by
  cases h with
  | same => exact ⟨ha, gone⟩
  | inserted hhas _ hunused =>
    refine ⟨hunused ▸ Nat.lt_succ_of_lt ha, fun has => ?_⟩
    exact ((hhas a).mp has).elim gone (Nat.ne_of_lt ha)
  | removed _ hhas _ hunused => exact ⟨hunused ▸ ha, fun has => gone ((hhas a).mp has).1⟩

end Keeps

end CallbackDList

/-! ## What one request of a worker does -/

section Step

variable {env : Env} {w w' : World G} {o : Op}

/-- A request that has a result keeps the list well formed and changes it by one element
at most. -/
theorem performQuiet_change {r : o.Res} (wf : w.callbackList.WellFormed)
    (h : performQuiet env o w = some (r, w')) :
    w'.callbackList.WellFormed ∧ w.callbackList.Change o w'.callbackList := by
  cases o
  case insertNextCallback element data =>
    obtain ⟨⟨b, list'⟩, hrun, heq⟩ := Option.map_eq_some_iff.mp h
    cases heq
    by_cases takes : w.callbackList.Takes element
    · obtain ⟨list₁, hrun₁, hwf, hchange, -⟩ := wf.insertNext data takes
      rw [hrun₁] at hrun
      cases hrun
      exact ⟨hwf, hchange⟩
    · cases wf.insertNext_lost data takes hrun
      exact ⟨wf, .same⟩
  case removeCallback element =>
    obtain ⟨r', hrun, heq⟩ := Option.map_eq_some_iff.mp h
    cases heq
    rcases wf.remove hrun with rfl | ⟨e, rfl, -, -, hwf, hchange⟩
    · exact ⟨wf, .same⟩
    · exact ⟨hwf, hchange⟩
  case searchCallback | unwrittenPointer =>
    obtain ⟨_, _, heq⟩ := Option.map_eq_some_iff.mp h
    cases heq
    exact ⟨wf, .same⟩
  case crash => cases h
  all_goals
    cases h
    exact ⟨wf, .same⟩

end Step

namespace Workers

variable {works : ι → CallbackWork} {c c' c'' : Workers ι G} {i j : ι}

theorem step_change (wf : c.list.WellFormed) (h : step works c i = some c') :
    c'.list.WellFormed ∧ ∃ o, c.next i = some o ∧ c.list.Change o c'.list := by
  obtain ⟨o, k, r, w', hleft, hrun, rfl⟩ := Threads.step_cases h
  obtain ⟨hwf, hchange⟩ := performQuiet_change wf hrun
  exact ⟨hwf, o, by rw [Threads.next, hleft, Prog.next_call], hchange⟩

/-- Whatever the workers do, as far as it has a meaning the list stays well formed. -/
theorem run_wellFormed {es : List ι} {ok : Workers ι G → ι → Prop} (wf : c.list.WellFormed)
    (run : Run (step works) ok c es c') : c'.list.WellFormed :=
  run.invariant (I := fun c => c.list.WellFormed) (fun _ _ _ wf _ h => (step_change wf h).1) wf

theorem step_holds {a : Addr} {data : CallbackItem} (wf : c.list.WellFormed)
    (holds : c.list.Holds a data) (other : c.next i ≠ some (.removeCallback (some a)))
    (h : step works c i = some c') : c'.list.Holds a data := by
  obtain ⟨-, o, hnext, hchange⟩ := step_change wf h
  exact hchange.holds wf holds fun ho => other (ho ▸ hnext)

end Workers

/-- In every run of the workers, an item handed to `insert_next_CallbackDList` comes into
the list exactly where the list is empty or the tail the worker has read is still in it.
From there on it stays, with its item, until some worker removes exactly its element. -/
theorem callback_not_lost {works : ι → CallbackWork} {w : World G} {c : Workers ι G}
    {es : List ι} {i : ι} {element : Option Addr} {data : CallbackItem}
    (wf : w.callbackList.WellFormed)
    (run : Run (Workers.step works) (fun _ _ => True) (Workers.start works w) es c)
    (hnext : c.next i = some (.insertNextCallback element data)) :
    (c.list.Takes element ↔ ∃ c', Workers.step works c i = some c' ∧
      c'.list.Holds c.list.unused data) ∧
    ∀ c', Workers.step works c i = some c' → c.list.Takes element → ∀ es' c'',
      Run (Workers.step works)
        (fun c₁ j => c₁.next j ≠ some (.removeCallback (some c.list.unused))) c' es' c'' →
      c''.list.Holds c.list.unused data := by
  have wf : c.list.WellFormed := Workers.run_wellFormed (c := Workers.start works w) wf run
  obtain ⟨k, hleft⟩ := Threads.next_eq_some.mp hnext
  have hstep : Workers.step works c i = (c.list.insertNext element data).map fun r =>
      ⟨Function.update c.left i (k r.1), { c.shared with callbackList := r.2 }⟩ := by
    rw [Workers.step, Threads.step_call hleft]
    exact Option.map_map ..
  have enters (takes : c.list.Takes element) : ∃ c', Workers.step works c i = some c' ∧
      c'.list.WellFormed ∧ c'.list.Holds c.list.unused data := by
    obtain ⟨list', hrun, hwf, -, holds⟩ := wf.insertNext data takes
    rw [hrun, Option.map_some] at hstep
    exact ⟨_, hstep, hwf, holds⟩
  refine ⟨⟨fun takes => ?_, fun ⟨c', hc', holds⟩ => ?_⟩, fun c' hc' takes es' c'' run' => ?_⟩
  · obtain ⟨c', hc', -, holds⟩ := enters takes
    exact ⟨c', hc', holds⟩
  · -- an insertion that does nothing leaves the address unused
    by_contra lost
    rw [hstep] at hc'
    obtain ⟨r, hr, rfl⟩ := Option.map_eq_some_iff.mp hc'
    cases wf.insertNext_lost data lost hr
    exact absurd (wf.below holds.1) (Nat.lt_irrefl _)
  · obtain ⟨c₁, hc₁, hwf, holds⟩ := enters takes
    obtain rfl := Option.some.inj (hc₁.symm.trans hc')
    refine (run'.invariant
      (I := fun c₂ => c₂.list.WellFormed ∧ c₂.list.Holds c.list.unused data)
      (fun c₂ j c₃ h hother hstep => ?_) ⟨hwf, holds⟩).2
    exact ⟨(Workers.step_change h.1 hstep).1, Workers.step_holds h.1 h.2 hother hstep⟩

/-! ### Two bans at once -/

/-- A bot whose user `root` is logged in, without any callback. -/
def loggedInBot : World Gdbm :=
  { freshBot with db := (freshBot.db.addDb .nickToUser (some "root!r@h") (some "root")).2 }

/-- Two workers with a ban each. -/
def twoBans (i : Bool) : CallbackWork :=
  ⟨calmEnv, .banuser, rootItem (if i then "!ban #c carol" else "!ban #c bob")⟩

/-- The pointer and the item of an insertion. -/
def Op.insertion : Op → Option (Option Addr × CallbackItem)
  | insertNextCallback element data => some (element, data)
  | _ => none

theorem Op.insertion_eq {o : Op} {element : Option Addr} {data : CallbackItem}
    (h : o.insertion = some (element, data)) : o = .insertNextCallback element data := by
  cases o <;> cases h
  rfl

/-- The callback of a ban by `root`. -/
def banItem (nickname : CStr) : CallbackItem := ⟨nickname, .setBanCb, "root #c"⟩

/-- The first ban takes its item in. -/
theorem callback_not_lost_ban :
    ∃ c c', Run (Workers.step twoBans) (fun _ _ => True) (Workers.start twoBans loggedInBot)
        [false, false, false] c ∧
      Workers.step twoBans c false = some c' ∧ c'.list.Holds 0 (banItem "bob") := by
  have computed : ((Run.steps (Workers.step twoBans) (fun _ _ => true)
      (Workers.start twoBans loggedInBot) [false, false, false]).map
      fun c => ((c.next false).bind Op.insertion, c.list.size, c.list.unused)) =
      some (some (none, banItem "bob"), 0, 0) := by
    decide +kernel
  obtain ⟨c, hc, hfacts⟩ := Option.map_eq_some_iff.mp computed
  simp only [Prod.mk.injEq] at hfacts
  obtain ⟨hnext, hsize, hunused⟩ := hfacts
  obtain ⟨o, ho, hins⟩ := Option.bind_eq_some_iff.mp hnext
  rw [Op.insertion_eq hins] at ho
  have run : Run (Workers.step twoBans) (fun _ _ => True) (Workers.start twoBans loggedInBot)
      [false, false, false] c := (Run.of_steps hc).mono fun _ _ _ => trivial
  obtain ⟨enters, stays⟩ := callback_not_lost CallbackDList.init_wellFormed run ho
  obtain ⟨c', hc', -⟩ := enters.mp (.inl hsize)
  exact ⟨c, c', run, hc', hunused ▸ stays c' hc' (.inl hsize) [] c' (.nil c')⟩

/-- Both workers read the tail of the empty list; the second insertion finds the list with
an element and is given NULL. -/
theorem callback_lost_bans :
    ∃ c c', Run (Workers.step twoBans) (fun _ _ => True) (Workers.start twoBans loggedInBot)
        [false, false, false, true, true, true, false] c ∧
      c.next true = some (.insertNextCallback none (banItem "carol")) ∧
      Workers.step twoBans c true = some c' ∧ c'.list.WellFormed ∧
      ∀ a, ¬ c'.list.Holds a (banItem "carol") := by
  have computed : ((Run.steps (Workers.step twoBans) (fun _ _ => true)
      (Workers.start twoBans loggedInBot) [false, false, false, true, true, true, false]).bind
      fun c => (Workers.step twoBans c true).map fun c' =>
        ((c.next true).bind Op.insertion, c'.list.head, c'.list.nextOf 0, c'.list.itemOf 0)) =
      some (some (none, banItem "carol"), some 0, none, some (banItem "bob")) := by
    decide +kernel
  obtain ⟨c, hc, hstep⟩ := Option.bind_eq_some_iff.mp computed
  obtain ⟨c', hc', hfacts⟩ := Option.map_eq_some_iff.mp hstep
  simp only [Prod.mk.injEq] at hfacts
  obtain ⟨hnext, hhead, hlast, hitem⟩ := hfacts
  have run : Run (Workers.step twoBans) (fun _ _ => True) (Workers.start twoBans loggedInBot)
      [false, false, false, true, true, true, false] c :=
    (Run.of_steps hc).mono fun _ _ _ => trivial
  have wf : c.list.WellFormed := Workers.run_wellFormed
    (c := Workers.start twoBans loggedInBot) CallbackDList.init_wellFormed run
  refine ⟨c, c', run, ?_, hc', (Workers.step_change wf hc').1, fun a holds => ?_⟩
  · obtain ⟨o, ho, hins⟩ := Option.bind_eq_some_iff.mp hnext
    rw [ho, Op.insertion_eq hins]
  · obtain rfl := Reaches.eq_of_last holds.1 hhead hlast
    exact absurd (holds.2.symm.trans hitem) (by decide)

end Ebotula
