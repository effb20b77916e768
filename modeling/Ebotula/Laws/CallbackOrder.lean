import Ebotula.Laws.CallbackRuns
import Ebotula.Laws.Sending
import Ebotula.Laws.WhoisAnswers
import Ebotula.Laws.Words
import Ebotula.Library.KeyedQueue

/-!
# The order of callbacks

Registrations go behind the tail, and an answer to a WHOIS takes the first item of its nick
from the head on. So the callback list is one queue with keys, the nicks as `strcasecmp`
compares them: what is registered for one nick is taken in the order of its registration, and
an answer for one nick leaves the items of all others where they are.
-/

set_option autoImplicit false

namespace Ebotula

open Library

/-! ## The list as a queue -/

/-- A nick as `strcasecmp` compares it. -/
def nickKey (pNick : CStr) : CStr := pNick.map Char.toLower

/-- The nick that an item waits for. -/
def CallbackItem.key (item : CallbackItem) : CStr := nickKey item.nickname

theorem strcaseeq_nickname (item : CallbackItem) (pNick : CStr) :
    strcaseeq item.nickname pNick = decide (item.key = nickKey pNick) := beq_eq_decide ..

namespace CallbackDList

/-- The list is well formed, and its items from the head to the tail are `q`. -/
def Queues (list : CallbackDList) (q : List CallbackItem) : Prop :=
  ∃ elems, list.Carries elems ∧ elems.map Prod.snd = q

variable {list : CallbackDList} {elems : List Elem}

theorem init_queues : init.Queues [] := ⟨[], init_carries, rfl⟩

/-- A list has its items in one order only. -/
theorem Queues.unique {q q' : List CallbackItem} (h : list.Queues q) (h' : list.Queues q') :
    q = q' := by
  obtain ⟨elems, h, rfl⟩ := h
  obtain ⟨elems', h', rfl⟩ := h'
  have helems : elems.map Prod.fst = elems'.map Prod.fst :=
    Option.some.inj (h.shows.forward.symm.trans h'.shows.forward)
  have hitems {elems : List Elem} (h : list.Carries elems) :
      (elems.map Prod.snd).map some = (elems.map Prod.fst).map list.itemOf := by
    rw [List.map_map, List.map_map]
    exact List.map_congr_left fun x hx => (h.items x hx).symm
  have hsome := (hitems h).trans ((congrArg _ helems).trans (hitems h').symm)
  exact List.map_injective_iff.mpr (Option.some_injective _) hsome

/-- Every element carries its item, and its links. -/
theorem Carries.node {xs ys : List Elem} {e : Elem} (h : list.Carries (xs ++ e :: ys)) :
    list.nodes e.1 = some ⟨e.2, (xs.map Prod.fst).getLast?, (ys.map Prod.fst).head?⟩ := by
  have hsplit := h.linked
  rw [List.map_append, List.map_cons] at hsplit
  obtain ⟨data, hnode⟩ := hsplit.node
  have hitem := h.items e (List.mem_append_right _ List.mem_cons_self)
  rw [itemOf, hnode, Option.map_some, Option.some.injEq] at hitem
  rw [hnode, ← hitem]

/-- The loop of the search stops at the first item of the nick, or at the end. -/
theorem Carries.seek_next {xs ys : List Elem} {e : Elem} {nickname : CStr} {fuel : Nat}
    (h : list.Carries (xs ++ e :: ys)) (hfuel : ys.length < fuel) :
    list.seek CallbackDListItem.next nickname fuel e.1 =
      some (((e :: ys).find? fun x => strcaseeq x.2.nickname nickname).map Prod.fst) := by
  induction ys generalizing xs e fuel with
  | nil =>
    obtain ⟨fuel, rfl⟩ := Nat.exists_eq_add_one_of_ne_zero (Nat.ne_of_gt hfuel)
    rw [seek, h.node, List.find?_cons]
    simp only [Option.bind_eq_bind, Option.bind_some, List.map_nil, List.head?_nil]
    cases strcaseeq e.2.nickname nickname <;> rfl
  | cons y ys ih =>
    obtain ⟨fuel, rfl⟩ := Nat.exists_eq_add_one_of_ne_zero (Nat.ne_of_gt (Nat.zero_lt_of_lt hfuel))
    have hrest : list.Carries ((xs ++ [e]) ++ y :: ys) := by rwa [List.append_assoc]
    rw [seek, h.node, List.find?_cons]
    simp only [Option.bind_eq_bind, Option.bind_some, List.map_cons, List.head?_cons,
      ih hrest (Nat.lt_of_succ_lt_succ hfuel)]
    cases strcaseeq e.2.nickname nickname <;> rfl

/-- From the head the search finds the first item of the nick. -/
theorem Carries.searchNickname (h : list.Carries elems) (nickname : CStr) :
    list.searchNickname list.head (some nickname) =
      some ((elems.find? fun x => strcaseeq x.2.nickname nickname).map Prod.fst) := by
  cases elems with
  | nil => exact h.linked.searchNickname_none (.inl rfl) _
  | cons e elems =>
    have hhead : list.head = some e.1 := h.linked.head
    have htail : list.tail ≠ none := by
      rw [h.linked.tail, Ne, List.getLast?_eq_none_iff]
      exact List.cons_ne_nil _ _
    have hsize : list.size ≠ 0 := by
      rw [h.linked.size]
      exact Nat.succ_ne_zero _
    have hfront : list.Carries ([] ++ e :: elems) := h
    have hnode := hfront.node
    have hlen := h.linked.length_le
    rw [List.length_map] at hlen
    rw [CallbackDList.searchNickname.eq_def, if_neg (by simp only [hhead, htail, hsize,
      reduceCtorEq, or_self, not_false_eq_true]), hhead]
    simp only [hnode, Option.bind_eq_bind, Option.bind_some, List.map_nil, List.getLast?_nil,
      Option.isSome_none, Bool.false_eq_true, false_and, if_false]
    exact hfront.seek_next hlen

/-- Behind the tail a new item is the last one. -/
theorem Carries.append (h : list.Carries elems) (data : CallbackItem) :
    ∃ list', list.insertNext list.tail data = some (true, list') ∧
      list'.Carries (elems ++ [(list.unused, data)]) := by
  rcases List.eq_nil_or_concat elems with rfl | ⟨elems, e, rfl⟩
  · obtain ⟨list', hr, hlinked, hitems, -⟩ := h.linked.insertNext_empty data list.tail
    exact ⟨list', hr, h.added hlinked hitems fun x hx => .inl (List.mem_singleton.mp hx)⟩
  · rw [List.concat_eq_append] at h ⊢
    have hsplit := h.linked
    have htail := h.linked.tail
    rw [List.map_append, List.map_singleton, List.getLast?_concat] at htail
    rw [List.map_append, List.map_singleton] at hsplit
    have hlast : list.Linked (elems.map Prod.fst ++ e.1 :: []) := hsplit
    obtain ⟨list', hr, hlinked, hitems, -⟩ := hlast.insertNext data
    refine ⟨list', by rw [htail, hr], h.added (by simpa using hlinked) hitems fun x hx => ?_⟩
    rw [List.mem_append, List.mem_singleton] at hx
    exact hx.symm

open KeyedQueue in
/-- The first item of a nick, with its element, and the list without it. -/
theorem Carries.takes (h : list.Carries elems) {nickname : CStr} {item : CallbackItem}
    (hfirst : first CallbackItem.key (nickKey nickname) (elems.map Prod.snd) = some item) :
    ∃ a list' elems', list.searchNickname list.head (some nickname) = some (some a) ∧
      list.remove (some a) = some (some item, list') ∧ list'.Carries elems' ∧
      elems'.map Prod.snd = drop CallbackItem.key (nickKey nickname) (elems.map Prod.snd) := by
  rw [KeyedQueue.first, List.find?_map] at hfirst
  obtain ⟨⟨a, item'⟩, hfind, rfl⟩ := Option.map_eq_some_iff.mp hfirst
  have hsearch := h.searchNickname nickname
  simp only [strcaseeq_nickname] at hsearch
  rw [show elems.find? (fun x => decide (x.2.key = nickKey nickname)) = some (a, item') from hfind]
    at hsearch
  obtain ⟨hkey, xs, ys, rfl, hxs⟩ := List.find?_eq_some_iff_append.mp hfind
  obtain ⟨list', hremove, hrest⟩ := h.removed
  refine ⟨a, list', xs ++ ys, hsearch, hremove, hrest, ?_⟩
  have hbefore : ∀ x ∈ xs.map Prod.snd, ¬ decide (x.key = nickKey nickname) = true := by
    intro x hx
    obtain ⟨y, hy, rfl⟩ := List.mem_map.mp hx
    simpa using hxs y hy
  rw [drop, List.map_append, List.map_append, List.map_cons, List.eraseP_append_right _ hbefore,
    List.eraseP_cons_of_pos (p := fun b : CallbackItem => decide (b.key = nickKey nickname)) hkey]

open KeyedQueue in
theorem Carries.search_eq_none_iff (h : list.Carries elems) (nickname : CStr) :
    list.searchNickname list.head (some nickname) = some none ↔
      first CallbackItem.key (nickKey nickname) (elems.map Prod.snd) = none := by
  rw [h.searchNickname, KeyedQueue.first, List.find?_map, Option.some.injEq, Option.map_eq_none_iff,
    Option.map_eq_none_iff]
  simp only [strcaseeq_nickname, Function.comp_def]

end CallbackDList

/-! ## Histories -/

/-- What is done to the list: an item is registered, or the server answers a WHOIS with the
user (311) or without one (401). -/
inductive CallbackEvent
  | registers (item : CallbackItem)
  | answers (pMsg : MsgItem)
  | fails (pMsg : MsgItem)

/-- An answer from its fourth word on. -/
def answeredWords (pRawLine : CStr) : Option CStr :=
  let pRest := rmFirstPart pRawLine none
  let pRest := rmFirstPart pRest pRest
  rmFirstPart pRest pRest

/-- The nick, the user and the host of an answer. -/
def answeredParts (pRawLine : CStr) : Option CStr × Option CStr × Option CStr :=
  let pRest := answeredWords pRawLine
  let (pNick, pRest) := getFirstPart pRest pRest
  let (pLogin, pRest) := getFirstPart pRest pRest
  (pNick, pLogin, (getFirstPart pRest none).1)

/-- The nick that an answer names. -/
def answeredNick (pRawLine : CStr) : Option CStr := (answeredParts pRawLine).1

/-- The callback of an item for the user of an answer. -/
def CallbackItem.calledBack (item : CallbackItem)
    (parts : Option CStr × Option CStr × Option CStr) : Quiet Unit :=
  match parts.1, parts.2.1, parts.2.2 with
  | some pNick, some pLogin, some pDomain =>
    item.callbackFkt.call (pNick ++ '!' :: pLogin ++ '@' :: pDomain) item.data
  | _, _, _ => crash

namespace CallbackEvent

def program : CallbackEvent → Quiet Unit
  | registers item => registerCallback item
  | answers pMsg => hCallback pMsg
  | fails pMsg => hWhoisFailed pMsg

/-- What an event is for the queue, if an answer has a nick. -/
def onQueue : CallbackEvent → Option (QueueEvent CallbackItem CStr)
  | registers item => some (.put item)
  | answers pMsg | fails pMsg => (answeredNick pMsg.pRawLine).map fun pNick => .take (nickKey pNick)

end CallbackEvent

/-- The events of a history for the queue. -/
def queueEvents (es : List (Env × CallbackEvent)) : List (QueueEvent CallbackItem CStr) :=
  es.filterMap fun e => e.2.onQueue

theorem queueEvents_cons {e : Env × CallbackEvent} {es : List (Env × CallbackEvent)}
    {event : QueueEvent CallbackItem CStr} (h : e.2.onQueue = some event) :
    queueEvents (e :: es) = event :: queueEvents es := List.filterMap_cons_some h

section Runs

open KeyedQueue (first drop taken ofKey put)

variable {G : Type} [DbLib G] {env : Env} {w : World G} {pMsg : MsgItem} {pNick : CStr}

/-- What both answers do with the item they find. -/
def takeOutCallback (pNick : Option CStr) (onItem : CallbackItem → Quiet Unit) : Quiet Unit := do
  match ← searchNicknameFromCallbackDList (← callbackHead) pNick with
  | none => return
  | some element =>
    match ← removeCallbackDList (some element) with
    | none => return
    | some item => onItem item

theorem hCallback_eq (pMsg : MsgItem) : hCallback pMsg =
    takeOutCallback (answeredNick pMsg.pRawLine) fun item =>
      item.calledBack (answeredParts pMsg.pRawLine) := rfl

theorem hWhoisFailed_eq (pMsg : MsgItem) : hWhoisFailed pMsg = (do
    logger .debug "Look for a callback zombie routine of the user %s"
      [.str (answeredNick pMsg.pRawLine)]
    takeOutCallback (answeredNick pMsg.pRawLine) fun _ =>
      logger .debug "The callback zombie routine of the user %s is removed"
        [.str (answeredNick pMsg.pRawLine)]) := by
  rw [answeredNick, answeredParts]
  dsimp only
  rw [getFirstPart_fst _ _ none]
  rfl

theorem run_callbackHead :
    callbackHead.run (performQuiet env) w = some (w.callbackList.head, w) := Prog.run_request _ _

theorem run_search (element : Option Addr) (nickname : Option CStr) :
    (searchNicknameFromCallbackDList element nickname).run (performQuiet env) w =
      (w.callbackList.searchNickname element nickname).map fun r => (r, w) := Prog.run_request _ _

theorem run_remove (element : Option Addr) :
    (removeCallbackDList element).run (performQuiet env) w =
      (w.callbackList.remove element).map fun r => (r.1, { w with callbackList := r.2 }) :=
  Prog.run_request _ _

open CallbackDList (Carries Elem)

variable {elems : List Elem} {onItem : CallbackItem → Quiet Unit}

/-- For a nick that nothing waits for, nothing is done. -/
theorem run_takeOut_none (h : w.callbackList.Carries elems)
    (hfirst : first CallbackItem.key (nickKey pNick) (elems.map Prod.snd) = none) :
    (takeOutCallback (some pNick) onItem).run (performQuiet env) w = some ((), w) := by
  rw [takeOutCallback, Prog.run_bind, run_callbackHead, Option.bind_some, Prog.run_bind, run_search,
    (h.search_eq_none_iff pNick).mpr hfirst, Option.map_some, Option.bind_some]
  rfl

/-- Otherwise the first item is taken out, and what is to be done with it is done. -/
theorem run_takeOut_some (env : Env) (h : w.callbackList.Carries elems) {item : CallbackItem}
    (hfirst : first CallbackItem.key (nickKey pNick) (elems.map Prod.snd) = some item) :
    ∃ list' elems', list'.Carries elems' ∧
      elems'.map Prod.snd = drop CallbackItem.key (nickKey pNick) (elems.map Prod.snd) ∧
      ∀ onItem, (takeOutCallback (some pNick) onItem).run (performQuiet env) w =
        (onItem item).run (performQuiet env) { w with callbackList := list' } := by
  obtain ⟨a, list', elems', hsearch, hremove, hcarries, hitems⟩ := h.takes hfirst
  refine ⟨list', elems', hcarries, hitems, fun onItem => ?_⟩
  rw [takeOutCallback, Prog.run_bind, run_callbackHead, Option.bind_some, Prog.run_bind, run_search,
    hsearch, Option.map_some, Option.bind_some]
  dsimp only
  rw [Prog.run_bind, run_remove, hremove, Option.map_some, Option.bind_some]

/-- A registration goes behind all others. -/
theorem run_registerCallback (env : Env) (h : w.callbackList.Carries elems) (item : CallbackItem) :
    ∃ w' a, (registerCallback item).run (performQuiet env) w = some ((), w') ∧
      w'.callbackList.Carries (elems ++ [(a, item)]) ∧ w'.db = w.db ∧
      w'.pBotname = w.pBotname := by
  obtain ⟨list', hinsert, hcarries⟩ := h.append item
  have hwhois (w' : World G) : (whois item.nickname).run (performQuiet env) w' = some ((),
      w'.sending env ("WHOIS ".toList ++ item.nickname ++ "\r\n".toList)) :=
    run_sendCommand rfl (by simp [vsprintf])
  have hinserted : (insertNextCallbackDList w.callbackList.tail item).run (performQuiet env) w =
      (w.callbackList.insertNext w.callbackList.tail item).map
        fun r => (r.1, { w with callbackList := r.2 }) := Prog.run_request _ _
  have htail : callbackTail.run (performQuiet env) w = some (w.callbackList.tail, w) :=
    Prog.run_request _ _
  have hrun := hwhois { w with callbackList := list' }
  refine ⟨_, w.callbackList.unused, Eq.trans ?_ hrun, hcarries, rfl, rfl⟩
  rw [registerCallback, Prog.run_bind, htail, Option.bind_some, Prog.run_bind, hinserted, hinsert,
    Option.map_some, Option.bind_some]

/-! ## One event -/

theorem leaves_calledBack (item : CallbackItem)
    (parts : Option CStr × Option CStr × Option CStr) : Leaves (item.calledBack parts) := by
  unfold CallbackItem.calledBack
  split
  · exact leaves_call _ _ _
  · exact leaves_crash

/-- A routine that writes no callback list leaves it as it is. -/
theorem Leaves.keeps {α : Type} {p : Quiet α} (h : Leaves p) :
    p.wp (performQuiet env) (fun _ w' => w'.callbackList = w.callbackList) w := by
  refine Prog.Calls.keeps (f := World.callbackList) h (fun o ho w r w' hrun => ?_) w
  cases o
  case insertNextCallback | removeCallback => exact ho.elim
  case searchCallback | unwrittenPointer =>
    obtain ⟨_, _, he⟩ := Option.map_eq_some_iff.mp hrun
    exact congrArg (World.callbackList ∘ Prod.snd) he.symm
  case crash => cases hrun
  all_goals
    cases hrun
    rfl

namespace CallbackEvent

/-- What an event does to a bot with the items `q`: a registration puts its item behind them;
an answer takes the first one of its nick, and with the user it is called back, in a bot that
does not have the item any more; an answer for a nick without an item takes nothing. -/
def Serves (env : Env) (w : World G) (q : List CallbackItem) : CallbackEvent → Prop
  | registers item => ∃ w', (registerCallback item).run (performQuiet env) w = some ((), w') ∧
      w'.callbackList.Queues (q ++ [item])
  | answers pMsg => ∀ pNick ∈ answeredNick pMsg.pRawLine,
      match first CallbackItem.key (nickKey pNick) q with
      | none => (hCallback pMsg).run (performQuiet env) w = some ((), w)
      | some item => ∃ list', list'.Queues (drop CallbackItem.key (nickKey pNick) q) ∧
          (hCallback pMsg).run (performQuiet env) w =
            (item.calledBack (answeredParts pMsg.pRawLine)).run (performQuiet env)
              { w with callbackList := list' }
  | fails pMsg => ∀ pNick ∈ answeredNick pMsg.pRawLine,
      ∃ w', (hWhoisFailed pMsg).run (performQuiet env) w = some ((), w') ∧
        w'.callbackList.Queues (drop CallbackItem.key (nickKey pNick) q)

variable {q : List CallbackItem} {e : CallbackEvent}

theorem serves (h : w.callbackList.Queues q) (env : Env) (e : CallbackEvent) :
    e.Serves env w q := by
  obtain ⟨elems, h, rfl⟩ := h
  cases e with
  | registers item =>
    obtain ⟨w', a, hrun, hcarries, -⟩ := run_registerCallback env h item
    exact ⟨w', hrun, _, hcarries, by rw [List.map_append, List.map_singleton]⟩
  | answers pMsg =>
    intro pNick hnick
    have hnick : answeredNick pMsg.pRawLine = some pNick := hnick
    rw [hCallback_eq, hnick]
    cases hfirst : first CallbackItem.key (nickKey pNick) (elems.map Prod.snd) with
    | none => exact run_takeOut_none h hfirst
    | some item =>
      obtain ⟨list', elems', hcarries, hitems, hrun⟩ := run_takeOut_some env h hfirst
      exact ⟨list', ⟨elems', hcarries, hitems⟩, hrun _⟩
  | fails pMsg =>
    intro pNick hnick
    have hnick : answeredNick pMsg.pRawLine = some pNick := hnick
    rw [hWhoisFailed_eq, hnick, Prog.run_bind, run_logger, Option.bind_some]
    cases hfirst : first CallbackItem.key (nickKey pNick) (elems.map Prod.snd) with
    | none =>
      refine ⟨_, run_takeOut_none (w := w.logging _) h hfirst, elems, h, ?_⟩
      rw [KeyedQueue.drop_of_first_eq_none hfirst]
    | some item =>
      obtain ⟨list', elems', hcarries, hitems, hrun⟩ :=
        run_takeOut_some env (w := w.logging _) h hfirst
      exact ⟨_, (hrun _).trans run_logger, elems', hcarries, hitems⟩

/-- One event, with what the machine answers meanwhile. -/
def step (w : World G) (e : Env × CallbackEvent) : Option (World G) :=
  (e.2.program.run (performQuiet e.1) w).map Prod.snd

/-- An event that comes to its end has done to the list what it does to the queue. -/
theorem step_queues {w' : World G} {e : Env × CallbackEvent}
    {onQueue : QueueEvent CallbackItem CStr} (h : w.callbackList.Queues q)
    (hqueue : e.2.onQueue = some onQueue) (hstep : step w e = some w') :
    w'.callbackList.Queues (KeyedQueue.next CallbackItem.key q onQueue) := by
  obtain ⟨env, e⟩ := e
  obtain ⟨⟨⟨⟩, w₁⟩, hrun, rfl⟩ := Option.map_eq_some_iff.mp hstep
  have hserves := serves h env e
  cases e with
  | registers item =>
    cases hqueue
    obtain ⟨w₂, hrun₂, hqueues⟩ := hserves
    cases hrun₂.symm.trans hrun
    exact hqueues
  | answers pMsg =>
    obtain ⟨pNick, hnick, rfl⟩ := Option.map_eq_some_iff.mp hqueue
    have hserves := hserves pNick hnick
    rw [KeyedQueue.next]
    cases hfirst : first CallbackItem.key (nickKey pNick) q with
    | none =>
      rw [hfirst] at hserves
      cases hserves.symm.trans hrun
      rwa [KeyedQueue.drop_of_first_eq_none hfirst]
    | some item =>
      rw [hfirst] at hserves
      obtain ⟨list', hqueues, hrun'⟩ := hserves
      -- the callback itself leaves the list alone
      have hlist := (leaves_calledBack item _).keeps () _ (hrun'.symm.trans hrun)
      dsimp only at hlist ⊢
      rw [hlist]
      exact hqueues
  | fails pMsg =>
    obtain ⟨pNick, hnick, rfl⟩ := Option.map_eq_some_iff.mp hqueue
    obtain ⟨w₂, hrun₂, hqueues⟩ := hserves pNick hnick
    cases hrun₂.symm.trans hrun
    exact hqueues

/-- In a history every answer has a nick. -/
abbrev History (w : World G) (es : List (Env × CallbackEvent)) (w' : World G) : Prop :=
  Run step (fun _ e => e.2.onQueue.isSome) w es w'

theorem history_queues {w' : World G} {es : List (Env × CallbackEvent)}
    (h : w.callbackList.Queues q) (run : History w es w') :
    w'.callbackList.Queues (KeyedQueue.after CallbackItem.key q (queueEvents es)) := by
  induction run generalizing q with
  | nil => exact h
  | cons hok hstep _ ih =>
    obtain ⟨event, hevent⟩ := Option.isSome_iff_exists.mp hok
    rw [queueEvents_cons hevent, KeyedQueue.after, List.foldl_cons]
    exact ih (step_queues h hevent hstep)

end CallbackEvent

open CallbackEvent in
/-- After every history of registrations and answers the list is well formed, and its items are
those that wait in the queue. What answers have taken for a nick, followed by what still waits
for it, is what was registered for it, in that order. A search from the head finds nothing only
if nothing waits for the nick. Every further event does what it should, and an answer leaves all
items for other nicks in their order. -/
theorem callbacks_in_order {w w' : World G} {es : List (Env × CallbackEvent)}
    (start : w.callbackList = .init) (run : History w es w') :
    let q := KeyedQueue.after CallbackItem.key [] (queueEvents es)
    w'.callbackList.Queues q ∧
      (∀ pNick, taken CallbackItem.key (nickKey pNick) [] (queueEvents es) ++
        ofKey CallbackItem.key (nickKey pNick) q =
          ofKey CallbackItem.key (nickKey pNick) (put (queueEvents es))) ∧
      (∀ pNick, w'.callbackList.searchNickname w'.callbackList.head (some pNick) = some none ↔
        ∀ item ∈ q, ¬ strcaseeq item.nickname pNick) ∧
      (∀ env e, Serves env w' q e) ∧
      ∀ pNick, (drop CallbackItem.key (nickKey pNick) q).filter
          (fun item => !strcaseeq item.nickname pNick) =
        q.filter fun item => !strcaseeq item.nickname pNick := by
  intro q
  have hqueues : w'.callbackList.Queues q :=
    history_queues (start ▸ CallbackDList.init_queues) run
  refine ⟨hqueues, fun pNick => ?_, fun pNick => ?_, serves hqueues, fun pNick => ?_⟩
  · exact KeyedQueue.taken_append_pending (nickKey pNick) [] (queueEvents es)
  · obtain ⟨elems, hcarries, hitems⟩ := hqueues
    rw [hcarries.search_eq_none_iff, hitems, KeyedQueue.first_eq_none_iff]
    simp only [strcaseeq_nickname, decide_eq_true_eq, ne_eq]
  · refine KeyedQueue.filter_drop_of_ne _ q fun item hitem hkey => ?_
    rw [strcaseeq_nickname, decide_eq_true hkey] at hitem
    cases hitem

end Runs

/-- A line of the server about a WHOIS. -/
def whoisAnswer (line : String) : MsgItem := fillItem line.toList .noneLevel false

/-- Two items for one nick, and one for another. -/
def threeCallbacks : List (Env × CallbackEvent) :=
  [(calmEnv, .registers (banItem "alice")), (calmEnv, .registers (banItem "bob")),
    (calmEnv, .registers ⟨"Alice", .kickCb, "root #c out"⟩),
    (calmEnv, .answers (whoisAnswer ":irc 311 ebotula ALICE a h * :Alice")),
    (calmEnv, .fails (whoisAnswer ":irc 401 ebotula bob :No such nick"))]

/-- The answer takes the ban, and the kick still waits. -/
theorem callbacks_in_order_alice : ∃ w', CallbackEvent.History freshBot threeCallbacks w' ∧
    w'.callbackList.Queues [⟨"Alice", .kickCb, "root #c out"⟩] ∧
    KeyedQueue.taken CallbackItem.key (nickKey "alice") [] (queueEvents threeCallbacks) =
      [banItem "alice"] := by
  have computed : (Run.steps CallbackEvent.step (fun _ e => e.2.onQueue.isSome) freshBot
      threeCallbacks).isSome = true ∧
      KeyedQueue.after CallbackItem.key [] (queueEvents threeCallbacks) =
        [⟨"Alice", .kickCb, "root #c out"⟩] ∧
      KeyedQueue.ofKey CallbackItem.key (nickKey "alice")
        (KeyedQueue.put (queueEvents threeCallbacks)) =
          [banItem "alice", ⟨"Alice", .kickCb, "root #c out"⟩] := by
    decide +kernel
  obtain ⟨hrun, hafter, hput⟩ := computed
  obtain ⟨w', hw'⟩ := Option.isSome_iff_exists.mp hrun
  have run : CallbackEvent.History freshBot threeCallbacks w' := Run.of_steps hw'
  obtain ⟨hqueues, htaken, -⟩ := callbacks_in_order rfl run
  rw [hafter] at hqueues
  have halice := htaken "alice"
  rw [hafter, hput] at halice
  have halice : _ ++ [⟨"Alice", .kickCb, "root #c out"⟩] =
      [banItem "alice"] ++ [⟨"Alice", .kickCb, "root #c out"⟩] := halice
  exact ⟨w', run, hqueues, List.append_cancel_right halice⟩

end Ebotula
