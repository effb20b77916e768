import Ebotula.Types

/-!
# The callback list

`callbacklist.c`: a doubly linked list of pointers that every worker shares. An
element is an address, and the nodes in use are what is allocated there and not
freed; an address is used once. Each routine runs under the list's mutex, so it is
one function of the list. It answers `none` where it would follow a pointer to a
node that has been freed: the program has no meaning from there on.

The caller's `CallbackList.tail` and `CallbackList.head` are read outside the mutex
and passed in, as the source passes them.
-/

set_option autoImplicit false

namespace Ebotula

open Library

/-- The routines that are registered as `CallbackFkt`. -/
inductive CallbackFkt
  | modeResetCb
  | setBanCb
  | kickCb
  deriving DecidableEq, Repr

/-- `CallbackItem_t`. -/
structure CallbackItem where
  nickname : CStr
  callbackFkt : CallbackFkt
  data : CStr
  deriving DecidableEq, Repr

/-- `CallbackDListItem`. -/
structure CallbackDListItem where
  data : CallbackItem
  prev : Option Addr
  next : Option Addr
  deriving DecidableEq, Repr

/-- `CallbackDList`, with the nodes in use and the next unused address. -/
structure CallbackDList where
  size : Nat
  head : Option Addr
  tail : Option Addr
  nodes : Addr → Option CallbackDListItem
  unused : Addr

namespace CallbackDList

/-- `init_extended_CallbackDList`. -/
def init : CallbackDList := ⟨0, none, none, fun _ => none, 0⟩

/-- Writing a node that is in use. -/
def modify (list : CallbackDList) (element : Addr) (f : CallbackDListItem → CallbackDListItem) :
    Option CallbackDList :=
  (list.nodes element).map fun node =>
    { list with nodes := Function.update list.nodes element (some (f node)) }

/-- `malloc` of a node with its contents. -/
def alloc (list : CallbackDList) (node : CallbackDListItem) : Addr × CallbackDList :=
  (list.unused,
    { list with
      nodes := Function.update list.nodes list.unused (some node)
      unused := list.unused + 1 })

/-- The branch of both insertions for a list without elements. -/
def insertFirst (list : CallbackDList) (data : CallbackItem) : CallbackDList :=
  let (new, list) := list.alloc ⟨data, none, none⟩
  { list with head := some new, tail := some new, size := list.size + 1 }

/-- `insert_next_CallbackDList`: `false` is its `-1`. -/
def insertNext (list : CallbackDList) (element : Option Addr) (data : CallbackItem) :
    Option (Bool × CallbackDList) :=
  if list.size = 0 then some (true, list.insertFirst data)
  else
    match element with
    | none => some (false, list)
    | some element => do
      let node ← list.nodes element
      let (new, list) := list.alloc ⟨data, some element, node.next⟩
      let list ←
        match node.next with
        | none => some { list with tail := some new }
        | some next => list.modify next fun n => { n with prev := some new }
      let list ← list.modify element fun n => { n with next := some new }
      return (true, { list with size := list.size + 1 })

/-- `insert_prev_CallbackDList`: `false` is its `-1`. -/
def insertPrev (list : CallbackDList) (element : Option Addr) (data : CallbackItem) :
    Option (Bool × CallbackDList) :=
  if list.size = 0 then some (true, list.insertFirst data)
  else
    match element with
    | none => some (false, list)
    | some element => do
      let node ← list.nodes element
      let (new, list) := list.alloc ⟨data, node.prev, some element⟩
      let list ←
        match node.prev with
        | none => some { list with head := some new }
        | some prev => list.modify prev fun n => { n with next := some new }
      let list ← list.modify element fun n => { n with prev := some new }
      return (true, { list with size := list.size + 1 })

/-- `removeCallbackDList`: the item of the element removed, `none` for `-1`. -/
def remove (list : CallbackDList) (element : Option Addr) :
    Option (Option CallbackItem × CallbackDList) :=
  match element with
  | none => some (none, list)
  | some element =>
    if list.size = 0 then some (none, list)
    else do
      let node ← list.nodes element
      let list ←
        if list.head = some element then
          match node.next with
          | none => some { list with head := none, tail := none }
          | some next =>
            modify { list with head := some next } next fun n => { n with prev := none }
        else do
          let list ← node.prev.bind fun prev =>
            list.modify prev fun n => { n with next := node.next }
          match node.next with
          | none => some { list with tail := node.prev }
          | some next => list.modify next fun n => { n with prev := node.prev }
      return (some node.data,
        { list with
          nodes := Function.update list.nodes element none
          size := list.size - 1 })

/-- The loops of `searchNicknameFromCallbackDList`: along `link` to the first item
of the nick, or to the end. Every node in use is below `fuel`. -/
def seek (list : CallbackDList) (link : CallbackDListItem → Option Addr) (nickname : CStr) :
    (fuel : Nat) → Addr → Option (Option Addr)
  | 0, _ => none
  | fuel + 1, temp => do
    let node ← list.nodes temp
    if strcaseeq node.data.nickname nickname then return some temp
    match link node with
    | none => return none
    | some temp => list.seek link nickname fuel temp

/-- `searchNicknameFromCallbackDList`. A NULL nick is only looked at when there is
an element to compare it with. -/
def searchNickname (list : CallbackDList) (element : Option Addr) (nickname : Option CStr) :
    Option (Option Addr) :=
  if list.head = none ∨ list.tail = none ∨ list.size = 0 then some none
  else
    match element with
    | none => some none
    | some element => do
      let node ← list.nodes element
      let nickname ← nickname
      -- the element is the head, the tail, or something else
      let link :=
        if node.prev.isSome ∧ node.next.isNone then CallbackDListItem.prev
        else CallbackDListItem.next
      list.seek link nickname list.unused element

/-- The loop of `destroyCallbackDList`: the items that are passed to `destroy`. -/
def destroyLoop : (fuel : Nat) → CallbackDList → Option (List CallbackItem)
  | 0, _ => none
  | fuel + 1, list =>
    if list.size > 0 then do
      let (data, list) ← list.remove list.tail
      let later ← destroyLoop fuel list
      return data.toList ++ later
    else some []

/-- `destroyCallbackDList`. Every turn of the loop takes an element out. -/
def destroy (list : CallbackDList) : Option (List CallbackItem) :=
  list.destroyLoop (list.size + 1)

end CallbackDList

/-! ## Calls -/

/-- A call for the list, with what `malloc` does in it. -/
inductive ListCall
  | insertNext (malloc : Bool) (element : Option Addr) (data : CallbackItem)
  | insertPrev (malloc : Bool) (element : Option Addr) (data : CallbackItem)
  | remove (element : Option Addr)
  deriving DecidableEq, Repr

/-- What a call answers. -/
inductive ListAnswer
  | inserted (success : Bool)
  | removed (data : Option CallbackItem)
  deriving DecidableEq, Repr

/-- The return value is `-1`. -/
def ListAnswer.failed : ListAnswer → Bool
  | inserted success => !success
  | removed data => data.isNone

namespace ListCall

/-- The element that a call names. -/
def element : ListCall → Option Addr
  | insertNext _ element _ | insertPrev _ element _ | remove element => element

/-- One call. Without memory both insertions return `-1`, as they do for a NULL element. -/
def run (list : CallbackDList) : ListCall → Option (ListAnswer × CallbackDList)
  | insertNext malloc element data =>
    if malloc then (list.insertNext element data).map (Prod.map .inserted id)
    else some (.inserted false, list)
  | insertPrev malloc element data =>
    if malloc then (list.insertPrev element data).map (Prod.map .inserted id)
    else some (.inserted false, list)
  | remove element => (list.remove element).map (Prod.map .removed id)

end ListCall

end Ebotula
