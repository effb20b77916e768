import Ebotula.Library.Table
import Ebotula.Utilities

/-!
# The database layer

`dbaccess.c` over gdbm. The seven gdbm files are a family of tables indexed by
`DatabaseID`; what gdbm and crypt(3) do is the class `DbLib`, so every law here
holds of any library with these answers and of any order in which it lists keys.

Each call lowers its key. `Databases.fetch` is the view the laws are stated in: the
value of a key, whatever its spelling. The lemmas below say of each call what it
answers and what the view is afterwards; nothing later unfolds a call.
-/

set_option autoImplicit false

namespace Ebotula

open Library

/-- `DatabaseID_t`. -/
inductive DatabaseID
  | user | channel | access | banlist | userToNick | timelog | nickToUser
  deriving DecidableEq, Repr

/-- What the layer links against: gdbm files as tables of byte strings, and
`crypt(_, "SL")`. -/
class DbLib (G : Type) extends Table G CStr CStr where
  crypt : CStr → CStr

/-- The open database files. -/
abbrev Databases (G : Type) := DatabaseID → G

/-- `GDBM_INSERT` and `GDBM_REPLACE`. -/
inductive StoreMode
  | insert
  | replace
  deriving DecidableEq, Repr

namespace Databases

section Calls

variable {G : Type} [DbLib G]

/-- `gdbm_store`: inserting refuses a key that is there. -/
def gdbmStore (dbs : Databases G) (db : DatabaseID) (key value : CStr) (mode : StoreMode) :
    Bool × Databases G :=
  if mode = .insert ∧ (Table.fetch (dbs db) key).isSome then (false, dbs)
  else (true, Function.update dbs db (Table.store (dbs db) key value))

/-- `gdbm_delete`: deleting a key that is not there fails. -/
def gdbmDelete (dbs : Databases G) (db : DatabaseID) (key : CStr) : Bool × Databases G :=
  if (Table.fetch (dbs db) key).isSome then
    (true, Function.update dbs db (Table.delete (dbs db) key))
  else (false, dbs)

/-- The value as the layer writes it: passwords are stored encrypted. -/
def storedValue (G : Type) [DbLib G] (db : DatabaseID) (value : CStr) : CStr :=
  if db = .user then DbLib.crypt G value else value

/-- `exist_db`. -/
def existDb (dbs : Databases G) (db : DatabaseID) (key : Option CStr) : Bool :=
  match key with
  | none => false
  | some key => (Table.fetch (dbs db) (strToLower key)).isSome

/-- `get_db`. -/
def getDb (dbs : Databases G) (db : DatabaseID) (key : Option CStr) : Option CStr :=
  match key with
  | none => none
  | some key => Table.fetch (dbs db) (strToLower key)

/-- `add_db`. -/
def addDb (dbs : Databases G) (db : DatabaseID) (key value : Option CStr) :
    Bool × Databases G :=
  match key, value with
  | some key, some value =>
    let pKey := strToLower key
    if dbs.existDb db (some pKey) then (false, dbs)
    else dbs.gdbmStore db pKey (storedValue G db value) .insert
  | _, _ => (false, dbs)

/-- `replace_db`. -/
def replaceDb (dbs : Databases G) (db : DatabaseID) (key value : Option CStr) :
    Bool × Databases G :=
  match key, value with
  | some key, some value =>
    if dbs.existDb db (some key) then
      dbs.gdbmStore db (strToLower key) (storedValue G db value) .replace
    else (false, dbs)
  | _, _ => (false, dbs)

/-- `del_db`. -/
def delDb (dbs : Databases G) (db : DatabaseID) (key : Option CStr) : Bool × Databases G :=
  match key with
  | none => (false, dbs)
  | some key =>
    if dbs.existDb db (some key) then dbs.gdbmDelete db (strToLower key) else (false, dbs)

/-- `check_db`. -/
def checkDb (dbs : Databases G) (db : DatabaseID) (key value : Option CStr) : Bool :=
  match key, value with
  | some key, some value =>
    dbs.existDb db (some (strToLower key)) &&
      Table.fetch (dbs db) (strToLower key) == some (storedValue G db value)
  | _, _ => false

/-- `list_db`: the keys, in the order gdbm lists them. -/
def listDb (dbs : Databases G) (db : DatabaseID) : List CStr := Table.keys (dbs db)

end Calls

end Databases

/-! ## Keys -/

theorem strToLower_eq_map (s : CStr) : strToLower s = s.map Char.toLower := by
  refine List.map_congr_left fun c _ => ?_
  split
  · rfl
  · next h =>
    refine (toLower_of_not_upper fun hu => h ?_).symm
    have hupper : c.isUpper = true := decide_eq_true hu
    exact Bool.or_eq_true_iff.mpr (.inl hupper)

@[simp] theorem strToLower_strToLower (s : CStr) : strToLower (strToLower s) = strToLower s := by
  simp only [strToLower_eq_map, List.map_map]
  exact List.map_congr_left fun c _ => toLower_toLower c

@[simp] theorem strToLower_append (s t : CStr) :
    strToLower (s ++ t) = strToLower s ++ strToLower t := List.map_append

/-- A name as the layer stores it: in lower case. Names that differ in case only are
one key. -/
abbrev Key := { s : CStr // strToLower s = s }

/-- The key of a name. -/
def key (s : CStr) : Key := ⟨strToLower s, strToLower_strToLower s⟩

namespace Key

instance : LawfulBEq Key := inferInstance

instance : Append Key :=
  ⟨fun a b => ⟨a.val ++ b.val, by rw [strToLower_append, a.property, b.property]⟩⟩

@[simp] theorem val_append (a b : Key) : (a ++ b).val = a.val ++ b.val := rfl

end Key

@[simp] theorem key_val (k : Key) : key k.val = k := Subtype.ext k.property

@[simp] theorem val_key (s : CStr) : (key s).val = strToLower s := rfl

theorem key_append (s t : CStr) : key (s ++ t) = key s ++ key t :=
  Subtype.ext (strToLower_append s t)

theorem key_strToLower (s : CStr) : key (strToLower s) = key s :=
  Subtype.ext (strToLower_strToLower s)

/-! ## The view of a database -/

namespace Databases

section View

variable {G : Type} [DbLib G]

/-- The value of a key, as `get_db` finds it. -/
def fetch (dbs : Databases G) (db : DatabaseID) (k : Key) : Option CStr :=
  Table.fetch (dbs db) k.val

/-- One database with one key written. -/
def write (dbs : Databases G) (db : DatabaseID) (k : Key) (value : CStr) : Databases G :=
  Function.update dbs db (Table.store (dbs db) k.val value)

/-- One database with one key removed. -/
def erase (dbs : Databases G) (db : DatabaseID) (k : Key) : Databases G :=
  Function.update dbs db (Table.delete (dbs db) k.val)

variable {dbs : Databases G} {db db' : DatabaseID} {s value : CStr} {k : Key}

theorem storedValue_of_ne (h : db ≠ .user) : storedValue G db value = value := if_neg h

/-! ### What a call answers -/

@[simp] theorem getDb_none : dbs.getDb db none = none := rfl
@[simp] theorem getDb_some : dbs.getDb db (some s) = dbs.fetch db (key s) := rfl
@[simp] theorem existDb_none : dbs.existDb db none = false := rfl
@[simp] theorem existDb_some : dbs.existDb db (some s) = (dbs.fetch db (key s)).isSome := rfl

/-- `exist_db` asks for what `get_db` finds. -/
theorem existDb_eq {s : Option CStr} : dbs.existDb db s = (dbs.getDb db s).isSome := by
  cases s <;> rfl

theorem checkDb_eq_true : dbs.checkDb db (some s) (some value) = true ↔
    dbs.fetch db (key s) = some (storedValue G db value) := by
  simp only [checkDb, existDb_some, key_strToLower, Bool.and_eq_true, beq_iff_eq]
  rw [show Table.fetch (dbs db) (strToLower s) = dbs.fetch db (key s) from rfl]
  exact ⟨And.right, fun h => ⟨h ▸ rfl, h⟩⟩

theorem mem_listDb : s ∈ dbs.listDb db ↔ (Table.fetch (dbs db) s).isSome :=
  Table.mem_keys _ _

/-- A key that has a value is listed. -/
theorem val_mem_listDb (h : (dbs.fetch db k).isSome) : k.val ∈ dbs.listDb db :=
  mem_listDb.mpr h

/-- An empty list means an empty database. -/
theorem fetch_of_listDb_nil (h : dbs.listDb db = []) : dbs.fetch db k = none :=
  (Table.keys_eq_nil_iff _).mp h k.val

/-! ### What a call writes -/

/-- `add_db` writes exactly when the key is free. -/
theorem addDb_some : dbs.addDb db (some s) (some value) =
    if (dbs.fetch db (key s)).isSome then (false, dbs)
    else (true, dbs.write db (key s) (storedValue G db value)) := by
  simp only [addDb, existDb_some, key_strToLower]
  split
  · rfl
  · next h =>
    rw [gdbmStore, if_neg fun hi => h hi.2]
    rfl

@[simp] theorem addDb_none_left {value : Option CStr} :
    dbs.addDb db none value = (false, dbs) := rfl

@[simp] theorem addDb_none_right {s : Option CStr} : dbs.addDb db s none = (false, dbs) := by
  cases s <;> rfl

/-- `replace_db` writes exactly when the key is there. -/
theorem replaceDb_some : dbs.replaceDb db (some s) (some value) =
    if (dbs.fetch db (key s)).isSome then
      (true, dbs.write db (key s) (storedValue G db value))
    else (false, dbs) := by
  simp only [replaceDb, existDb_some]
  refine if_congr Iff.rfl ?_ rfl
  rw [gdbmStore, if_neg fun hi => StoreMode.noConfusion hi.1]
  rfl

@[simp] theorem replaceDb_none_left {value : Option CStr} :
    dbs.replaceDb db none value = (false, dbs) := rfl

@[simp] theorem replaceDb_none_right {s : Option CStr} :
    dbs.replaceDb db s none = (false, dbs) := by
  cases s <;> rfl

/-- `del_db` removes exactly what is there. -/
theorem delDb_some : dbs.delDb db (some s) =
    if (dbs.fetch db (key s)).isSome then (true, dbs.erase db (key s)) else (false, dbs) := by
  simp only [delDb, existDb_some]
  refine ite_congr rfl (fun h => ?_) fun _ => rfl
  rw [gdbmDelete, if_pos (by exact h)]
  rfl

@[simp] theorem delDb_none : dbs.delDb db none = (false, dbs) := rfl

theorem fetch_write : (dbs.write db k value).fetch db =
    Function.update (dbs.fetch db) k (some value) := by
  funext k'
  rw [fetch, write, Function.update_self, Table.fetch_store, Function.update_apply,
    Function.update_apply]
  exact if_congr Subtype.ext_iff.symm rfl rfl

theorem fetch_erase : (dbs.erase db k).fetch db = Function.update (dbs.fetch db) k none := by
  funext k'
  rw [fetch, erase, Function.update_self, Table.fetch_delete, Function.update_apply,
    Function.update_apply]
  exact if_congr Subtype.ext_iff.symm rfl rfl

theorem write_other (h : db' ≠ db) : dbs.write db k value db' = dbs db' :=
  Function.update_of_ne h _ _

theorem erase_other (h : db' ≠ db) : dbs.erase db k db' = dbs db' :=
  Function.update_of_ne h _ _

end View

end Databases

end Ebotula
