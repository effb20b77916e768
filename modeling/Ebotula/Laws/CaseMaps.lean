import Ebotula.Laws.SessionView

/-!
# The databases are maps without letter case

The calls of `dbaccess.c`, one after the other, answer what one map for each database answers
whose keys are names without letter case (`MapStep`). All that is stored is a key in lower case
(`InLowerCase`), because that is what `add_db` and `replace_db` write: so a key that is listed is
one that `get_db` finds.
-/

set_option autoImplicit false

namespace Ebotula

open Library Databases

/-! ## Calls -/

/-- A call of the database layer, with its arguments. -/
inductive DbCall
  | addDb (db : DatabaseID) (key value : CStr)
  | replaceDb (db : DatabaseID) (key value : CStr)
  | delDb (db : DatabaseID) (key : CStr)
  | checkDb (db : DatabaseID) (key value : CStr)
  | existDb (db : DatabaseID) (key : CStr)
  | getDb (db : DatabaseID) (key : CStr)
  | listDb (db : DatabaseID)
  deriving DecidableEq, Repr

/-- What a call answers. -/
inductive DbAnswer
  | done (success : Bool)
  | found (value : Option CStr)
  | listed (keys : List CStr)
  deriving DecidableEq, Repr

section Calls

variable {G : Type} [DbLib G]

/-- One call. -/
def DbCall.run (dbs : Databases G) : DbCall → DbAnswer × Databases G
  | .addDb db key value =>
    let (success, dbs) := dbs.addDb db (some key) (some value)
    (.done success, dbs)
  | .replaceDb db key value =>
    let (success, dbs) := dbs.replaceDb db (some key) (some value)
    (.done success, dbs)
  | .delDb db key =>
    let (success, dbs) := dbs.delDb db (some key)
    (.done success, dbs)
  | .checkDb db key value => (.done (dbs.checkDb db (some key) (some value)), dbs)
  | .existDb db key => (.done (dbs.existDb db (some key)), dbs)
  | .getDb db key => (.found (dbs.getDb db (some key)), dbs)
  | .listDb db => (.listed (dbs.listDb db), dbs)

/-- One call after the other. -/
def runDbCalls (dbs : Databases G) : List DbCall → List DbAnswer × Databases G
  | [] => ([], dbs)
  | call :: calls =>
    let (answer, dbs) := call.run dbs
    let (answers, dbs) := runDbCalls dbs calls
    (answer :: answers, dbs)

/-- No database has an entry. -/
def Databases.empty (G : Type) [DbLib G] : Databases G := fun _ => Table.empty

end Calls

/-! ## Maps -/

/-- Two names are one key exactly when they differ in letter case only. -/
theorem key_eq_iff {s t : CStr} : key s = key t ↔ strcaseeq s t = true := by
  rw [Subtype.ext_iff, val_key, val_key, strToLower_eq_map, strToLower_eq_map, strcaseeq,
    beq_iff_eq]

/-- What a call answers, and what it makes of the maps. The value of an account is stored
encrypted. -/
inductive MapStep (G : Type) [DbLib G] (v : Tables) : DbCall → DbAnswer → Tables → Prop
  | add_new {db : DatabaseID} {s value : CStr} (h : v db (key s) = none) :
      MapStep G v (.addDb db s value) (.done true)
        (v.set db (key s) (some (storedValue G db value)))
  | add_there {db : DatabaseID} {s value : CStr} (h : (v db (key s)).isSome) :
      MapStep G v (.addDb db s value) (.done false) v
  | replace_there {db : DatabaseID} {s value : CStr} (h : (v db (key s)).isSome) :
      MapStep G v (.replaceDb db s value) (.done true)
        (v.set db (key s) (some (storedValue G db value)))
  | replace_missing {db : DatabaseID} {s value : CStr} (h : v db (key s) = none) :
      MapStep G v (.replaceDb db s value) (.done false) v
  | del_there {db : DatabaseID} {s : CStr} (h : (v db (key s)).isSome) :
      MapStep G v (.delDb db s) (.done true) (v.set db (key s) none)
  | del_missing {db : DatabaseID} {s : CStr} (h : v db (key s) = none) :
      MapStep G v (.delDb db s) (.done false) v
  | check {db : DatabaseID} {s value : CStr} {success : Bool}
      (h : success = true ↔ v db (key s) = some (storedValue G db value)) :
      MapStep G v (.checkDb db s value) (.done success) v
  | exist {db : DatabaseID} {s : CStr} :
      MapStep G v (.existDb db s) (.done (v db (key s)).isSome) v
  | get {db : DatabaseID} {s : CStr} : MapStep G v (.getDb db s) (.found (v db (key s))) v
  /-- Every key is delivered once, in lower case. -/
  | list {db : DatabaseID} {keys : List CStr} (once : keys.Nodup)
      (all : ∀ s, s ∈ keys ↔ ∃ k : Key, k.val = s ∧ (v db k).isSome) :
      MapStep G v (.listDb db) (.listed keys) v

/-- One call after the other. -/
inductive MapSteps (G : Type) [DbLib G] : Tables → List DbCall → List DbAnswer → Tables → Prop
  | nil (v : Tables) : MapSteps G v [] [] v
  | cons {v v' v'' : Tables} {call : DbCall} {answer : DbAnswer} {calls : List DbCall}
      {answers : List DbAnswer} : MapStep G v call answer v' →
      MapSteps G v' calls answers v'' → MapSteps G v (call :: calls) (answer :: answers) v''

namespace Databases

variable {G : Type} [DbLib G] {dbs : Databases G} {db db' : DatabaseID} {k : Key} {value : CStr}

/-- The value of every key. -/
def maps (dbs : Databases G) : Tables := dbs.fetch

/-- All keys are stored in lower case. -/
def InLowerCase (dbs : Databases G) : Prop :=
  ∀ db s, (Table.fetch (dbs db) s).isSome → strToLower s = s

theorem inLowerCase_empty : (Databases.empty G).InLowerCase := by
  intro db s h
  rw [empty, Table.fetch_empty] at h
  cases h

/-- A database with one key changed is its map with that key changed. -/
theorem maps_update {dbs' : Databases G} {value : Option CStr}
    (hself : dbs'.fetch db = Function.update (dbs.fetch db) k value)
    (hother : ∀ db', db' ≠ db → dbs' db' = dbs db') : dbs'.maps = dbs.maps.set db k value := by
  funext db'
  by_cases hdb : db' = db
  · subst hdb
    rw [maps, hself, Tables.set, Function.update_self]
    rfl
  · rw [Tables.set, Function.update_of_ne hdb]
    funext k'
    rw [maps, maps, fetch, fetch, hother db' hdb]

theorem maps_write : (dbs.write db k value).maps = dbs.maps.set db k (some value) :=
  maps_update fetch_write fun _ h => write_other h

theorem maps_erase : (dbs.erase db k).maps = dbs.maps.set db k none :=
  maps_update fetch_erase fun _ h => erase_other h

theorem InLowerCase.write (h : dbs.InLowerCase) : (dbs.write db k value).InLowerCase := by
  intro db' s hs
  by_cases hdb : db' = db
  · subst hdb
    rw [Databases.write, Function.update_self, Table.fetch_store] at hs
    by_cases hk : s = k.val
    · rw [hk, k.property]
    · rw [Function.update_of_ne hk] at hs
      exact h db' s hs
  · rw [write_other hdb] at hs
    exact h db' s hs

theorem InLowerCase.erase (h : dbs.InLowerCase) : (dbs.erase db k).InLowerCase := by
  intro db' s hs
  by_cases hdb : db' = db
  · subst hdb
    rw [Databases.erase, Function.update_self, Table.fetch_delete] at hs
    by_cases hk : s = k.val
    · rw [hk, k.property]
    · rw [Function.update_of_ne hk] at hs
      exact h db' s hs
  · rw [erase_other hdb] at hs
    exact h db' s hs

/-- The keys that are listed are those with a value. -/
theorem InLowerCase.mem_listDb_iff (h : dbs.InLowerCase) {s : CStr} :
    s ∈ dbs.listDb db ↔ ∃ k : Key, k.val = s ∧ (dbs.maps db k).isSome := by
  rw [mem_listDb]
  constructor
  · exact fun hs => ⟨⟨s, h db s hs⟩, rfl, hs⟩
  · rintro ⟨k, rfl, hk⟩
    exact hk

/-- A call for the databases answers what the maps answer, and they stay alike. -/
theorem InLowerCase.call (h : dbs.InLowerCase) (call : DbCall) :
    MapStep G dbs.maps call (call.run dbs).1 (call.run dbs).2.maps ∧
      (call.run dbs).2.InLowerCase := by
  cases call with
  | addDb db s value =>
    simp only [DbCall.run, addDb_some]
    split
    · next hthere => exact ⟨.add_there hthere, h⟩
    · next hnew =>
      rw [maps_write]
      exact ⟨.add_new (Option.not_isSome_iff_eq_none.mp hnew), h.write⟩
  | replaceDb db s value =>
    simp only [DbCall.run, replaceDb_some]
    split
    · next hthere =>
      rw [maps_write]
      exact ⟨.replace_there hthere, h.write⟩
    · next hnew => exact ⟨.replace_missing (Option.not_isSome_iff_eq_none.mp hnew), h⟩
  | delDb db s =>
    simp only [DbCall.run, delDb_some]
    split
    · next hthere =>
      rw [maps_erase]
      exact ⟨.del_there hthere, h.erase⟩
    · next hnew => exact ⟨.del_missing (Option.not_isSome_iff_eq_none.mp hnew), h⟩
  | checkDb db s value => exact ⟨.check checkDb_eq_true, h⟩
  | existDb db s => exact ⟨.exist, h⟩
  | getDb db s => exact ⟨.get, h⟩
  | listDb db => exact ⟨.list (Table.nodup_keys _) fun s => h.mem_listDb_iff, h⟩

theorem InLowerCase.calls (h : dbs.InLowerCase) (calls : List DbCall) :
    MapSteps G dbs.maps calls (runDbCalls dbs calls).1 (runDbCalls dbs calls).2.maps ∧
      (runDbCalls dbs calls).2.InLowerCase := by
  induction calls generalizing dbs with
  | nil => exact ⟨.nil _, h⟩
  | cons call calls ih =>
    obtain ⟨hcall, hlower⟩ := h.call call
    obtain ⟨hcalls, hlower'⟩ := ih hlower
    exact ⟨.cons hcall hcalls, hlower'⟩

theorem maps_empty : (Databases.empty G).maps = fun _ _ => none := by
  funext db k
  exact Table.fetch_empty k.val

end Databases

/-- The database layer refines maps without letter case. Whatever is called, beginning with
empty databases, the answers are those of one map for each database, and two names are the same
key exactly when they differ in letter case only. -/
theorem databases_refine_case_maps (G : Type) [DbLib G] :
    (∀ calls : List DbCall,
      MapSteps G (fun _ _ => none) calls (runDbCalls (Databases.empty G) calls).1
        (runDbCalls (Databases.empty G) calls).2.maps) ∧
    ∀ s t : CStr, key s = key t ↔ strcaseeq s t = true := by
  refine ⟨fun calls => ?_, fun s t => key_eq_iff⟩
  have hcalls := (inLowerCase_empty (G := G)).calls calls
  rw [maps_empty] at hcalls
  exact hcalls.1

end Ebotula
