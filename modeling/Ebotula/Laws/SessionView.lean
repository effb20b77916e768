import Ebotula.Laws.Requests
import Ebotula.Laws.Effects
import Ebotula.Library.View

/-!
# The databases as a view

A routine that asks for a session and binds or ends it reads and writes the databases, and
what it does otherwise (lines, the log, the clock) has nothing to do with them. The time of
the last login is kept in a database too, but nobody is admitted or refused by it, so it is
left out here: `Databases.tables` is what the databases say otherwise, and `sessionView`
what each operation makes of it.
-/

set_option autoImplicit false

namespace Ebotula

open Library

variable {G : Type} [DbLib G]

/-! ## Tables -/

/-- The value of each key of each database. -/
abbrev Tables := DatabaseID → Key → Option CStr

namespace Tables

variable (v : Tables) {db : DatabaseID} {k value : Option CStr}

/-- What `get_db` finds. -/
def get (db : DatabaseID) (k : Option CStr) : Option CStr := k.bind fun s => v db (key s)

/-- One key with another value. -/
def set (db : DatabaseID) (k : Key) (value : Option CStr) : Tables :=
  Function.update v db (Function.update (v db) k value)

/-- What `check_db` answers. -/
def check (G : Type) [DbLib G] (db : DatabaseID) (k value : Option CStr) : Bool :=
  match k, value with
  | some s, some value => v db (key s) = some (Databases.storedValue G db value)
  | _, _ => false

/-- What a write answers, and what it leaves. -/
def apply (G : Type) [DbLib G] (v : Tables) : DbWrite → Bool × Tables
  | .addDb db (some s) (some value) =>
    if (v db (key s)).isSome then (false, v)
    else (true, v.set db (key s) (some (Databases.storedValue G db value)))
  | .replaceDb db (some s) (some value) =>
    if (v db (key s)).isSome then
      (true, v.set db (key s) (some (Databases.storedValue G db value)))
    else (false, v)
  | .delDb db (some s) =>
    if (v db (key s)).isSome then (true, v.set db (key s) none) else (false, v)
  | _ => (false, v)

end Tables

/-- The databases without the times of the last logins. -/
def Databases.tables (dbs : Databases G) : Tables := fun db =>
  if db = .timelog then fun _ => none else dbs.fetch db

namespace Databases

variable {dbs : Databases G} {db : DatabaseID} {k value : Option CStr} {o : DbWrite}

theorem tables_of_ne (h : db ≠ .timelog) : dbs.tables db = dbs.fetch db := if_neg h

theorem getDb_tables (h : db ≠ .timelog) : dbs.getDb db k = dbs.tables.get db k := by
  rw [Tables.get, tables_of_ne h]
  cases k <;> rfl

theorem existDb_tables (h : db ≠ .timelog) :
    dbs.existDb db k = (dbs.tables.get db k).isSome := by
  rw [existDb_eq, getDb_tables h]

theorem checkDb_tables (h : db ≠ .timelog) :
    dbs.checkDb db k value = dbs.tables.check G db k value := by
  cases k with
  | none => rfl
  | some s =>
    cases value with
    | none => rfl
    | some value =>
      rw [Bool.eq_iff_iff, checkDb_eq_true, Tables.check, tables_of_ne h, decide_eq_true_eq]

/-- A database with one key changed, and the others as they were. -/
theorem tables_update {dbs' : Databases G} {k : Key} {value : Option CStr} (h : db ≠ .timelog)
    (hself : dbs'.fetch db = Function.update (dbs.fetch db) k value)
    (hother : ∀ db', db' ≠ db → dbs' db' = dbs db') : dbs'.tables = dbs.tables.set db k value := by
  funext db'
  by_cases hdb : db' = db
  · subst hdb
    rw [tables_of_ne h, hself, Tables.set, Function.update_self, tables_of_ne h]
  · have hfetch : dbs'.fetch db' = dbs.fetch db' := funext fun k' => by
      rw [fetch, hother db' hdb, fetch]
    rw [Tables.set, Function.update_of_ne hdb, tables, tables, hfetch]

theorem tables_write {k : Key} {value : CStr} (h : db ≠ .timelog) :
    (dbs.write db k value).tables = dbs.tables.set db k (some value) :=
  tables_update h fetch_write fun _ h' => write_other h'

theorem tables_erase {k : Key} (h : db ≠ .timelog) :
    (dbs.erase db k).tables = dbs.tables.set db k none :=
  tables_update h fetch_erase fun _ h' => erase_other h'

theorem apply_tables (dbs : Databases G) (h : o.db ≠ .timelog) :
    (o.apply dbs).1 = (dbs.tables.apply G o).1 ∧
      (o.apply dbs).2.tables = (dbs.tables.apply G o).2 := by
  cases o with
  | addDb db k value =>
    cases k with
    | none => exact ⟨rfl, rfl⟩
    | some s =>
      cases value with
      | none => exact ⟨rfl, rfl⟩
      | some value =>
        simp only [DbWrite.apply, addDb_some, Tables.apply, tables_of_ne (show db ≠ _ from h)]
        split
        · exact ⟨rfl, rfl⟩
        · exact ⟨rfl, tables_write h⟩
  | replaceDb db k value =>
    cases k with
    | none => exact ⟨rfl, rfl⟩
    | some s =>
      cases value with
      | none => exact ⟨rfl, rfl⟩
      | some value =>
        simp only [DbWrite.apply, replaceDb_some, Tables.apply, tables_of_ne (show db ≠ _ from h)]
        split
        · exact ⟨rfl, tables_write h⟩
        · exact ⟨rfl, rfl⟩
  | delDb db k =>
    cases k with
    | none => exact ⟨rfl, rfl⟩
    | some s =>
      simp only [DbWrite.apply, delDb_some, Tables.apply, tables_of_ne (show db ≠ _ from h)]
      split
      · exact ⟨rfl, tables_erase h⟩
      · exact ⟨rfl, rfl⟩

theorem apply_timelog (h : o.db = .timelog) : (o.apply dbs).2.tables = dbs.tables := by
  funext db k
  by_cases hdb : db = .timelog
  · rw [tables, tables, if_pos hdb, if_pos hdb]
  · rw [tables_of_ne hdb, tables_of_ne hdb]
    exact DbWrite.fetch_apply fun hdb' => absurd (hdb'.symm.trans h) hdb

end Databases

/-! ## The view -/

/-- What each operation makes of the tables. The callback list is left to others. -/
def sessionView (G : Type) [DbLib G] : View (quietSig.sum writeSig) Tables
  | .inl (.existDb db k) =>
    if db = .timelog then .apart else .on fun v => ((v.get db k).isSome, v)
  | .inl (.getDb db k) => if db = .timelog then .apart else .on fun v => (v.get db k, v)
  | .inl (.checkDb db k value) =>
    if db = .timelog then .apart else .on fun v => (v.check G db k value, v)
  | .inl (.listDb _) | .inl (.sendLine _) | .inl (.logger _) | .inl .botname
  | .inl (.setBotname _) | .inl .stop | .inl .setStop | .inl .setAgain | .inl .time
  | .inl (.host _) | .inl (.unwritten _) => .apart
  | .inl .crash => .stuck
  | .inl _ => .wild
  | .inr o => if o.db = .timelog then .apart else .on fun v => v.apply G o

/-- The tables of a world. -/
abbrev World.tables (w : World G) : Tables := w.db.tables

theorem sessionView_lawful (env : Env) :
    (sessionView G).Lawful (World.tables (G := G)) (perform env) := by
  rintro (o | o) w
  · cases o with
    | existDb db k =>
      by_cases h : db = .timelog <;> simp only [sessionView, h, if_true, if_false]
      · exact ⟨_, w, rfl, rfl⟩
      · exact ⟨w, congrArg (fun b => some (b, w)) (Databases.existDb_tables h), rfl⟩
    | getDb db k =>
      by_cases h : db = .timelog <;> simp only [sessionView, h, if_true, if_false]
      · exact ⟨_, w, rfl, rfl⟩
      · exact ⟨w, congrArg (fun b => some (b, w)) (Databases.getDb_tables h), rfl⟩
    | checkDb db k value =>
      by_cases h : db = .timelog <;> simp only [sessionView, h, if_true, if_false]
      · exact ⟨_, w, rfl, rfl⟩
      · exact ⟨w, congrArg (fun b => some (b, w)) (Databases.checkDb_tables h), rfl⟩
    | crash => rfl
    | callbackHead | callbackTail | insertNextCallback | removeCallback | searchCallback
    | unwrittenPointer => trivial
    | _ => exact ⟨_, _, rfl, rfl⟩
  · by_cases h : o.db = .timelog <;> simp only [sessionView, h, if_true, if_false]
    · exact ⟨_, _, rfl, Databases.apply_timelog h⟩
    · obtain ⟨hanswer, htables⟩ := Databases.apply_tables w.db h
      exact ⟨_, congrArg (fun b => some (b, _)) hanswer, htables⟩

end Ebotula
