import Ebotula.Parser

/-!
# What one operation does to the databases

The rules by which a routine is taken apart: one for each database call, one for the
routines that write no database, and one for a routine of that kind inside another.
After them no proof looks into `perform`.
-/

set_option autoImplicit false

namespace Ebotula

open Library

variable {G : Type} [DbLib G] {env : Env} {α : Type}

/-! ## Writes -/

namespace DbWrite

/-- The key an operation is given. -/
def keyArg : DbWrite → Option CStr
  | addDb _ k _ | replaceDb _ k _ | delDb _ k => k

/-- The operation removes a key. -/
def IsDel : DbWrite → Prop
  | delDb .. => True
  | _ => False

variable {o : DbWrite} {dbs : Databases G} {db : DatabaseID} {k : Key}

/-- What a write does: nothing, or it writes its key, or it removes it. -/
theorem apply_cases (o : DbWrite) (dbs : Databases G) :
    (o.apply dbs).2 = dbs ∨ ∃ s, o.keyArg = some s ∧
    ((∃ value, (o.apply dbs).2 = dbs.write o.db (key s) value) ∨
      (o.IsDel ∧ (o.apply dbs).2 = dbs.erase o.db (key s))) := by
  cases o with
  | addDb db' k' v =>
    cases k' with
    | none => exact .inl rfl
    | some s =>
      cases v with
      | none => exact .inl rfl
      | some v =>
        simp only [apply, Databases.addDb_some]
        split
        · exact .inl rfl
        · exact .inr ⟨s, rfl, .inl ⟨_, rfl⟩⟩
  | replaceDb db' k' v =>
    cases k' with
    | none => exact .inl rfl
    | some s =>
      cases v with
      | none => exact .inl rfl
      | some v =>
        simp only [apply, Databases.replaceDb_some]
        split
        · exact .inr ⟨s, rfl, .inl ⟨_, rfl⟩⟩
        · exact .inl rfl
  | delDb db' k' =>
    cases k' with
    | none => exact .inl rfl
    | some s =>
      simp only [apply, Databases.delDb_some]
      split
      · exact .inr ⟨s, rfl, .inr ⟨trivial, rfl⟩⟩
      · exact .inl rfl

/-- A write changes the value of its own key at most. -/
theorem fetch_apply (h : o.db = db → o.keyArg.map key ≠ some k) :
    (o.apply dbs).2.fetch db k = dbs.fetch db k := by
  rcases apply_cases o dbs with heq | ⟨s, hs, ⟨value, heq⟩ | ⟨-, heq⟩⟩
  · rw [heq]
  all_goals
    rw [heq]
    by_cases hdb : o.db = db
    · subst hdb
      have hk : k ≠ key s := fun hk => h rfl (by rw [hs, Option.map_some, hk])
      simp only [Databases.fetch_write, Databases.fetch_erase, Function.update_of_ne hk]
  · rw [Databases.fetch, Databases.write_other (Ne.symm hdb), Databases.fetch]
  · rw [Databases.fetch, Databases.erase_other (Ne.symm hdb), Databases.fetch]

/-- A key that is there stays there, unless it is removed. -/
theorem isSome_fetch_apply (h : o.db = db → ¬ o.IsDel) (hk : (dbs.fetch db k).isSome) :
    ((o.apply dbs).2.fetch db k).isSome := by
  by_cases hkey : o.db = db ∧ o.keyArg.map key = some k
  · obtain ⟨rfl, hkey⟩ := hkey
    rcases apply_cases o dbs with heq | ⟨s, hs, ⟨value, heq⟩ | ⟨hdel, -⟩⟩
    · rwa [heq]
    · rw [hs] at hkey
      obtain rfl := Option.some.inj hkey
      rw [heq, Databases.fetch_write, Function.update_self]
      rfl
    · exact absurd hdel (h rfl)
  · rw [fetch_apply fun hdb hk' => hkey ⟨hdb, hk'⟩]
    exact hk

end DbWrite

/-! ## Operations -/

/-- No operation of the quiet signature writes a database. -/
theorem performQuiet_db {o : Op} {w w' : World G} {r : o.Res}
    (h : performQuiet env o w = some (r, w')) : w'.db = w.db := by
  -- four operations can be without a result, the others always have one
  cases o
  case insertNextCallback | removeCallback | searchCallback | unwrittenPointer =>
    obtain ⟨_, _, he⟩ := Option.map_eq_some_iff.mp h
    exact congrArg (World.db ∘ Prod.snd) he.symm
  case crash => cases h
  all_goals
    cases h
    rfl

/-- A quiet routine may answer anything, but leaves every database as it is. -/
theorem wp_quiet {p : Quiet α} {Q : α → World G → Prop} {w : World G}
    (h : ∀ a w', w'.db = w.db → Q a w') : p.wp (performQuiet env) Q w := by
  refine Prog.wp_mono ?_ h
  exact (Prog.Calls.any p).keeps (f := World.db) (fun _ _ _ _ _ => performQuiet_db) w

@[simp] theorem wp_perform_lift (p : Quiet α) (Q : α → World G → Prop) (w : World G) :
    (p.lift : Bot α).wp (perform env) Q w ↔ p.wp (performQuiet env) Q w := Prog.wp_lift p Q w

/-- The same for a quiet routine inside one that may write. -/
theorem wp_lift_quiet {p : Quiet α} {Q : α → World G → Prop} {w : World G}
    (h : ∀ a w', w'.db = w.db → Q a w') : (p.lift : Bot α).wp (perform env) Q w :=
  (wp_perform_lift p Q w).mpr (wp_quiet h)

section Calls

variable {db : DatabaseID} {k v : Option CStr} {w : World G}

omit [DbLib G] in
/-- An operation that always answers goes on with that answer. -/
theorem wp_request_some {S : Sig} {H : Handler S (World G)} {o : S.Op} {r : S.Res o}
    {w' : World G} {Q : S.Res o → World G → Prop} (h : H o w = some (r, w')) :
    (Prog.request o : Prog S _).wp H Q w ↔ Q r w' := by
  simp only [Prog.wp_request, h, Option.some.injEq, Prod.mk.injEq, and_imp]
  exact ⟨fun hq => hq r w' rfl rfl, fun hq _ _ hr hw => hr ▸ hw ▸ hq⟩

@[simp] theorem wp_addDb {Q : Bool → World G → Prop} : (addDb db k v).wp (perform env) Q w ↔
    Q (w.db.addDb db k v).1 { w with db := (w.db.addDb db k v).2 } := wp_request_some rfl

@[simp] theorem wp_replaceDb {Q : Bool → World G → Prop} :
    (replaceDb db k v).wp (perform env) Q w ↔
      Q (w.db.replaceDb db k v).1 { w with db := (w.db.replaceDb db k v).2 } :=
  wp_request_some rfl

@[simp] theorem wp_delDb {Q : Bool → World G → Prop} : (delDb db k).wp (perform env) Q w ↔
    Q (w.db.delDb db k).1 { w with db := (w.db.delDb db k).2 } := wp_request_some rfl

@[simp] theorem wp_checkDb {Q : Bool → World G → Prop} :
    (checkDb db k v).wp (performQuiet env) Q w ↔ Q (w.db.checkDb db k v) w := wp_request_some rfl

@[simp] theorem wp_existDb {Q : Bool → World G → Prop} :
    (existDb db k).wp (performQuiet env) Q w ↔ Q (w.db.existDb db k) w := wp_request_some rfl

@[simp] theorem wp_getDb {Q : Option CStr → World G → Prop} :
    (getDb db k).wp (performQuiet env) Q w ↔ Q (w.db.getDb db k) w := wp_request_some rfl

@[simp] theorem wp_listDb {Q : List CStr → World G → Prop} :
    (listDb db).wp (performQuiet env) Q w ↔ Q (w.db.listDb db) w := wp_request_some rfl

@[simp] theorem wp_time {Q : Int → World G → Prop} :
    time.wp (performQuiet env) Q w ↔ Q env.now w := wp_request_some rfl

@[simp] theorem wp_unwritten {place : Unwritten} {Q : CStr → World G → Prop} :
    (unwritten place).wp (performQuiet env) Q w ↔ Q (env.unwritten place) w :=
  wp_request_some rfl

theorem run_getDb : (getDb db k).run (performQuiet env) w = some (w.db.getDb db k, w) :=
  Prog.run_request _ _

theorem run_existDb :
    (existDb db k).run (performQuiet env) w = some (w.db.existDb db k, w) := Prog.run_request _ _

theorem run_listDb : (listDb db).run (performQuiet env) w = some (w.db.listDb db, w) :=
  Prog.run_request _ _

theorem run_botname : botname.run (performQuiet env) w = some (w.pBotname, w) :=
  Prog.run_request _ _

/-- The world after a line was logged. -/
def World.logging (w : World G) (line : LogLine) : World G :=
  { w with log := w.log ++ [line] }

theorem run_logger {priority : LogLevel} {format : CStr} {args : List FmtArg} :
    (logger priority format args).run (performQuiet env) w =
      some ((), w.logging ⟨priority, format, args⟩) := Prog.run_request _ _

theorem run_perform_lift (p : Quiet α) :
    (p.lift : Bot α).run (perform env) w = p.run (performQuiet env) w := Prog.run_lift p w

end Calls

end Ebotula
