import Ebotula.Laws.Password
import Ebotula.Laws.Sessions

/-!
# What logging on leaves behind

`log_on` deletes, adds and replaces in two files that are keyed the opposite way: one order for
a fresh login, one for an account that is logged in already, under another netmask or under the
same. Whichever it is, a netmask that nobody else holds becomes the only one of the account, the
one it had before is free again, and nobody else's records change.
-/

set_option autoImplicit false

namespace Ebotula

open Library

variable {G : Type} [DbLib G] {env : Env} {w : World G} {dbs dbs' : Databases G}
  {pNetmask pLogin : CStr}

/-- What `log_on` at the time `now` makes of the databases. -/
structure LoggedOn (now : Int) (pNetmask pLogin : CStr) (dbs dbs' : Databases G) : Prop where
  inverse : dbs'.sessions.Inverse
  netmask : dbs'.fetch .userToNick (key pLogin) = some pNetmask
  onlyNetmask : ∀ m, (dbs'.fetch .nickToUser m).map key = some (key pLogin) ↔ m = key pNetmask
  released : ∀ pOldNetmask, dbs.fetch .userToNick (key pLogin) = some pOldNetmask →
    key pOldNetmask ≠ key pNetmask → dbs'.fetch .nickToUser (key pOldNetmask) = none
  others : ∀ v, v ≠ key pLogin → dbs'.fetch .userToNick v = dbs.fetch .userToNick v
  othersBack : ∀ v, v ≠ key pLogin → ∀ m,
    (dbs.fetch .nickToUser m).map key = some v ∨ (dbs'.fetch .nickToUser m).map key = some v →
    dbs'.fetch .nickToUser m = dbs.fetch .nickToUser m
  timestamp : dbs'.fetch .timelog (key pLogin) = some (sprintLong now)
  otherTimestamps : ∀ v, v ≠ key pLogin → dbs'.fetch .timelog v = dbs.fetch .timelog v

/-- The netmask is nobody else's. -/
def Databases.FreeFor (dbs : Databases G) (pNetmask pLogin : CStr) : Prop :=
  ∀ owner, dbs.getDb .nickToUser (some pNetmask) = some owner → key owner = key pLogin

/-- A netmask that nobody else holds is free once the account has left its own. -/
theorem Databases.FreeFor.releasedNicks (free : dbs.FreeFor pNetmask pLogin)
    (inverse : dbs.sessions.Inverse) : dbs.releasedNicks (key pLogin) (key pNetmask) = none := by
  rw [Databases.releasedNicks_apply inverse]
  cases hm : dbs.fetch .nickToUser (key pNetmask) with
  | none => exact ite_self _
  | some owner => rw [Option.map_some, free owner hm, if_pos rfl]

/-- What the records are after `log_on` follows from what is written. -/
theorem LoggedOn.of_records {now : Int} (inverse : dbs.sessions.Inverse)
    (free : dbs.FreeFor pNetmask pLogin) (inverse' : dbs'.sessions.Inverse)
    (hfwd : dbs'.fetch .userToNick =
      Function.update (dbs.fetch .userToNick) (key pLogin) (some pNetmask))
    (hbwd : dbs'.fetch .nickToUser =
      Function.update (dbs.releasedNicks (key pLogin)) (key pNetmask) (some pLogin))
    (htime : dbs'.fetch .timelog =
      Function.update (dbs.fetch .timelog) (key pLogin) (some (sprintLong now))) :
    LoggedOn now pNetmask pLogin dbs dbs' := by
  have hnetmask : dbs'.fetch .userToNick (key pLogin) = some pNetmask := by
    rw [hfwd, Function.update_self]
  refine ⟨inverse', hnetmask, fun m => ?_, fun pOldNetmask hold hne => ?_, fun v hv => ?_,
    fun v hv m howner => ?_, ?_, fun v hv => ?_⟩
  · have hback := inverse' (key pLogin) m
    rw [Databases.sessions_fwd, Databases.sessions_bwd, hnetmask, Option.map_some,
      Option.some.injEq] at hback
    exact hback.symm.trans eq_comm
  · rw [hbwd, Function.update_of_ne hne, Databases.releasedNicks_of_some hold,
      Function.update_self]
  · rw [hfwd, Function.update_of_ne hv]
  · have hm : m ≠ key pNetmask := by
      rintro rfl
      rcases howner with howner | howner
      · obtain ⟨owner, hget, rfl⟩ := Option.map_eq_some_iff.mp howner
        exact hv (free owner hget)
      · rw [hbwd, Function.update_self, Option.map_some, Option.some.injEq] at howner
        exact hv howner.symm
    rw [hbwd, Function.update_of_ne hm, Databases.releasedNicks_apply inverse] at howner ⊢
    split at howner
    · next hu =>
      rw [hu] at howner
      rcases howner with howner | howner
      · exact absurd (Option.some.inj howner).symm hv
      · cases howner
    · next hu => exact if_neg hu
  · rw [htime, Function.update_self]
  · rw [htime, Function.update_of_ne hv]

/-- With mutually inverse session tables and a netmask that nobody else holds, `log_on` comes
to its end, whoever is logged in where. The tables are mutually inverse again, the netmask is
the only one of the account, its previous one is free, the account has the time of the login,
and the sessions and times of all others are as they were. -/
theorem logOn_effect (env : Env) (w : World G) (pNetmask pLogin : CStr)
    (inverse : w.db.sessions.Inverse) (free : w.db.FreeFor pNetmask pLogin) :
    ∃ w', (logOn (some pNetmask) pLogin).run (perform env) w = some ((), w') ∧
      LoggedOn env.now pNetmask pLogin w.db w'.db := by
  obtain ⟨⟨⟨⟩, w'⟩, hrun⟩ := total_logOn.run env w
  refine ⟨w', hrun, ?_⟩
  have hsessions : w'.db.sessions =
      w.db.sessions.rebind (key pLogin) (some (key pNetmask)) :=
    wp_logOn (Q := fun _ w' => w'.db.sessions = _) (fun _ _ hs => hs) () w' hrun
  have inverse' : w'.db.sessions.Inverse := by
    rw [hsessions]
    refine inverse.rebind (fun b hb x hx => ?_) nofun
    obtain rfl := Option.some.inj hb
    obtain ⟨owner, hget, rfl⟩ := Option.map_eq_some_iff.mp hx
    exact free owner hget
  refine (Prog.wp_bind _ _ (fun _ w' => w'.db.sessions.Inverse → LoggedOn env.now pNetmask pLogin
    w.db w'.db) w).mpr ?_ () w' hrun inverse'
  refine wp_bindSession_records (free.releasedNicks inverse) fun w₁ same₁ hfwd hbwd => ?_
  refine wp_stampLogin_record fun w₂ same₂ htime inverse₂ => ?_
  rw [same₁.fetch (by decide)] at htime
  rw [← same₂.fetch (by decide)] at hfwd hbwd
  exact .of_records inverse free inverse₂ hfwd hbwd htime

/-- A session that is taken over from another netmask. -/
theorem logOn_effect_takeover :
    ∃ w w' : World Gdbm, w.db.fetch .userToNick (key "alice") = some "alice!a@h".toList ∧
      (logOn (some "alice!b@h") "Alice").run (perform calmEnv) w = some ((), w') ∧
      LoggedOn calmEnv.now "alice!b@h" "Alice" w.db w'.db ∧
      w'.db.fetch .nickToUser (key "alice!a@h") = none := by
  have computed : (receiveAll (fun w e => e.undisputed w.db) calmEnv freshBot
      [":alice!a@h PRIVMSG ebotula :!hello"]).map
      (fun w => (w.db.fetch .userToNick (key "alice"), w.db.fetch .nickToUser (key "alice!b@h"))) =
      some (some "alice!a@h".toList, none) := by
    decide +kernel
  obtain ⟨w, hw, hsession⟩ := Option.map_eq_some_iff.mp computed
  obtain ⟨hold, hnew⟩ := Prod.mk.inj hsession
  obtain ⟨es, run⟩ := run_of_receiveAll hw
  have free : w.db.FreeFor "alice!b@h" "Alice" := fun owner howner => by
    rw [Databases.getDb_some, hnew] at howner
    cases howner
  obtain ⟨w', hrun, logged⟩ :=
    logOn_effect calmEnv w _ _ (freshBot_noSessions.inverse_run run) free
  exact ⟨w, w', hold, hrun, logged, logged.released _ hold (by decide)⟩

end Ebotula
