import Ebotula.Laws.Effects

/-!
# What the account routines do

The session tables are a relation between logins and netmasks kept in two files;
`sessions` is that relation, with names that differ in case only taken as one. Each
routine of `account.c` that writes has one lemma here: which databases it touches,
and what it makes of the sessions and the rights.
-/

set_option autoImplicit false

namespace Ebotula

open Library

variable {G : Type}

/-- Every database outside the list is as it was. -/
def SameExcept (ds : List DatabaseID) (dbs dbs' : Databases G) : Prop :=
  ∀ d, d ∉ ds → dbs' d = dbs d

namespace SameExcept

variable {ds ds' : List DatabaseID} {dbs dbs' dbs'' : Databases G} {d : DatabaseID}

theorem refl : SameExcept ds dbs dbs := fun _ _ => rfl

theorem of_eq (h : dbs' = dbs) : SameExcept ds dbs dbs' := fun _ _ => h ▸ rfl

theorem trans (h : SameExcept ds dbs dbs') (h' : SameExcept ds dbs' dbs'') :
    SameExcept ds dbs dbs'' := fun d hd => (h' d hd).trans (h d hd)

theorem mono (h : SameExcept ds dbs dbs') (hs : ds ⊆ ds') : SameExcept ds' dbs dbs' :=
  fun d hd => h d fun hm => hd (hs hm)

variable [DbLib G]

theorem fetch (h : SameExcept ds dbs dbs') (hd : d ∉ ds) : dbs'.fetch d = dbs.fetch d := by
  funext k
  rw [Databases.fetch, h d hd, Databases.fetch]

theorem listDb (h : SameExcept ds dbs dbs') (hd : d ∉ ds) : dbs'.listDb d = dbs.listDb d := by
  rw [Databases.listDb, h d hd, Databases.listDb]

end SameExcept

variable [DbLib G] {env : Env}

namespace Databases

variable {dbs : Databases G} {d : DatabaseID} {k v : Option CStr} {s value : CStr}

theorem same_addDb : SameExcept [d] dbs (dbs.addDb d k v).2 := by
  cases k with
  | none => exact .refl
  | some s =>
    cases v with
    | none => exact .refl
    | some value =>
      rw [addDb_some]
      split
      · exact .refl
      · exact fun d' hd => write_other fun e => hd (e ▸ List.mem_singleton_self _)

theorem same_replaceDb : SameExcept [d] dbs (dbs.replaceDb d k v).2 := by
  cases k with
  | none => exact .refl
  | some s =>
    cases v with
    | none => exact .refl
    | some value =>
      rw [replaceDb_some]
      split
      · exact fun d' hd => write_other fun e => hd (e ▸ List.mem_singleton_self _)
      · exact .refl

theorem same_delDb : SameExcept [d] dbs (dbs.delDb d k).2 := by
  cases k with
  | none => exact .refl
  | some s =>
    rw [delDb_some]
    split
    · exact fun d' hd => erase_other fun e => hd (e ▸ List.mem_singleton_self _)
    · exact .refl

/-- After `add_db` the key has a value: the one it had, or the new one. -/
theorem fetch_addDb : (dbs.addDb d (some s) (some value)).2.fetch d =
    if (dbs.fetch d (key s)).isSome then dbs.fetch d
    else Function.update (dbs.fetch d) (key s) (some (storedValue G d value)) := by
  rw [addDb_some]
  split
  · rfl
  · rw [fetch_write]

theorem fetch_replaceDb : (dbs.replaceDb d (some s) (some value)).2.fetch d =
    if (dbs.fetch d (key s)).isSome then
      Function.update (dbs.fetch d) (key s) (some (storedValue G d value))
    else dbs.fetch d := by
  rw [replaceDb_some]
  split
  · rw [fetch_write]
  · rfl

theorem fetch_addDb_of_free (value : CStr) (hd : d ≠ .user) (hfree : dbs.fetch d (key s) = none) :
    (dbs.addDb d (some s) (some value)).2.fetch d =
      Function.update (dbs.fetch d) (key s) (some value) := by
  rw [fetch_addDb, hfree, Option.isSome_none, if_neg Bool.false_ne_true, storedValue_of_ne hd]

theorem fetch_replaceDb_of_held (value : CStr) (hd : d ≠ .user)
    (hheld : (dbs.fetch d (key s)).isSome) :
    (dbs.replaceDb d (some s) (some value)).2.fetch d =
      Function.update (dbs.fetch d) (key s) (some value) := by
  rw [fetch_replaceDb, if_pos hheld, storedValue_of_ne hd]

/-- Replacing a value makes no key and loses none. -/
theorem isSome_replaceDb (x : Key) :
    ((dbs.replaceDb d (some s) (some value)).2.fetch d x).isSome = (dbs.fetch d x).isSome := by
  rw [fetch_replaceDb]
  split
  · next h =>
    rw [Function.update_apply]
    split
    · next hx => rw [hx, h, Option.isSome_some]
    · rfl
  · rfl

/-- After `del_db` the key has no value, whether it had one or not. -/
theorem fetch_delDb : (dbs.delDb d (some s)).2.fetch d =
    Function.update (dbs.fetch d) (key s) none := by
  rw [delDb_some]
  split
  · rw [fetch_erase]
  · next h => exact (Function.update_eq_self_iff.mpr (Option.not_isSome_iff_eq_none.mp h).symm).symm

/-! ## The session relation -/

/-- USERTONICK forwards and NICKTOUSER backwards, without regard to case. -/
def sessions (dbs : Databases G) : Paired Key Key :=
  ⟨Option.map key ∘ dbs.fetch .userToNick, Option.map key ∘ dbs.fetch .nickToUser⟩

end Databases

/-- The databases of the sessions. -/
abbrev sessionDbs : List DatabaseID := [.userToNick, .nickToUser]

theorem SameExcept.sessions {ds : List DatabaseID} {dbs dbs' : Databases G}
    (h : SameExcept ds dbs dbs') (hu : DatabaseID.userToNick ∉ ds)
    (hn : DatabaseID.nickToUser ∉ ds) : dbs'.sessions = dbs.sessions := by
  rw [Databases.sessions, h.fetch hu, h.fetch hn, Databases.sessions]

namespace Databases

variable {dbs : Databases G} {s value : CStr}

theorem sessions_fwd (u : Key) : dbs.sessions.fwd u = (dbs.fetch .userToNick u).map key := rfl

theorem sessions_bwd (m : Key) : dbs.sessions.bwd m = (dbs.fetch .nickToUser m).map key := rfl

theorem sessions_delNick : (dbs.delDb .nickToUser (some s)).2.sessions =
    ⟨dbs.sessions.fwd, Function.update dbs.sessions.bwd (key s) none⟩ := by
  rw [sessions, fetch_delDb, Function.comp_update, same_delDb.fetch (by decide)]
  rfl

theorem sessions_addNick : (dbs.addDb .nickToUser (some s) (some value)).2.sessions =
    ⟨dbs.sessions.fwd,
      if (dbs.sessions.bwd (key s)).isSome then dbs.sessions.bwd
      else Function.update dbs.sessions.bwd (key s) (some (key value))⟩ := by
  rw [sessions, fetch_addDb, same_addDb.fetch (by decide), storedValue_of_ne (by decide)]
  simp only [sessions, Function.comp_apply, Option.isSome_map]
  split
  · rfl
  · rw [Function.comp_update]
    rfl

theorem sessions_addUser : (dbs.addDb .userToNick (some s) (some value)).2.sessions =
    ⟨if (dbs.sessions.fwd (key s)).isSome then dbs.sessions.fwd
      else Function.update dbs.sessions.fwd (key s) (some (key value)),
      dbs.sessions.bwd⟩ := by
  rw [sessions, fetch_addDb, same_addDb.fetch (by decide), storedValue_of_ne (by decide)]
  simp only [sessions, Function.comp_apply, Option.isSome_map]
  split
  · rfl
  · rw [Function.comp_update]
    rfl

theorem sessions_replaceUser : (dbs.replaceDb .userToNick (some s) (some value)).2.sessions =
    ⟨if (dbs.sessions.fwd (key s)).isSome then
        Function.update dbs.sessions.fwd (key s) (some (key value))
      else dbs.sessions.fwd,
      dbs.sessions.bwd⟩ := by
  rw [sessions, fetch_replaceDb, same_replaceDb.fetch (by decide), storedValue_of_ne (by decide)]
  simp only [sessions, Function.comp_apply, Option.isSome_map]
  split
  · rw [Function.comp_update]
    rfl
  · rfl

end Databases

/-! ## Records of the session tables -/

namespace Databases

variable {dbs : Databases G} {u m : Key}

/-- `NICKTOUSER_DB` without the netmask a login leads to. -/
def releasedNicks (dbs : Databases G) (u : Key) : Key → Option CStr :=
  match dbs.fetch .userToNick u with
  | some pNetmask => Function.update (dbs.fetch .nickToUser) (key pNetmask) none
  | none => dbs.fetch .nickToUser

theorem releasedNicks_of_none (h : dbs.fetch .userToNick u = none) :
    dbs.releasedNicks u = dbs.fetch .nickToUser := by
  rw [releasedNicks, h]

theorem releasedNicks_of_some {pNetmask : CStr} (h : dbs.fetch .userToNick u = some pNetmask) :
    dbs.releasedNicks u = Function.update (dbs.fetch .nickToUser) (key pNetmask) none := by
  rw [releasedNicks, h]

theorem map_releasedNicks :
    Option.map key ∘ dbs.releasedNicks u = dbs.sessions.release u := by
  cases hu : dbs.fetch .userToNick u with
  | none =>
    have hfwd : dbs.sessions.fwd u = none := by rw [sessions_fwd, hu, Option.map_none]
    rw [releasedNicks_of_none hu, Paired.release_of_none hfwd]
    rfl
  | some pNetmask =>
    have hfwd : dbs.sessions.fwd u = some (key pNetmask) := by
      rw [sessions_fwd, hu, Option.map_some]
    rw [releasedNicks_of_some hu, Paired.release_of_some hfwd, Function.comp_update]
    rfl

/-- With mutually inverse tables exactly the netmask of the login is released. -/
theorem releasedNicks_apply (inverse : dbs.sessions.Inverse) :
    dbs.releasedNicks u m =
      if (dbs.fetch .nickToUser m).map key = some u then none else dbs.fetch .nickToUser m := by
  have hback : (dbs.fetch .nickToUser m).map key = some u ↔
      (dbs.fetch .userToNick u).map key = some m := (inverse u m).symm
  cases hu : dbs.fetch .userToNick u with
  | none =>
    rw [hu, Option.map_none] at hback
    rw [releasedNicks_of_none hu, if_neg (mt hback.mp (Option.some_ne_none m).symm)]
  | some pNetmask =>
    rw [hu, Option.map_some, Option.some.injEq] at hback
    rw [releasedNicks_of_some hu, Function.update_apply]
    exact if_congr (eq_comm.trans hback.symm) rfl rfl

end Databases

/-! ## The routines -/

variable {Q : Unit → World G → Prop} {w : World G} {pLogin : CStr} {pNetmask : Option CStr}

/-- `log_out` removes the two records of the session. -/
theorem wp_logOut_records
    (h : ∀ w', SameExcept sessionDbs w.db w'.db →
      w'.db.fetch .userToNick =
        Function.update (w.db.fetch .userToNick) (key pLogin) none →
      w'.db.fetch .nickToUser = w.db.releasedNicks (key pLogin) → Q () w') :
    (logOut pLogin).wp (perform env) Q w := by
  simp only [logOut, Prog.wp_bind, Prog.liftM_eq, wp_perform_lift, wp_getDb, Databases.getDb_some]
  cases hm : w.db.fetch .userToNick (key pLogin) with
  | none =>
    refine (Prog.wp_pure () _ _).mpr (h w .refl ?_ (Databases.releasedNicks_of_none hm).symm)
    rw [← hm, Function.update_eq_self]
  | some pNetmask =>
    simp only [Prog.wp_bind, wp_perform_lift, wp_delDb]
    refine wp_quiet fun _ w' hw' => h w' ?_ ?_ ?_
    · rw [hw']
      exact (Databases.same_delDb.mono (by decide)).trans (Databases.same_delDb.mono (by decide))
    · rw [hw', Databases.fetch_delDb, Databases.same_delDb.fetch (by decide)]
    · rw [hw', Databases.same_delDb.fetch (by decide), Databases.fetch_delDb,
        Databases.releasedNicks_of_some hm]

/-- `log_out` takes the login's session apart, in both tables. -/
theorem wp_logOut
    (h : ∀ w', SameExcept sessionDbs w.db w'.db →
      w'.db.sessions = w.db.sessions.unbind (key pLogin) → Q () w') :
    (logOut pLogin).wp (perform env) Q w := by
  refine wp_logOut_records fun w' same hfwd hbwd => h w' same ?_
  rw [Databases.sessions, hfwd, hbwd, Function.comp_update, Databases.map_releasedNicks]
  rfl

/-- Binding a netmask to a login: the old netmask is released, and the new one taken
unless it is somebody's. -/
theorem wp_bindSession
    (h : ∀ w', SameExcept sessionDbs w.db w'.db →
      w'.db.sessions = w.db.sessions.rebind (key pLogin) (pNetmask.map key) → Q () w') :
    (bindSession pNetmask pLogin).wp (perform env) Q w := by
  simp only [bindSession, Prog.wp_bind, Prog.liftM_eq, wp_perform_lift, wp_existDb, Prog.wp_ite,
    Databases.existDb_some]
  refine ⟨fun hex => ?_, fun hex => ?_⟩
  · obtain ⟨pOldNetmask, hm⟩ := Option.isSome_iff_exists.mp hex
    have hfwd : w.db.sessions.fwd (key pLogin) = some (key pOldNetmask) := by
      rw [Databases.sessions_fwd, hm, Option.map_some]
    simp only [wp_getDb, Databases.getDb_some, hm, Prog.wp_bind, wp_delDb, wp_addDb,
      wp_replaceDb]
    rw [Prog.wp_pure]
    refine h _ (((Databases.same_delDb.mono (by decide)).trans
      (Databases.same_addDb.mono (by decide))).trans
      (Databases.same_replaceDb.mono (by decide))) ?_
    cases pNetmask with
    | none =>
      simp only [Databases.addDb_none_left, Databases.replaceDb_none_right, Option.map_none,
        Databases.sessions_delNick, Paired.rebind, Paired.release_of_some hfwd]
    | some pNetmask =>
      simp only [Databases.sessions_replaceUser, Databases.sessions_addNick,
        Databases.sessions_delNick, hfwd, Option.isSome_some, if_true, Option.map_some,
        Paired.rebind, Paired.release_of_some hfwd]
  · have hfwd : w.db.sessions.fwd (key pLogin) = none := by
      rw [Databases.sessions_fwd, Option.not_isSome_iff_eq_none.mp hex, Option.map_none]
    simp only [wp_addDb, Prog.wp_pure]
    refine h _ ((Databases.same_addDb.mono (by decide)).trans
      (Databases.same_addDb.mono (by decide))) ?_
    cases pNetmask with
    | none =>
      simp only [Databases.addDb_none_left, Databases.addDb_none_right, Option.map_none,
        Paired.rebind, Paired.release_of_none hfwd]
    | some pNetmask =>
      simp only [Databases.sessions_addUser, Databases.sessions_addNick, hfwd, Option.isSome_none,
        Bool.false_eq_true, if_false, Option.map_some, Paired.rebind,
        Paired.release_of_none hfwd]

/-- Binding a netmask that nobody else holds writes both records of the session. -/
theorem wp_bindSession_records {pNetmask : CStr}
    (free : w.db.releasedNicks (key pLogin) (key pNetmask) = none)
    (h : ∀ w', SameExcept sessionDbs w.db w'.db →
      w'.db.fetch .userToNick =
        Function.update (w.db.fetch .userToNick) (key pLogin) (some pNetmask) →
      w'.db.fetch .nickToUser =
        Function.update (w.db.releasedNicks (key pLogin)) (key pNetmask) (some pLogin) →
      Q () w') :
    (bindSession (some pNetmask) pLogin).wp (perform env) Q w := by
  simp only [bindSession, Prog.wp_bind, Prog.liftM_eq, wp_perform_lift, wp_existDb, Prog.wp_ite,
    Databases.existDb_some]
  refine ⟨fun hex => ?_, fun hex => ?_⟩
  · -- a relog: the old netmask is deleted before the new one is added
    obtain ⟨pOldNetmask, hm⟩ := Option.isSome_iff_exists.mp hex
    rw [Databases.releasedNicks_of_some hm] at free h
    simp only [wp_getDb, Databases.getDb_some, hm, Prog.wp_bind, wp_delDb, wp_addDb,
      wp_replaceDb]
    rw [Prog.wp_pure]
    have deleted : SameExcept [.nickToUser] w.db
        (w.db.delDb .nickToUser (some pOldNetmask)).2 := Databases.same_delDb
    have added : SameExcept [.nickToUser] _ ((w.db.delDb .nickToUser (some pOldNetmask)).2.addDb
        .nickToUser (some pNetmask) (some pLogin)).2 := Databases.same_addDb
    rw [← Databases.fetch_delDb] at free h
    refine h _ (((deleted.trans added).mono (by decide)).trans
      (Databases.same_replaceDb.mono (by decide))) ?_ ?_
    · have kept := (deleted.trans added).fetch (d := .userToNick) (by decide)
      rw [Databases.fetch_replaceDb_of_held _ (by decide) (by rwa [kept]), kept]
    · rw [Databases.same_replaceDb.fetch (by decide),
        Databases.fetch_addDb_of_free _ (by decide) free]
  · -- a fresh login: both records are added
    have hm := Option.not_isSome_iff_eq_none.mp hex
    rw [Databases.releasedNicks_of_none hm] at free h
    simp only [wp_addDb, Prog.wp_pure]
    have added : SameExcept [.nickToUser] w.db
        (w.db.addDb .nickToUser (some pNetmask) (some pLogin)).2 := Databases.same_addDb
    refine h _ ((added.mono (by decide)).trans (Databases.same_addDb.mono (by decide))) ?_ ?_
    · have kept := added.fetch (d := .userToNick) (by decide)
      rw [Databases.fetch_addDb_of_free _ (by decide) (by rwa [kept]), kept]
    · rw [Databases.same_addDb.fetch (by decide),
        Databases.fetch_addDb_of_free _ (by decide) free]

/-- The time of the login is the new time stamp, whether there was one or not. -/
theorem wp_stampLogin_record
    (h : ∀ w', SameExcept [.timelog] w.db w'.db →
      w'.db.fetch .timelog =
        Function.update (w.db.fetch .timelog) (key pLogin) (some (sprintLong env.now)) →
      Q () w') :
    (stampLogin pLogin).wp (perform env) Q w := by
  simp only [stampLogin, Prog.wp_bind, Prog.liftM_eq, wp_perform_lift]
  refine wp_quiet fun _ w₁ h₁ => ?_
  simp only [wp_time, wp_existDb, Prog.wp_ite, Prog.wp_bind, wp_replaceDb, wp_addDb, h₁,
    Databases.existDb_some]
  refine ⟨fun hex => ?_, fun hex => ?_⟩
  · refine wp_lift_quiet fun _ w₂ h₂ => h w₂ ?_ ?_
    · rw [h₂]
      exact Databases.same_replaceDb
    · rw [h₂, Databases.fetch_replaceDb_of_held _ (by decide) hex]
  · refine wp_lift_quiet fun _ w₂ h₂ => h w₂ ?_ ?_
    · rw [h₂]
      exact Databases.same_addDb
    · rw [h₂, Databases.fetch_addDb_of_free _ (by decide) (Option.not_isSome_iff_eq_none.mp hex)]

/-- The time stamp is the business of one database alone. -/
theorem wp_stampLogin (h : ∀ w', SameExcept [.timelog] w.db w'.db → Q () w') :
    (stampLogin pLogin).wp (perform env) Q w :=
  wp_stampLogin_record fun w' same _ => h w' same

/-- `log_on` leads the login to the netmask, as far as the netmask is free. -/
theorem wp_logOn
    (h : ∀ w', SameExcept (.timelog :: sessionDbs) w.db w'.db →
      w'.db.sessions = w.db.sessions.rebind (key pLogin) (pNetmask.map key) → Q () w') :
    (logOn pNetmask pLogin).wp (perform env) Q w := by
  rw [logOn, Prog.wp_bind]
  refine wp_bindSession fun w₁ same₁ hs₁ => wp_stampLogin fun w₂ same₂ => ?_
  refine h w₂ ((same₁.mono (by decide)).trans (same₂.mono (by decide))) ?_
  rw [same₂.sessions (by decide) (by decide), hs₁]

/-- A view of a database with some keys removed. -/
def dropKeys (ks : List Key) (f : Key → Option CStr) : Key → Option CStr :=
  fun k => if k ∈ ks then none else f k

theorem dropKeys_of_mem {ks : List Key} {f : Key → Option CStr} {k : Key} (h : k ∈ ks) :
    dropKeys ks f k = none := if_pos h

theorem dropKeys_eq_some {ks : List Key} {f : Key → Option CStr} {k : Key} {v : CStr}
    (h : dropKeys ks f k = some v) : k ∉ ks ∧ f k = some v := by
  rw [dropKeys] at h
  split at h
  · cases h
  · next hk => exact ⟨hk, h⟩

/-- Deleting a key drops it, and the others with it. -/
theorem dropKeys_update {ks : List Key} {f : Key → Option CStr} {k : Key} :
    dropKeys ks (Function.update f k none) = dropKeys (k :: ks) f := by
  funext k'
  by_cases h : k' = k <;> by_cases hks : k' ∈ ks <;>
    simp only [dropKeys, Function.update_apply, h, hks, if_true, if_false, List.mem_cons,
      true_or, or_true, or_self, ite_self]

/-- The keys `rmAccessRights` deletes: the login itself, and with every channel. -/
def rightKeys (channels : List CStr) (pLogin : CStr) : List Key :=
  key pLogin :: channels.map fun c => key (pLogin ++ c)

/-- The loop of `rmAccessRights`. -/
theorem wp_rmChannelRights {channels : List CStr}
    (h : ∀ w', SameExcept [.access] w.db w'.db →
      w'.db.fetch .access =
        dropKeys (channels.map fun c => key (pLogin ++ c)) (w.db.fetch .access) → Q () w') :
    (Prog.forEach (fun pChannel => do
      let _ ← delDb .access (some (pLogin ++ pChannel))) channels).wp (perform env) Q w := by
  induction channels generalizing w with
  | nil =>
    exact (Prog.wp_pure () _ _).mpr (h w .refl (funext fun _ => (if_neg List.not_mem_nil).symm))
  | cons c channels ih =>
    simp only [Prog.forEach, Prog.wp_bind, wp_delDb, Prog.wp_pure]
    refine ih fun w' same hacc => h w' (Databases.same_delDb.trans same) ?_
    rw [hacc, Databases.fetch_delDb, dropKeys_update, List.map_cons]

/-- `rmAccessRights` deletes the rights in every channel on the list, and nothing else. -/
theorem wp_rmAccessRights
    (h : ∀ w', SameExcept [.access] w.db w'.db →
      w'.db.fetch .access =
        dropKeys (rightKeys (w.db.listDb .channel) pLogin) (w.db.fetch .access) → Q () w') :
    (rmAccessRights pLogin).wp (perform env) Q w := by
  simp only [rmAccessRights, Prog.wp_bind, Prog.liftM_eq, wp_perform_lift]
  refine wp_quiet fun _ w₁ h₁ => ?_
  simp only [wp_delDb, wp_listDb, h₁]
  refine wp_rmChannelRights fun w' same hacc => ?_
  have same₁ : SameExcept [.access] w.db (w.db.delDb .access (some pLogin)).2 :=
    Databases.same_delDb
  rw [Databases.fetch_delDb, dropKeys_update, same₁.listDb (by decide)] at hacc
  exact h w' (same₁.trans same) hacc

/-- `rmAccount` ends the session, takes the rights and removes the login. -/
theorem wp_rmAccount
    (h : ∀ w', SameExcept (.user :: .access :: .timelog :: sessionDbs) w.db w'.db →
      w'.db.sessions = w.db.sessions.unbind (key pLogin) →
      w'.db.fetch .access =
        dropKeys (rightKeys (w.db.listDb .channel) pLogin) (w.db.fetch .access) →
      w'.db.fetch .user = Function.update (w.db.fetch .user) (key pLogin) none → Q () w') :
    (rmAccount pLogin).wp (perform env) Q w := by
  simp only [rmAccount, Prog.wp_bind, Prog.liftM_eq, wp_perform_lift]
  refine wp_quiet fun _ w₁ h₁ => wp_logOut fun w₂ same₂ hs₂ => ?_
  refine wp_rmAccessRights fun w₃ same₃ hacc₃ => ?_
  rw [h₁] at same₂ hs₂
  rw [same₂.listDb (by decide), same₂.fetch (by decide)] at hacc₃
  simp only [wp_delDb, Prog.wp_pure]
  have same₄ : SameExcept [.user] w₃.db (w₃.db.delDb .user (some pLogin)).2 :=
    Databases.same_delDb
  have same₅ : SameExcept [.timelog] _
      ((w₃.db.delDb .user (some pLogin)).2.delDb .timelog (some pLogin)).2 :=
    Databases.same_delDb
  refine h _ ?_ ?_ ?_ ?_
  · exact (((same₂.mono (by decide)).trans (same₃.mono (by decide))).trans
      (same₄.mono (by decide))).trans (same₅.mono (by decide))
  · rw [same₅.sessions (by decide) (by decide), same₄.sessions (by decide) (by decide),
      same₃.sessions (by decide) (by decide), hs₂]
  · rw [same₅.fetch (by decide), same₄.fetch (by decide), hacc₃]
  · rw [same₅.fetch (by decide), Databases.fetch_delDb, same₃.fetch (by decide),
      same₂.fetch (by decide)]

end Ebotula
