import Ebotula.Laws.Expiry
import Ebotula.Timing

/-!
# The limits of the timing thread

The number of days that an account lives and that a session lasts may be any positive `int`; its
product with the seconds of a day is taken modulo 2^32. Up to 49710 days the limit is what it
says. From 49711 days on it lies less than `49710` days back, and accounts are removed that are
not old at all.
-/

set_option autoImplicit false

namespace Ebotula

open Library

variable {G : Type} [DbLib G] {env : Env} {w : World G}

/-! ## The product -/

/-- The limit lies the given number of days back exactly if the product is less than 2^32. -/
theorem dayLimit_eq_iff {newTime : Int} {days : BitVec 32} :
    dayLimit newTime days = newTime - 86400 * (days.toNat : Int) ↔ days.toNat ≤ 49710 := by
  have hproduct : (days * 86400#32).toNat = days.toNat * 86400 % 2 ^ 32 := BitVec.toNat_mul ..
  rw [dayLimit, hproduct]
  omega

/-- `AppMain` sees to it that a session does not outlive its account. -/
theorem autoLoggoff_checked (sSetup : ConfigSetup) :
    (checkDelayTimings (checkAutomaticTimes sSetup)).autoLoggoff ≤
      (checkDelayTimings (checkAutomaticTimes sSetup)).accountLiveTime := by
  have hdelays (s : ConfigSetup) : (checkDelayTimings s).autoLoggoff = s.autoLoggoff ∧
      (checkDelayTimings s).accountLiveTime = s.accountLiveTime := by
    rw [checkDelayTimings]
    split
    · simp
    · exact ⟨rfl, rfl⟩
  rw [(hdelays _).1, (hdelays _).2, checkAutomaticTimes]
  split
  · simp
  · next h => exact BitVec.not_lt.mp h

theorem readSetup_autoLoggoff {file : Option CStr} {argv : List CStr}
    {start sSetup : ConfigSetup} (h : readSetup file argv start = .ok sSetup) :
    sSetup.autoLoggoff.toNat ≤ sSetup.accountLiveTime.toNat := by
  rw [readSetup] at h
  split at h
  · cases h
  · split at h
    · cases h
    · cases h
      exact autoLoggoff_checked _

/-- The limits of both sweeps lie the days of the setup back, at any time. -/
def LimitsExact (sSetup : ConfigSetup) : Prop :=
  ∀ newTime,
    dayLimit newTime sSetup.accountLiveTime =
      newTime - 86400 * (sSetup.accountLiveTime.toNat : Int) ∧
    dayLimit newTime sSetup.autoLoggoff = newTime - 86400 * (sSetup.autoLoggoff.toNat : Int)

/-! ## A turn of the thread -/

/-- The time stamp of an account is not yet the given number of days old. -/
def Databases.YoungerThan (dbs : Databases G) (now : Int) (days : Nat) (u : Key) : Prop :=
  ∀ pTime, dbs.fetch .timelog u = some pTime → now - atol pTime < 86400 * days

/-- Who is younger than the time of an account is still there, and who is younger than that of a
session still logged in. -/
def YoungSpared (sSetup : ConfigSetup) (now : Int) (dbs dbs' : Databases G) : Prop :=
  ∀ u, (dbs.YoungerThan now sSetup.accountLiveTime.toNat u →
      dbs'.fetch .user u = dbs.fetch .user u ∧ dbs'.fetch .timelog u = dbs.fetch .timelog u) ∧
    (dbs.YoungerThan now sSetup.autoLoggoff.toNat u →
      dbs'.fetch .userToNick u = dbs.fetch .userToNick u ∧
      ∀ m, (dbs.fetch .nickToUser m).map key = some u →
        dbs'.fetch .nickToUser m = dbs.fetch .nickToUser m)

/-- No turn removes or logs off an account before its time. -/
def SparesYoung (G : Type) [DbLib G] (sSetup : ConfigSetup) : Prop :=
  ∀ (env : Env) (w : World G) (st st' : TimingState) (w' : World G), w.db.sessions.Inverse →
    (timingTurn sSetup st).run (perform env) w = some (st', w') →
    YoungSpared sSetup env.now w.db w'.db

section Turn

variable {sSetup : ConfigSetup} {newTime : Int} {st : TimingState}
  {Q : TimingState → World G → Prop}

/-- A step of a turn that writes no database. -/
theorem wp_pingServer (h : ∀ st' w', w'.db = w.db → Q st' w') :
    (pingServer sSetup newTime st).wp (perform env) Q w := by
  rw [pingServer, Prog.wp_ite]
  refine ⟨fun _ => ?_, fun _ => (Prog.wp_pure _ _ _).mpr (h st w rfl)⟩
  exact (Prog.wp_bind _ _ _ _).mpr (wp_lift_quiet fun _ w' hw' => (Prog.wp_pure _ _ _).mpr
    (h _ w' hw'))

theorem wp_identNickServ (h : ∀ st' w', w'.db = w.db → Q st' w') :
    (identNickServ sSetup newTime st).wp (perform env) Q w := by
  rw [identNickServ]
  split
  · rw [Prog.wp_ite]
    refine ⟨fun _ => ?_, fun _ => (Prog.wp_pure _ _ _).mpr (h st w rfl)⟩
    exact (Prog.wp_bind _ _ _ _).mpr (wp_lift_quiet fun _ w' hw' => (Prog.wp_pure _ _ _).mpr
      (h _ w' hw'))
  · exact (Prog.wp_pure _ _ _).mpr (h st w rfl)

/-- The step for the logins ends sessions of old accounts, if it is due. -/
theorem wp_removeDeadLogins (inverse : w.db.sessions.Inverse)
    (h : ∀ st' w' R, (∀ u, R u → w.db.Expired (dayLimit newTime sSetup.autoLoggoff) u) →
      SameExcept sessionDbs w.db w'.db → LoggedOut R w.db w'.db → Q st' w') :
    (removeDeadLogins sSetup newTime st).wp (perform env) Q w := by
  rw [removeDeadLogins, Prog.wp_ite]
  refine ⟨fun _ => ?_, fun _ => ?_⟩
  · simp only [Prog.wp_bind, Prog.liftM_eq]
    refine wp_lift_quiet fun _ w₁ h₁ => ?_
    rw [← h₁] at inverse
    refine wp_rmDeadLogins_loggedOut inverse fun w₂ same out => (Prog.wp_pure _ _ _).mpr ?_
    rw [h₁] at same out
    exact h _ w₂ _ (fun u hu => hu.2) same out
  · exact (Prog.wp_pure _ _ _).mpr (h st w (fun _ => False) (fun _ => False.elim) .refl
      (.nothing fun _ => id))

/-- The step for the accounts removes old ones, if it is due. -/
theorem wp_removeDeadAccounts (inverse : w.db.sessions.Inverse)
    (h : ∀ st' w' R, (∀ u, R u → w.db.Expired (dayLimit newTime sSetup.accountLiveTime) u) →
      Removed R w.db w'.db → Q st' w') :
    (removeDeadAccounts sSetup newTime st).wp (perform env) Q w := by
  rw [removeDeadAccounts, Prog.wp_ite]
  refine ⟨fun _ => ?_, fun _ => ?_⟩
  · simp only [Prog.wp_bind, Prog.liftM_eq]
    refine wp_lift_quiet fun _ w₁ h₁ => ?_
    rw [← h₁] at inverse
    refine wp_rmDeadAccounts_removed inverse fun w₂ removed => (Prog.wp_pure _ _ _).mpr ?_
    rw [h₁] at removed
    exact h _ w₂ _ (fun _ => id) removed
  · exact (Prog.wp_pure _ _ _).mpr (h st w (fun _ => False) (fun _ => False.elim)
      (.nothing fun _ => id))

/-- With exact limits a turn leaves the young accounts as they are. -/
theorem LimitsExact.sparesYoung (exact : LimitsExact sSetup)
    (hle : sSetup.autoLoggoff.toNat ≤ sSetup.accountLiveTime.toNat) : SparesYoung G sSetup := by
  intro env w st st' w' inverse hrun
  refine (Prog.wp_bind _ _ (fun _ w' => YoungSpared sSetup env.now w.db w'.db) w).mpr ?_ st' w' hrun
  rw [Prog.liftM_eq, wp_perform_lift, wp_time]
  obtain ⟨hlive, hlogoff⟩ := exact env.now
  refine (Prog.wp_bind _ _ _ _).mpr (wp_pingServer fun st₁ w₁ h₁ => ?_)
  rw [← h₁] at inverse
  refine (Prog.wp_bind _ _ _ _).mpr (wp_removeDeadLogins inverse fun st₂ w₂ R hR same out => ?_)
  refine (Prog.wp_bind _ _ _ _).mpr (wp_removeDeadAccounts (out.inverse inverse)
    fun st₃ w₃ R' hR' removed => wp_identNickServ fun st₄ w₄ h₄ => ?_)
  rw [h₁] at same out hR
  rw [h₄]
  intro u
  -- neither step takes a young account
  have young {days : Nat} (hy : w.db.YoungerThan env.now days u) {limit : Int}
      (hlimit : limit = env.now - 86400 * days) : ¬ w.db.Expired limit u := by
    rintro ⟨pTime, htime, hlt⟩
    have := hy pTime htime
    omega
  have hexpired (limit : Int) : w₂.db.Expired limit u ↔ w.db.Expired limit u := by
    rw [Databases.Expired, same.fetch (by decide), Databases.Expired]
  refine ⟨fun hy => ?_, fun hy => ?_⟩
  · have hkept : ¬ R' u := fun hu => young hy hlive ((hexpired _).mp (hR' u hu))
    rw [removed.user.kept u hkept, removed.timelog.kept u hkept, same.fetch (by decide),
      same.fetch (by decide)]
    exact ⟨rfl, rfl⟩
  · have hy' : w.db.YoungerThan env.now sSetup.accountLiveTime.toNat u := fun pTime htime => by
      have := hy pTime htime
      omega
    have hkept : ¬ (R u ∨ R' u) := by
      rintro (hu | hu)
      · exact young hy hlogoff (hR u hu)
      · exact young hy' hlive ((hexpired _).mp (hR' u hu))
    have both := out.trans removed.toLoggedOut
    refine ⟨both.userToNick.kept u hkept, fun m hm => both.nickToUser.kept m ?_⟩
    rintro ⟨v, hv, hlead⟩
    rw [hm] at hlead
    exact hkept (Option.some.inj hlead ▸ hv)

end Turn

/-- Whatever the configuration file and the command line set, the limits of the sweeps are exact
at any time and no account goes before its time, if and only if an account lives for at most 49710
days. -/
theorem limits_do_not_wrap_iff {file : Option CStr} {argv : List CStr} {pDatabasePath : CStr}
    {nLogLevel : BitVec 32} {sSetup : ConfigSetup}
    (hsetup : readSetup file argv (defaultSetup pDatabasePath nLogLevel) = .ok sSetup) :
    LimitsExact sSetup ∧ SparesYoung G sSetup ↔ sSetup.accountLiveTime.toNat ≤ 49710 := by
  have hle := readSetup_autoLoggoff hsetup
  constructor
  · rintro ⟨exact, -⟩
    exact dayLimit_eq_iff.mp (exact 0).1
  · intro hlive
    have exact : LimitsExact sSetup := fun newTime =>
      ⟨dayLimit_eq_iff.mpr hlive, dayLimit_eq_iff.mpr (by omega)⟩
    exact ⟨exact, exact.sparesYoung hle⟩

/-- The days of a setup, if there is one. -/
def readDays (argv : List CStr) : Option (Nat × Nat) :=
  match readSetup none argv (defaultSetup "/db" 5) with
  | .ok sSetup => some (sSetup.accountLiveTime.toNat, sSetup.autoLoggoff.toNat)
  | .error _ => none

theorem readDays_some {argv : List CStr} {alt autologoff : Nat}
    (h : readDays argv = some (alt, autologoff)) :
    ∃ sSetup, readSetup none argv (defaultSetup "/db" 5) = .ok sSetup ∧
      sSetup.accountLiveTime.toNat = alt ∧ sSetup.autoLoggoff.toNat = autologoff := by
  rw [readDays] at h
  split at h
  · next sSetup hsetup =>
    obtain ⟨halt, hautologoff⟩ := Prod.mk.inj (Option.some.inj h)
    exact ⟨sSetup, hsetup, halt, hautologoff⟩
  · cases h

/-- An account that lives for a month; its sessions would last for two. -/
theorem limits_do_not_wrap_month :
    ∃ sSetup, readSetup none ["ebotula", "-k", "30", "-a", "60"] (defaultSetup "/db" 5) =
      .ok sSetup ∧ sSetup.autoLoggoff.toNat = 30 ∧
      LimitsExact sSetup ∧ SparesYoung Gdbm sSetup := by
  have computed : readDays ["ebotula", "-k", "30", "-a", "60"] = some (30, 30) := by
    decide +kernel
  obtain ⟨sSetup, hsetup, halt, hautologoff⟩ := readDays_some computed
  exact ⟨sSetup, hsetup, hautologoff, (limits_do_not_wrap_iff hsetup).mpr (by omega)⟩

/-- An account that is to live for 49711 days is old after 63104 seconds. -/
theorem limit_wraps :
    ¬ ∀ (file : Option CStr) (argv : List CStr) (sSetup : ConfigSetup),
      readSetup file argv (defaultSetup "/db" 5) = .ok sSetup → LimitsExact sSetup := by
  intro claim
  have computed : readDays ["ebotula", "-k", "49711"] = some (49711, 3) := by
    decide +kernel
  obtain ⟨sSetup, hsetup, halt, -⟩ := readDays_some computed
  have hsmall := dayLimit_eq_iff.mp (claim _ _ sSetup hsetup 0).1
  omega

end Ebotula
