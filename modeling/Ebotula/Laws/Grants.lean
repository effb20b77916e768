import Ebotula.Laws.Rights
import Ebotula.Parameter

/-!
# Whose a grant is

Two kinds of rights share `ACCESS_DB`: those of a master, whose key is the login alone, and those
in a channel, whose key is the login with the channel behind it. A grant is what such a record is
written for. Every login that comes into `USER_DB` has been checked to have no `#`, also the one
of `dialogMaster`, and every channel that is read off a line starts with one, so a key is the key
of one grant only (`Grant.key_inj`), and a record is read for whom it was written.
-/

set_option autoImplicit false

namespace Ebotula

open Library

/-! ## Grants -/

/-- A login, and the channel in which it is given a right, or none for a master. -/
@[ext] structure Grant where
  login : Key
  channel : Option Key
  deriving DecidableEq

namespace Grant

/-- The key of its record. -/
def key (g : Grant) : Key :=
  match g.channel with
  | none => g.login
  | some c => g.login ++ c

/-- A login that is none of a channel, and a channel. -/
structure Proper (g : Grant) : Prop where
  nick : g.login.IsNick
  channel : ∀ c ∈ g.channel, c.IsChannel

/-- The records that are written for it. -/
def Record (g : Grant) (r : CStr) : Prop :=
  match g.channel with
  | none => r = ['m'] ∨ r = ['+', 'm']
  | some _ => ∃ c, c ≠ 'm' ∧ r = cString ['+', c]

theorem Record.ne_nil {g : Grant} {r : CStr} (h : g.Record r) : r ≠ [] := by
  obtain ⟨u, c⟩ := g
  cases c with
  | none =>
    rcases h with rfl | rfl
    · exact List.cons_ne_nil _ _
    · exact List.cons_ne_nil _ _
  | some c =>
    obtain ⟨a, -, rfl⟩ := h
    exact List.cons_ne_nil _ _

/-- No two grants share a key. -/
theorem key_inj {g g' : Grant} (h : g.Proper) (h' : g'.Proper) (hkey : g.key = g'.key) :
    g = g' := by
  obtain ⟨u, c⟩ := g
  obtain ⟨u', c'⟩ := g'
  cases c with
  | none =>
    cases c' with
    | none => exact Grant.ext hkey rfl
    | some c' => exact absurd hkey (Key.ne_append h.nick (h'.channel c' rfl))
  | some c =>
    cases c' with
    | none => exact absurd hkey.symm (Key.ne_append h'.nick (h.channel c rfl))
    | some c' =>
      obtain ⟨rfl, rfl⟩ :=
        Key.append_inj h.nick h'.nick (h.channel c rfl) (h'.channel c' rfl) hkey
      rfl

end Grant

/-- The grant that a mode change gives: its sign is a `+`. -/
def MsgItem.grant (pMsg : MsgItem) (env : Env) : Option Grant := do
  let (pAccessChannel, pLogin, pPos) ← pMsg.modeRequest
  let (mod0, mod1) ← pMsg.effectiveMode env pPos
  if mod0 = '+' then
    some (if mod1 = 'm' then ⟨key pLogin, none⟩ else ⟨key pLogin, some (key pAccessChannel)⟩)
  else none

/-- The grant that an act gives: the one of the first master, of a new master, or of a mode
change. -/
def Act.grant : Act → Option Grant
  | .dialogMaster _ name _ _ => some ⟨key (trim name), none⟩
  | .event (.command _ .hello pMsg) => pMsg.pCallingNick.map fun pNick => ⟨key pNick, none⟩
  | .event (.command env .accountMode pMsg) => pMsg.grant env
  | .event _ => none

section Acts

variable {G : Type} [DbLib G] {w w' : World G} {dbs dbs' : Databases G} {e : Event} {a : Act}
  {k : Key} {r : CStr}

/-! ## Who is written for -/

/-- What a dialog leaves: a new master, or the databases as they were. -/
inductive DialogChange (dbs : Databases G) (name : CStr) (dbs' : Databases G) : Prop
  | refused (same : SameExcept [.user] dbs dbs') (huser : dbs'.fetch .user = dbs.fetch .user)
  | created {passwd : CStr} (hcheck : nickStringCheck name = true)
      (same : SameExcept [.user, .access] dbs dbs')
      (huser : dbs'.fetch .user =
        Function.update (dbs.fetch .user) (key name) (some passwd))
      (hfree : dbs.fetch .access (key name) = none)
      (haccess : dbs'.fetch .access =
        Function.update (dbs.fetch .access) (key name) (some "+m".toList))

/-- An insertion fails and changes nothing, or the key was free. -/
theorem addDb_cases (dbs : Databases G) (d : DatabaseID) (s value : CStr) :
    ((dbs.fetch d (key s)).isSome ∧ dbs.addDb d (some s) (some value) = (false, dbs)) ∨
      (dbs.fetch d (key s) = none ∧ dbs.addDb d (some s) (some value) =
        (true, dbs.write d (key s) (Databases.storedValue G d value))) := by
  rw [Databases.addDb_some]
  cases h : dbs.fetch d (key s) with
  | some old => exact .inl ⟨rfl, if_pos rfl⟩
  | none => exact .inr ⟨rfl, if_neg (by simp)⟩

/-- What the two insertions of a dialog leave. -/
theorem dialogChange_insertions (dbs : Databases G) {name : CStr} (passwd : CStr)
    (hcheck : nickStringCheck name = true) :
    let user := dbs.addDb .user (some name) (some passwd)
    let access := user.2.addDb .access (some name) (some "+m")
    (user.1 = false → DialogChange dbs name user.2) ∧
      (user.1 = true → access.1 = false →
        DialogChange dbs name (access.2.delDb .user (some name)).2) ∧
      (user.1 = true → access.1 = true → DialogChange dbs name access.2) := by
  intro user access
  rcases addDb_cases dbs .user name passwd with ⟨-, huser⟩ | ⟨hfree, huser⟩
  · rw [show user = _ from huser]
    exact ⟨fun _ => .refused .refl rfl, nofun, nofun⟩
  have hothers : SameExcept [.user] dbs user.2 := Databases.same_addDb
  have hwritten : user.2.fetch .user = Function.update (dbs.fetch .user) (key name)
      (some (Databases.storedValue G .user passwd)) := by
    rw [show user = _ from huser, Databases.fetch_write]
  have hrights : user.2.fetch .access = dbs.fetch .access := hothers.fetch (by decide)
  have htrue : user.1 = true := congrArg Prod.fst huser
  refine ⟨fun hfalse => absurd (htrue.symm.trans hfalse) nofun, ?_⟩
  rcases addDb_cases user.2 .access name "+m" with ⟨-, haccess⟩ | ⟨hnone, haccess⟩
  · rw [show access = _ from haccess]
    refine ⟨fun _ _ => ?_, nofun⟩
    -- the account is deleted again
    refine .refused (hothers.trans Databases.same_delDb) ?_
    rw [Databases.fetch_delDb, hwritten, Function.update_idem, ← hfree, Function.update_eq_self]
  · refine ⟨fun _ hfalse => absurd ((congrArg Prod.fst haccess).symm.trans hfalse) nofun,
      fun _ _ => ?_⟩
    have hsame : SameExcept [.user, .access] dbs access.2 :=
      (hothers.mono (by decide)).trans ((Databases.same_addDb (d := .access)).mono (by decide))
    have hkept : access.2.fetch .user = user.2.fetch .user :=
      (Databases.same_addDb (d := .access)).fetch (by decide)
    refine .created hcheck hsame (hkept.trans hwritten) (hrights ▸ hnone) ?_
    rw [show access = _ from haccess, Databases.fetch_write, hrights]
    rfl

theorem wp_dialogMaster {env : Env} {name passwd repasswd : CStr} :
    (dialogMaster name passwd repasswd).wp (perform env)
      (fun _ w' => DialogChange w.db (trim name) w'.db) w := by
  have htold {q : Quiet Unit} {w₁ : World G} (h : DialogChange w.db (trim name) w₁.db) :
      q.wp (performQuiet env) (fun _ w' => DialogChange w.db (trim name) w'.db) w₁ :=
    wp_quiet fun _ w₂ h₂ => h₂ ▸ h
  have hsame : DialogChange w.db (trim name) w.db := .refused .refl rfl
  unfold dialogMaster
  simp only [Prog.liftM_eq, Prog.wp_bind, Prog.wp_ite, wp_perform_lift, wp_addDb, wp_delDb,
    Prog.wp_pure, Bool.not_eq_true', Bool.not_eq_true, Bool.not_eq_false, Bool.or_eq_true,
    not_or]
  refine ⟨fun _ => htold hsame, fun hname => ⟨fun _ => htold hsame, fun _ =>
    ⟨fun _ => htold hsame, fun _ => ?_⟩⟩⟩
  obtain ⟨htaken, hundone, hmade⟩ := dialogChange_insertions w.db (trim passwd) hname.1
  exact ⟨fun h => htold (htaken h), fun h => ⟨fun h' => htold (hundone h h'), hmade h⟩⟩

/-- The databases after an act. -/
theorem act_db (h : act w a = some w') :
    (∃ env name passwd repasswd, a = .dialogMaster env name passwd repasswd ∧
      DialogChange w.db (trim name) w'.db) ∨
    ∃ e, a = .event e ∧ Change w.db e w'.db := by
  cases a with
  | dialogMaster env name passwd repasswd =>
    obtain ⟨⟨made, w₁⟩, hrun, rfl⟩ := Option.map_eq_some_iff.mp h
    exact .inl ⟨env, name, passwd, repasswd, rfl, wp_dialogMaster made w₁ hrun⟩
  | event e => exact .inr ⟨e, rfl, step_change h⟩

theorem Named.act (named : Named w.db) (h : act w a = some w') : Named w'.db := by
  rcases act_db h with ⟨env, name, passwd, repasswd, rfl, hdialog⟩ | ⟨e, rfl, hchange⟩
  · cases hdialog with
    | refused same huser =>
      exact named.of_le (fun k hk => huser ▸ hk) fun k hk => by
        rwa [same.fetch (by decide)] at hk
    | created hcheck same huser =>
      refine ⟨fun u hu => ?_, fun c hc => named.channel c (by rwa [same.fetch (by decide)] at hc)⟩
      rw [huser, Function.update_apply] at hu
      split at hu
      · next heq => exact heq ▸ key_isNick hcheck
      · exact named.nick u hu
  · exact named.change hchange

/-- A record that is new, or has another value, is written for the grant of the act. -/
theorem Change.granted (named : Named dbs) (change : Change dbs e dbs')
    (hafter : dbs'.fetch .access k = some r) (hbefore : dbs.fetch .access k ≠ some r) :
    ∃ g, (Act.event e).grant = some g ∧ g.Proper ∧ g.key = k ∧ g.Record r := by
  cases change with
  | unchanged => exact absurd hafter hbefore
  | removals _ removed =>
    rcases removed.access_le k with heq | hnone
    · exact absurd (heq ▸ hafter) hbefore
    · rw [hnone] at hafter
      cases hafter
  | password same | record same | addChannel _ same | rmChannel _ same | ident _ _ _ same
  | nickChange _ _ same =>
    rw [same.fetch (by decide)] at hafter
    exact absurd hafter hbefore
  | @hello _ env pMsg pNick value hnick hlevel hfree same huser hsessions haccess =>
    have hproper : (Grant.mk (key pNick) none).Proper :=
      ⟨key_isNick (pMsg.nick_check _ hnick), nofun⟩
    rw [haccess] at hafter
    split at hafter
    · by_cases hk : k = key pNick
      · rw [hk, Function.update_self] at hafter
        refine ⟨_, ?_, hproper, hk.symm, .inl (Option.some.inj hafter).symm⟩
        rw [Act.grant, hnick, Option.map_some]
      · rw [Function.update_of_ne hk] at hafter
        exact absurd hafter hbefore
    · exact absurd hafter hbefore
  | @accountmode _ env pMsg pAccessChannel pLogin pPos accesslogin mod0 mod1 hrequest hissuer
      hother hchannel huser hmaster hmode same haccess =>
    have hnick : (key pLogin).IsNick := named.nick _ huser
    have hstart : (key pAccessChannel).IsChannel := named.channel _ hchannel
    rw [haccess] at hafter
    obtain ⟨hk, rfl, rfl⟩ := (changedRights_some hafter).resolve_left hbefore
    have hgrant : (Act.event (.command env .accountMode pMsg)).grant =
        some (if mod1 = 'm' then ⟨key pLogin, none⟩
          else ⟨key pLogin, some (key pAccessChannel)⟩) := by
      simp only [Act.grant, MsgItem.grant, hrequest, hmode, Option.bind_eq_bind,
        Option.bind_some, if_true]
    refine ⟨_, hgrant, ?_⟩
    by_cases hm : mod1 = 'm'
    · rw [if_pos hm] at hk ⊢
      rw [hm]
      exact ⟨⟨hnick, nofun⟩, hk.symm, .inr (by decide)⟩
    · rw [if_neg hm] at hk ⊢
      refine ⟨⟨hnick, ?_⟩, ?_, mod1, hm, rfl⟩
      · rintro c ⟨⟩
        exact hstart
      · exact (hk.trans (key_append _ _)).symm

theorem Named.granted (named : Named w.db) (h : Ebotula.act w a = some w')
    (hafter : w'.db.fetch .access k = some r) (hbefore : w.db.fetch .access k ≠ some r) :
    ∃ g, a.grant = some g ∧ g.Proper ∧ g.key = k ∧ g.Record r := by
  rcases act_db h with ⟨env, name, passwd, repasswd, rfl, hdialog⟩ | ⟨e, rfl, hchange⟩
  · cases hdialog with
    | refused same =>
      rw [same.fetch (by decide)] at hafter
      exact absurd hafter hbefore
    | created hcheck same huser hfree haccess =>
      rw [haccess] at hafter
      by_cases hk : k = key (trim name)
      · rw [hk, Function.update_self] at hafter
        exact ⟨_, rfl, ⟨key_isNick hcheck, nofun⟩, hk.symm, .inr (Option.some.inj hafter).symm⟩
      · rw [Function.update_of_ne hk] at hafter
        exact absurd hafter hbefore
  · exact hchange.granted named hafter hbefore

/-- The act of a run that wrote a record: before it another record was there or none, and from
it on this one. -/
def Wrote (w : World G) (as : List Act) (w' : World G) (k : Key) (r : CStr) (a : Act) : Prop :=
  ∃ as₁ as₂ w₁ w₂, as = as₁ ++ a :: as₂ ∧ Run act (fun _ _ => True) w as₁ w₁ ∧
    act w₁ a = some w₂ ∧ w₁.db.fetch .access k ≠ some r ∧ w₂.db.fetch .access k = some r ∧
    Run act (fun w _ => w.db.fetch .access k = some r) w₂ as₂ w'

/-- The record under this key, if there is one, was written by an act that gave the grant. -/
def WrittenFor (w : World G) (as : List Act) (w' : World G) (k : Key) (g : Grant) : Prop :=
  ∀ r, w'.db.fetch .access k = some r → ∃ a, Wrote w as w' k r a ∧ a.grant = some g ∧ g.Record r

theorem Named.run {as : List Act} {ok : World G → Act → Prop} (named : Named w.db)
    (run : Run Ebotula.act ok w as w') : Named w'.db :=
  run.invariant (I := fun w => Named w.db) (fun _ _ _ h _ hstep => h.act hstep) named

/-- The key of a record is that of the grant it was written for. -/
theorem Wrote.grant {as : List Act} (named : Named w.db) (h : Wrote w as w' k r a) :
    ∃ g, a.grant = some g ∧ g.Proper ∧ g.key = k ∧ g.Record r := by
  obtain ⟨as₁, as₂, w₁, w₂, -, before, hact, hbefore, hafter, -⟩ := h
  exact (named.run before).granted hact hafter hbefore

/-- Without records at the start, every record is written by an act of the run. -/
theorem wrote_of_run {as : List Act} (start : w.db.NoRights)
    (run : Run act (fun _ _ => True) w as w') (hafter : w'.db.fetch .access k = some r) :
    ∃ a, Wrote w as w' k r a := by
  rcases run.since (P := fun w => w.db.fetch .access k = some r) hafter with
    lasts | ⟨as₁, a, as₂, w₁, w₂, hsplit, before, -, hact, hbefore, hwritten, rest⟩
  · have hfirst : w.db.fetch .access k = some r := by
      cases lasts with
      | nil => exact hafter
      | cons hP => exact hP
    rw [start.access] at hfirst
    cases hfirst
  · exact ⟨a, as₁, as₂, w₁, w₂, hsplit, before, hact, hbefore, hwritten, rest⟩

/-- The record under the key of a grant was written for it. -/
theorem written_for {as : List Act} {g : Grant} (start : w.db.NoRights)
    (run : Run act (fun _ _ => True) w as w') (hg : g.Proper) : WrittenFor w as w' g.key g := by
  intro r hr
  obtain ⟨a, hwrote⟩ := wrote_of_run start run hr
  obtain ⟨g', hgrant, hproper, hkey, hrecord⟩ := hwrote.grant start.owned.named
  obtain rfl := Grant.key_inj hproper hg hkey
  exact ⟨a, hwrote, hgrant, hrecord⟩

/-- A record was not written for a grant with another key. -/
theorem not_written_for {as : List Act} {g : Grant} (named : Named w.db)
    (hr : w'.db.fetch .access k = some r) (hkey : g.key ≠ k) : ¬ WrittenFor w as w' k g := by
  intro hfor
  obtain ⟨a, hwrote, hgrant, -⟩ := hfor r hr
  obtain ⟨g', hgrant', -, hkey', -⟩ := hwrote.grant named
  obtain rfl := Option.some.inj (hgrant.symm.trans hgrant')
  exact hkey hkey'

/-- A run of the bot is one without dialogs. -/
theorem acts_of_events {es : List Event} {ok : World G → Event → Prop}
    (run : Run step ok w es w') : Run act (fun _ _ => True) w (es.map .event) w' := by
  induction run with
  | nil => exact .nil _
  | cons _ hstep _ ih => exact .cons trivial hstep ih

/-! ## Who is read for -/

/-- A channel of `CHANNEL_DB`, or one that is read off a line. -/
def KnownChannel (dbs : Databases G) (c : Key) : Prop :=
  (dbs.fetch .channel c).isSome ∨
    ∃ pLine pChannel, (getAccessChannel pLine).1 = some pChannel ∧ key pChannel = c

theorem Named.isChannel (named : Named dbs) {c : Key} (h : KnownChannel dbs c) : c.IsChannel := by
  rcases h with h | ⟨pLine, pChannel, h, rfl⟩
  · exact named.channel c h
  · exact key_isChannel (getAccessChannel_head h)

/-- The key under which an operation reads `ACCESS_DB`. -/
def Op.accessKey : Op → Option Key
  | .checkDb .access k _ | .existDb .access k | .getDb .access k => k.map Ebotula.key
  | _ => none

theorem callsFrom_getDb {env : Env} {P : Op → Prop} {db : DatabaseID} {s : Option CStr}
    {α : Type} {f : Option CStr → Quiet α} :
    (getDb db s >>= f).CallsFrom (performQuiet env) P w ↔
      P (.getDb db s) ∧ (f (w.db.getDb db s)).CallsFrom (performQuiet env) P w :=
  Prog.callsFrom_request rfl

theorem callsFrom_existDb {env : Env} {P : Op → Prop} {db : DatabaseID} {s : Option CStr}
    {α : Type} {f : Bool → Quiet α} :
    (existDb db s >>= f).CallsFrom (performQuiet env) P w ↔
      P (.existDb db s) ∧ (f (w.db.existDb db s)).CallsFrom (performQuiet env) P w :=
  Prog.callsFrom_request rfl

/-- `getUserLevel` reads the record of the login, and its record in the channel. -/
theorem getUserLevel_reads {env : Env} {pNetmask : Option CStr} {pLogin pChannel : CStr}
    (hlogin : w.db.getDb .nickToUser pNetmask = some pLogin) :
    (getUserLevel (some pChannel) pNetmask).CallsFrom (performQuiet env)
      (fun o => ∀ k ∈ o.accessKey, k = key pLogin ∨ k = key pLogin ++ key pChannel) w := by
  unfold getUserLevel
  rw [callsFrom_getDb, hlogin]
  refine ⟨by rintro k ⟨⟩, ?_⟩
  dsimp only
  rw [callsFrom_getDb]
  refine ⟨by rintro k ⟨⟩; exact .inr (key_append _ _), ?_⟩
  cases w.db.getDb .access (some (pLogin ++ pChannel)) with
  | some pLevel =>
    dsimp only
    split
    · trivial
    · split <;> trivial
  | none =>
    dsimp only
    rw [callsFrom_getDb]
    refine ⟨by rintro k ⟨⟩; exact .inl rfl, ?_⟩
    cases w.db.getDb .access (some pLogin) <;> trivial

theorem callsFrom_secondChar {env : Env} {P : Op → Prop} {α : Type} {f : Char → Quiet α}
    (pMod : CStr) (hplace : P (.unwritten .behindEmpty))
    (h : ∀ c, (f c).CallsFrom (performQuiet env) P w) :
    (secondChar pMod >>= f).CallsFrom (performQuiet env) P w := by
  cases pMod with
  | nil =>
    refine ⟨hplace, fun r s' hr => ?_⟩
    cases hr
    exact h _
  | cons c rest => exact h _

/-- With the target's right at hand `checkUserLevel` reads nothing but the record of whoever
asks. -/
theorem askedLevel_reads {env : Env} {pCmdLogin pLogin pChannel : CStr} (pMod : Option CStr) :
    Prog.CallsFrom (performQuiet env)
      (fun o => ∀ k ∈ o.accessKey,
        k = key pLogin ∨ k = key pLogin ++ key pChannel ∨ k = key pCmdLogin)
      (match pMod with
      | none => return true
      | some pMod => do
        if (← secondChar pMod) = 'm' then return false
        else if ← existDb .access (some pCmdLogin) then return true
        else if (← secondChar pMod) ≠ 'o' then return true
        else return false : Quiet Bool) w := by
  cases pMod with
  | none => trivial
  | some pMod =>
    refine callsFrom_secondChar pMod (by rintro k ⟨⟩) fun c => ?_
    split
    · trivial
    · rw [callsFrom_existDb]
      refine ⟨by rintro k ⟨⟩; exact .inr (.inr rfl), ?_⟩
      split
      · trivial
      · refine callsFrom_secondChar pMod (by rintro k ⟨⟩) fun c => ?_
        split <;> trivial

/-- `checkUserLevel` reads these of the target, and the record of whoever asks. -/
theorem checkUserLevel_reads {env : Env} {pCmdLogin pLogin pChannel : CStr} :
    (checkUserLevel pCmdLogin (some pLogin) (some pChannel)).CallsFrom (performQuiet env)
      (fun o => ∀ k ∈ o.accessKey,
        k = key pLogin ∨ k = key pLogin ++ key pChannel ∨ k = key pCmdLogin) w := by
  unfold checkUserLevel
  refine callsFrom_getDb.mpr ?_
  refine ⟨by rintro k ⟨⟩; exact .inr (.inl (key_append _ _)), ?_⟩
  cases w.db.getDb .access (some (pLogin ++ pChannel)) with
  | some pMod => exact askedLevel_reads (some pMod)
  | none =>
    rw [callsFrom_getDb]
    exact ⟨by rintro k ⟨⟩; exact .inl rfl, askedLevel_reads _⟩

/-- Grants cannot be confused. After every run from empty databases, dialogs for new masters
among it, the key of a login's right in a channel is that of no login and of no other right. What
`getUserLevel` reads for a login in a channel was written for that login or for it in that
channel, and so is what `checkUserLevel` reads for it, but for the record of whoever asks. -/
theorem grants_not_confused {as : List Act} (start : w.db.NoRights)
    (run : Run act (fun _ _ => True) w as w') :
    (∀ u c, (w'.db.fetch .user u).isSome → KnownChannel w'.db c →
      (∀ u', (w'.db.fetch .user u').isSome → u ++ c ≠ u') ∧
      (∀ u' c', (w'.db.fetch .user u').isSome → KnownChannel w'.db c' → u ++ c = u' ++ c' →
        u = u' ∧ c = c') ∧
      WrittenFor w as w' u ⟨u, none⟩ ∧ WrittenFor w as w' (u ++ c) ⟨u, some c⟩) ∧
    (∀ env pNetmask pLogin pChannel, w'.db.getDb .nickToUser pNetmask = some pLogin →
      (getUserLevel (some pChannel) pNetmask).CallsFrom (performQuiet env)
        (fun o => ∀ k ∈ o.accessKey, k = key pLogin ∨ k = key pLogin ++ key pChannel) w') ∧
    ∀ env pCmdLogin pLogin pChannel,
      (checkUserLevel pCmdLogin (some pLogin) (some pChannel)).CallsFrom (performQuiet env)
        (fun o => ∀ k ∈ o.accessKey,
          k = key pLogin ∨ k = key pLogin ++ key pChannel ∨ k = key pCmdLogin) w' := by
  have named : Named w'.db := start.owned.named.run run
  refine ⟨fun u c hu hc => ?_, fun _ _ _ _ => getUserLevel_reads, fun _ _ _ _ =>
    checkUserLevel_reads⟩
  have hnick := named.nick u hu
  have hchannel := named.isChannel hc
  refine ⟨fun u' hu' he => ?_, fun u' c' hu' hc' he => ?_, ?_, ?_⟩
  · exact Key.ne_append (named.nick u' hu') hchannel he.symm
  · exact Key.append_inj hnick (named.nick u' hu') hchannel (named.isChannel hc') he
  · exact written_for (g := ⟨u, none⟩) start run ⟨hnick, nofun⟩
  · exact written_for (g := ⟨u, some c⟩) start run ⟨hnick, by rintro _ ⟨⟩; exact hchannel⟩

/-- The owner of a channel: the record of her right was written for her and that channel. -/
theorem grants_not_confused_owner : ∃ as w', Run act (fun _ _ => True) freshBot as w' ∧
    (∃ r a, w'.db.fetch .access (key "alice" ++ key "#c") = some r ∧
      Wrote freshBot as w' (key "alice" ++ key "#c") r a ∧
      a.grant = some ⟨key "alice", some (key "#c")⟩) ∧
    key "alice" ++ key "#c" ≠ key "root" := by
  have computed : (receiveAll (fun _ _ => true) calmEnv freshBot ownedChannel).map
      (fun w => ((w.db.fetch .user (key "alice")).isSome, (w.db.fetch .user (key "root")).isSome,
        (w.db.fetch .channel (key "#c")).isSome,
        (w.db.fetch .access (key "alice" ++ key "#c")).isSome)) =
      some (true, true, true, true) := by
    decide +kernel
  obtain ⟨w', hw, hfacts⟩ := Option.map_eq_some_iff.mp computed
  simp only [Prod.mk.injEq] at hfacts
  obtain ⟨halice, hroot, hchannel, hright⟩ := hfacts
  obtain ⟨es, run⟩ := run_of_receiveAll hw
  have hacts := acts_of_events run
  obtain ⟨hlogin, -, -, hwritten⟩ := (grants_not_confused freshBot_noRights hacts).1
    (key "alice") (key "#c") halice (.inl hchannel)
  obtain ⟨r, hr⟩ := Option.isSome_iff_exists.mp hright
  obtain ⟨a, hwrote, hgrant, -⟩ := hwritten r hr
  exact ⟨_, w', hacts, ⟨r, a, hr, hwrote, hgrant⟩, hlogin _ hroot⟩

/-- When a master wants to kick an owner, `checkUserLevel` reads the record of the master, which
was written neither for the owner nor for her in the channel. -/
theorem asker_is_read : ∃ as w', Run act (fun _ _ => True) freshBot as w' ∧
    (w'.db.fetch .user (key "alice")).isSome ∧ KnownChannel w'.db (key "#c") ∧
    ¬ (checkUserLevel "root" (some "alice") (some "#c")).CallsFrom (performQuiet calmEnv)
      (fun o => ∀ k ∈ o.accessKey, WrittenFor freshBot as w' k ⟨key "alice", none⟩ ∨
        WrittenFor freshBot as w' k ⟨key "alice", some (key "#c")⟩) w' := by
  have computed : (receiveAll (fun _ _ => true) calmEnv freshBot ownedChannel).map
      (fun w => ((w.db.fetch .user (key "alice")).isSome,
        (w.db.fetch .channel (key "#c")).isSome, w.db.fetch .access (key "root"),
        w.db.getDb .access (some ("alice".toList ++ "#c".toList)))) =
      some (true, true, some "m".toList, some "+o".toList) := by
    decide +kernel
  obtain ⟨w', hw, hfacts⟩ := Option.map_eq_some_iff.mp computed
  simp only [Prod.mk.injEq] at hfacts
  obtain ⟨halice, hchannel, hroot, hright⟩ := hfacts
  obtain ⟨es, run⟩ := run_of_receiveAll hw
  refine ⟨_, w', acts_of_events run, halice, .inl hchannel, fun hreads => ?_⟩
  unfold checkUserLevel at hreads
  have hasks := (callsFrom_getDb.mp hreads).2
  rw [hright] at hasks
  have named : Named freshBot.db := freshBot_noRights.owned.named
  have hkey := (callsFrom_existDb.mp hasks).1 (key "root") rfl
  rcases hkey with hlogin | hchannel
  · exact not_written_for named hroot (by decide) hlogin
  · exact not_written_for named hroot (by decide) hchannel

end Acts

end Ebotula
