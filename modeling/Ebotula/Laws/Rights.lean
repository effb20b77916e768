import Ebotula.Laws.Sessions

/-!
# Rights and the accounts they belong to

A record of `ACCESS_DB` has a login as its key, or a login followed by a channel. No
login has a `#` and every channel starts with one, so a key says whose it is
(`Key.BelongsTo.unique`).

The law is that rights end with the account. `rmAccessRights` goes through the channels
there are when the account is removed, so it holds as long as no channel is removed
while somebody has a right in it (`Event.keepsChannels`).
-/

set_option autoImplicit false

namespace Ebotula

open Library

/-! ## Whose a key is -/

namespace Key

/-- The key of a login: it has no `#`. -/
def IsNick (u : Key) : Prop := '#' ∉ u.val

/-- The key of a channel: it starts with a `#`. -/
def IsChannel (c : Key) : Prop := c.val.head? = some '#'

variable {u u' c c' : Key}

theorem IsChannel.val_eq (h : c.IsChannel) : c.val = '#' :: c.val.tail := by
  rw [IsChannel] at h
  cases hc : c.val with
  | nil =>
    rw [hc] at h
    cases h
  | cons a t =>
    rw [hc] at h
    cases h
    rfl

theorem cutFirst_append (hu : u.IsNick) (hc : c.IsChannel) :
    cutFirst '#' (u ++ c).val = some (u.val, c.val.tail) := by
  rw [val_append, hc.val_eq]
  exact Library.cutFirst_append _ hu

/-- A login and a channel can be read off the key of a right. -/
theorem append_inj (hu : u.IsNick) (hu' : u'.IsNick) (hc : c.IsChannel) (hc' : c'.IsChannel)
    (h : u ++ c = u' ++ c') : u = u' ∧ c = c' := by
  have hcut := cutFirst_append hu hc
  rw [h, cutFirst_append hu' hc', Option.some.injEq, Prod.mk.injEq] at hcut
  refine ⟨Subtype.ext hcut.1.symm, Subtype.ext ?_⟩
  rw [hc.val_eq, hc'.val_eq, hcut.2]

/-- No login is the key of a right in a channel. -/
theorem ne_append (hu : u.IsNick) (hc : c.IsChannel) : u ≠ u' ++ c := by
  rintro rfl
  rw [IsNick, val_append, hc.val_eq] at hu
  exact hu (List.mem_append_right _ List.mem_cons_self)

/-- The key of a login's right, his own or one in a channel. -/
def BelongsTo (k u : Key) : Prop := k = u ∨ ∃ c : Key, c.IsChannel ∧ k = u ++ c

/-- A right belongs to one login. -/
theorem BelongsTo.unique {k : Key} (hu : u.IsNick) (hu' : u'.IsNick) (h : k.BelongsTo u)
    (h' : k.BelongsTo u') : u = u' := by
  rcases h with rfl | ⟨c, hc, rfl⟩
  · rcases h' with h' | ⟨c, hc, h'⟩
    · exact h'
    · exact absurd h' (ne_append hu hc)
  · rcases h' with h' | ⟨c', hc', h'⟩
    · exact absurd h'.symm (ne_append hu' hc)
    · exact (append_inj hu hu' hc hc' h').1

end Key

/-- A character that is no small letter is that of one character only. -/
theorem toLower_eq_of_not_lower {c d : Char} (hd : ¬ (97 ≤ d.val.toNat ∧ d.val.toNat ≤ 122))
    (h : c.toLower = d) : c = d := by
  by_cases hu : c.val ≥ 'A'.val ∧ c.val ≤ 'Z'.val
  · exact absurd (h ▸ toLower_of_upper hu) hd
  · rwa [toLower_of_not_upper hu] at h

/-- A key has a character that is no small letter only where its string has it. -/
theorem notMem_key {s : CStr} {d : Char} (hd : ¬ (97 ≤ d.val.toNat ∧ d.val.toNat ≤ 122))
    (h : d ∉ s) : d ∉ (key s).val := by
  intro hmem
  rw [val_key, strToLower_eq_map, List.mem_map] at hmem
  obtain ⟨c, hc, hlow⟩ := hmem
  exact h (toLower_eq_of_not_lower hd hlow ▸ hc)

/-- A character that is no capital letter stays in a key. -/
theorem mem_key {s : CStr} {d : Char} (hd : d.toLower = d) (h : d ∈ s) : d ∈ (key s).val := by
  rw [val_key, strToLower_eq_map, List.mem_map]
  exact ⟨d, h, hd⟩

theorem key_isNick_of_notMem {s : CStr} (h : '#' ∉ s) : (key s).IsNick :=
  notMem_key (by decide) h

theorem key_isNick {s : CStr} (h : nickStringCheck s = true) : (key s).IsNick := by
  refine key_isNick_of_notMem fun hc => ?_
  rw [nickStringCheck, Bool.and_eq_true, List.all_eq_true] at h
  exact absurd (h.2 _ hc) (by decide)

theorem key_isChannel {s : CStr} (h : s.head? = some '#') : (key s).IsChannel := by
  rw [Key.IsChannel, val_key, strToLower, List.head?_map, h]
  rfl

variable {G : Type} [DbLib G] {w w' : World G} {e : Event}

/-! ## Names of accounts and channels -/

/-- The name of an account that comes has been checked. -/
theorem Change.nick {dbs dbs' : Databases G} (change : Change dbs e dbs')
    (h : ∀ u, (dbs.fetch .user u).isSome → u.IsNick) :
    ∀ u, (dbs'.fetch .user u).isSome → u.IsNick := by
  intro u hu
  rcases change.user_new hu with hold | ⟨env, pMsg, pNick, rfl, hnick, rfl⟩
  · exact h u hold
  · exact key_isNick (pMsg.nick_check _ hnick)

/-- Accounts and channels can be told apart by their names. -/
structure Named (dbs : Databases G) : Prop where
  nick : ∀ u, (dbs.fetch .user u).isSome → u.IsNick
  channel : ∀ c, (dbs.fetch .channel c).isSome → c.IsChannel

namespace Named

variable {dbs dbs' : Databases G}

/-- No account or channel comes. -/
theorem of_le (h : Named dbs)
    (huser : ∀ k, (dbs'.fetch .user k).isSome → (dbs.fetch .user k).isSome)
    (hchannel : ∀ k, (dbs'.fetch .channel k).isSome → (dbs.fetch .channel k).isSome) :
    Named dbs' :=
  ⟨fun u hu => h.nick u (huser u hu), fun c hc => h.channel c (hchannel c hc)⟩

/-- The names that come with an account or a channel have been checked. -/
theorem change (h : Named dbs) (change : Change dbs e dbs') : Named dbs' := by
  refine ⟨change.nick h.nick, fun c hc => ?_⟩
  rcases change.channel_new hc with hold | ⟨env, pMsg, pChannel, rfl, hchannel, rfl⟩
  · exact h.channel c hold
  · exact key_isChannel (pMsg.channel_head _ hchannel)

end Named

/-! ## Rights end with the account -/

/-- Nobody has a right in a channel that is removed, if it is on the list at all. -/
def Event.keepsChannels (dbs : Databases G) : Event → Bool
  | .command _ .rmChannel pMsg => pMsg.pAccessChannel.all fun pAccessChannel =>
    (dbs.fetch .channel (key pAccessChannel)).isNone ||
      (dbs.listDb .user).all fun pLogin =>
        (dbs.fetch .access (key (pLogin ++ pAccessChannel))).isNone
  | _ => true

/-- A channel in which somebody has a right is not the one that is removed. -/
theorem Event.ne_of_keepsChannels {dbs : Databases G} {env : Env} {pMsg : MsgItem}
    {pChannel : CStr} {u c : Key}
    (kept : Event.keepsChannels dbs (.command env .rmChannel pMsg) = true)
    (hchannel : pMsg.pAccessChannel = some pChannel) (hu : (dbs.fetch .user u).isSome)
    (hc : (dbs.fetch .channel c).isSome) (hright : (dbs.fetch .access (u ++ c)).isSome) :
    c ≠ key pChannel := by
  rintro rfl
  simp only [Event.keepsChannels, hchannel, Option.all_some, Bool.or_eq_true,
    Option.isNone_iff_eq_none, List.all_eq_true] at kept
  rcases kept with hnone | hall
  · rw [hnone] at hc
    cases hc
  · have hfree := hall u.val (Databases.val_mem_listDb hu)
    rw [key_append, key_val] at hfree
    rw [hfree] at hright
    cases hright

theorem isSome_update_some {f : Key → Option CStr} {x k : Key} {value : CStr}
    (h : (f k).isSome) : (Function.update f x (some value) k).isSome := by
  rw [Function.update_apply]
  split
  · rfl
  · exact h

/-- Every right is that of an account, either alone or in a channel that is on the list;
and accounts and channels can be told apart by their names. -/
structure RightsOwned (dbs : Databases G) : Prop where
  nick : ∀ u, (dbs.fetch .user u).isSome → u.IsNick
  channel : ∀ c, (dbs.fetch .channel c).isSome → c.IsChannel
  right : ∀ k, (dbs.fetch .access k).isSome → ∃ u, (dbs.fetch .user u).isSome ∧
    (k = u ∨ ∃ c, (dbs.fetch .channel c).isSome ∧ k = u ++ c)

namespace RightsOwned

variable {dbs dbs' : Databases G}

theorem named (h : RightsOwned dbs) : Named dbs := ⟨h.nick, h.channel⟩

/-- What is left to show where the names are known to be right. -/
theorem of_named (named : Named dbs) (right : ∀ k, (dbs.fetch .access k).isSome →
    ∃ u, (dbs.fetch .user u).isSome ∧
      (k = u ∨ ∃ c, (dbs.fetch .channel c).isSome ∧ k = u ++ c)) : RightsOwned dbs :=
  ⟨named.nick, named.channel, right⟩

/-- A right is still that of an account where no account or channel goes. -/
theorem right_grown (h : RightsOwned dbs) {k : Key} (hk : (dbs.fetch .access k).isSome)
    (huser : ∀ u, (dbs.fetch .user u).isSome → (dbs'.fetch .user u).isSome)
    (hchannel : ∀ c, (dbs.fetch .channel c).isSome → (dbs'.fetch .channel c).isSome) :
    ∃ u, (dbs'.fetch .user u).isSome ∧
      (k = u ∨ ∃ c, (dbs'.fetch .channel c).isSome ∧ k = u ++ c) := by
  obtain ⟨u, hu, hform⟩ := h.right k hk
  exact ⟨u, huser u hu, hform.imp_right fun ⟨c, hc, hkc⟩ => ⟨c, hchannel c hc, hkc⟩⟩

/-- Nothing is granted, and no account or channel goes. -/
theorem of_grown (h : RightsOwned dbs) (named : Named dbs')
    (huser : ∀ u, (dbs.fetch .user u).isSome → (dbs'.fetch .user u).isSome)
    (hchannel : ∀ c, (dbs.fetch .channel c).isSome → (dbs'.fetch .channel c).isSome)
    (haccess : dbs'.fetch .access = dbs.fetch .access) : RightsOwned dbs' := by
  refine of_named named fun k hk => ?_
  rw [haccess] at hk
  exact h.right_grown hk huser hchannel

/-- What `rmAccount` leaves is not the account's. -/
theorem ne_of_notMem_rightKeys {pLogin : CStr} {k : Key} {u : Key}
    (hk : k ∉ rightKeys (dbs.listDb .channel) pLogin)
    (hform : k = u ∨ ∃ c, (dbs.fetch .channel c).isSome ∧ k = u ++ c) : u ≠ key pLogin := by
  rintro rfl
  refine hk ?_
  rcases hform with rfl | ⟨c, hc, rfl⟩
  · exact List.mem_cons_self
  · refine List.mem_cons_of_mem _ (List.mem_map.mpr ⟨c.val, Databases.val_mem_listDb hc, ?_⟩)
    rw [key_append, key_val]

theorem removal (h : RightsOwned dbs) (removal : Removal dbs dbs') : RightsOwned dbs' := by
  have removed : Removals dbs dbs' := .single removal
  have named : Named dbs' :=
    h.named.of_le (fun _ => removed.user_old) fun _ hc => removed.channel_eq ▸ hc
  cases removal with
  | logOut pLogin same =>
    refine h.of_grown named (fun u hu => ?_) (fun c hc => ?_) (same.fetch (by decide))
    · rwa [same.fetch (by decide)]
    · rwa [same.fetch (by decide)]
  | account pLogin same hsessions haccess huser =>
    refine of_named named fun k hk => ?_
    obtain ⟨right, hright⟩ := Option.isSome_iff_exists.mp hk
    rw [haccess] at hright
    obtain ⟨hkept, hold⟩ := dropKeys_eq_some hright
    obtain ⟨u, hu, hform⟩ := h.right k (by rw [hold, Option.isSome_some])
    refine ⟨u, ?_, by rwa [same.fetch (by decide)]⟩
    rwa [huser, Function.update_of_ne (ne_of_notMem_rightKeys hkept hform)]

theorem change (h : RightsOwned w.db) (change : Change w.db e dbs')
    (kept : e.keepsChannels w.db = true) : RightsOwned dbs' := by
  have named := h.named.change change
  cases change with
  | unchanged => exact h
  | removals _ removed =>
    clear named
    induction removed with
    | refl => exact h
    | tail _ last ih => exact ih.removal last
  | password same hkeys =>
    refine h.of_grown named (fun u hu => hkeys u ▸ hu) (fun c hc => ?_) (same.fetch (by decide))
    rwa [same.fetch (by decide)]
  | record same hkeys =>
    refine h.of_grown named (fun u hu => ?_) (fun c hc => hkeys c ▸ hc) (same.fetch (by decide))
    rwa [same.fetch (by decide)]
  | ident _ _ _ same | nickChange _ _ same =>
    refine h.of_grown named (fun u hu => ?_) (fun c hc => ?_) (same.fetch (by decide))
    · rwa [same.fetch (by decide)]
    · rwa [same.fetch (by decide)]
  | addChannel _ same hrecord =>
    refine h.of_grown named (fun u hu => ?_) (fun c hc => ?_) (same.fetch (by decide))
    · rwa [same.fetch (by decide)]
    · rw [hrecord]
      exact isSome_update_some hc
  | rmChannel hchannel same hrecord =>
    refine of_named named fun k hk => ?_
    rw [same.fetch (by decide)] at hk
    obtain ⟨u, hu, hform⟩ := h.right k hk
    refine ⟨u, by rwa [same.fetch (by decide)], hform.imp_right ?_⟩
    rintro ⟨c, hc, rfl⟩
    refine ⟨c, ?_, rfl⟩
    rwa [hrecord, Function.update_of_ne (Event.ne_of_keepsChannels kept hchannel hu hc hk)]
  | @hello _ env pMsg pNick value hnick hlevel hfree same huser hsessions haccess =>
    refine of_named named fun k hk => ?_
    have old (hk : (w.db.fetch .access k).isSome) : ∃ u, (dbs'.fetch .user u).isSome ∧
        (k = u ∨ ∃ c, (dbs'.fetch .channel c).isSome ∧ k = u ++ c) := by
      refine h.right_grown hk (fun u hu => ?_) fun c hc => ?_
      · rw [huser]
        exact isSome_update_some hu
      · rwa [same.fetch (by decide)]
    rw [haccess] at hk
    split at hk
    · rw [Function.update_apply] at hk
      split at hk
      · next heq =>
        -- the first account becomes the master
        refine ⟨key pNick, ?_, .inl heq⟩
        rw [huser, Function.update_self, Option.isSome_some]
      · exact old hk
    · exact old hk
  | @accountmode _ env pMsg pAccessChannel pLogin pPos accesslogin mod0 mod1 hrequest hissuer
      hother hchannel huser hmaster hmode same haccess =>
    refine of_named named fun k hk => ?_
    rw [same.fetch (d := .user) (by decide), same.fetch (d := .channel) (by decide)]
    cases hold : w.db.fetch .access k with
    | some _ => exact h.right k (by rw [hold, Option.isSome_some])
    | none =>
      rw [haccess] at hk
      obtain ⟨rfl, -⟩ := changedRights_gain hold hk
      refine ⟨key pLogin, huser, ?_⟩
      split
      · exact .inl rfl
      · exact .inr ⟨key pAccessChannel, hchannel, key_append _ _⟩

/-- Every right belongs to an account. -/
theorem belongsTo (h : RightsOwned dbs) {k : Key} (hk : (dbs.fetch .access k).isSome) :
    ∃ u, (dbs.fetch .user u).isSome ∧ k.BelongsTo u := by
  obtain ⟨u, hu, hform⟩ := h.right k hk
  exact ⟨u, hu, hform.imp_right fun ⟨c, hc, hkc⟩ => ⟨c, h.channel c hc, hkc⟩⟩

/-- A name that is free has no rights. -/
theorem free (h : RightsOwned dbs) {u k : Key} (hnick : u.IsNick)
    (hfree : dbs.fetch .user u = none) (hk : k.BelongsTo u) : dbs.fetch .access k = none := by
  by_contra hne
  obtain ⟨x, hx, hkx⟩ := h.belongsTo (Option.isSome_iff_ne_none.mpr hne)
  rw [hk.unique hnick (h.nick x hx) hkx] at hfree
  rw [hfree] at hx
  cases hx

end RightsOwned

/-- No account, no channel and no right. -/
structure Databases.NoRights (dbs : Databases G) : Prop where
  user : ∀ k, dbs.fetch .user k = none
  channel : ∀ k, dbs.fetch .channel k = none
  access : ∀ k, dbs.fetch .access k = none

theorem Databases.NoRights.owned {dbs : Databases G} (h : dbs.NoRights) : RightsOwned dbs := by
  refine ⟨fun u hu => ?_, fun c hc => ?_, fun k hk => ?_⟩
  · rw [h.user] at hu
    cases hu
  · rw [h.channel] at hc
    cases hc
  · rw [h.access] at hk
    cases hk

/-- A login without any right has the level of a user, in every channel. -/
theorem userLevel_of_free {dbs : Databases G} {u : Key} {pNetmask : Option CStr} {owner : CStr}
    (hlogin : dbs.getDb .nickToUser pNetmask = some owner) (howner : key owner = u)
    (hfree : ∀ k : Key, k.BelongsTo u → dbs.fetch .access k = none) {pChannel : Option CStr}
    (hchannel : ∀ c ∈ pChannel, c.head? = some '#') :
    dbs.userLevel pChannel pNetmask = .loggedLevel := by
  have hright : dbs.channelRight owner pChannel = none := by
    cases pChannel with
    | none => rfl
    | some c =>
      rw [Databases.channelRight, Option.bind_some, key_append, howner]
      exact hfree _ (.inr ⟨key c, key_isChannel (hchannel c rfl), rfl⟩)
  rw [Databases.userLevel, hlogin]
  dsimp only
  rw [hright, howner, hfree u (.inl rfl)]
  rfl

/-- `hello` grants nothing beside other accounts. -/
theorem Change.hello_access {dbs dbs' : Databases G} {env : Env} {pMsg : MsgItem}
    (change : Change dbs (.command env .hello pMsg) dbs') (hlist : dbs.listDb .user ≠ []) :
    dbs'.fetch .access = dbs.fetch .access := by
  cases change with
  | unchanged => rfl
  | removals hevent => rcases hevent with h | h | h <;> cases h
  | password same | record same => exact same.fetch (by decide)
  | hello _ _ _ _ _ _ haccess => rw [haccess, if_neg (mt List.isEmpty_iff.mp hlist)]

/-- In every run from empty databases in which no channel is removed that somebody has a
right in, `rmAccount` leaves no right of the account. And an account that `hello` creates
beside others has the level of a user under every netmask and in every channel. -/
theorem rights_end_with_account {es : List Event} (start : w.db.NoRights)
    (run : Run step (fun w e => e.keepsChannels w.db = true) w es w') :
    (∀ env pLogin, (w'.db.fetch .user (key pLogin)).isSome →
      ∃ w'', (rmAccount pLogin).run (perform env) w' = some ((), w'') ∧
        ∀ k, (w''.db.fetch .access k).isSome → ¬ k.BelongsTo (key pLogin)) ∧
    ∀ env pMsg pNick w'', pMsg.pCallingNick = some pNick → w'.db.listDb .user ≠ [] →
      w'.db.fetch .user (key pNick) = none →
      step w' (.command env .hello pMsg) = some w'' →
      (w''.db.fetch .user (key pNick)).isSome →
      ∀ pNetmask owner, w''.db.getDb .nickToUser pNetmask = some owner →
        key owner = key pNick → ∀ pChannel, (∀ c ∈ pChannel, c.head? = some '#') →
          (getUserLevel pChannel pNetmask).run (performQuiet env) w'' =
            some (.loggedLevel, w'') := by
  have owned : RightsOwned w'.db :=
    run.invariant (I := fun w => RightsOwned w.db)
      (fun _ _ _ owned kept hstep => owned.change (step_change hstep) kept) start.owned
  refine ⟨fun env pLogin huser => ?_, ?_⟩
  · obtain ⟨w'', hrun⟩ := rmAccount_ends env w' pLogin
    have haccess : w''.db.fetch .access =
        dropKeys (rightKeys (w'.db.listDb .channel) pLogin) (w'.db.fetch .access) :=
      wp_rmAccount (Q := fun _ w'' => w''.db.fetch .access =
        dropKeys (rightKeys (w'.db.listDb .channel) pLogin) (w'.db.fetch .access))
        (fun _ _ _ hacc _ => hacc) () w'' hrun
    refine ⟨w'', hrun, fun k hk hbelongs => ?_⟩
    obtain ⟨right, hright⟩ := Option.isSome_iff_exists.mp hk
    rw [haccess] at hright
    obtain ⟨hkept, hold⟩ := dropKeys_eq_some hright
    obtain ⟨u, hu, hform⟩ := owned.right k (by rw [hold, Option.isSome_some])
    have hku : k.BelongsTo u :=
      hform.imp_right fun ⟨c, hc, hkc⟩ => ⟨c, owned.channel c hc, hkc⟩
    exact RightsOwned.ne_of_notMem_rightKeys hkept hform
      (hku.unique (owned.nick u hu) (owned.nick _ huser) hbelongs)
  · intro env pMsg pNick w'' hnick hlist hfree hstep hcreated pNetmask owner hlogin howner
      pChannel hchannel
    have hname : (key pNick).IsNick := key_isNick (pMsg.nick_check _ hnick)
    rw [run_getUserLevel, userLevel_of_free hlogin howner (fun k hk => ?_) hchannel]
    rw [(step_change hstep).hello_access hlist]
    exact owned.free hname hfree hk

theorem freshBot_noRights : freshBot.db.NoRights := ⟨fun _ => rfl, fun _ => rfl, fun _ => rfl⟩

/-- An owner of a channel who is removed. -/
theorem rights_end_with_account_owner :
    ∃ es w' w'', Run step (fun w e => e.keepsChannels w.db = true) freshBot es w' ∧
      w'.db.fetch .access (key "alice#c") = some "+o".toList ∧
      (rmAccount "alice").run (perform calmEnv) w' = some ((), w'') ∧
      w''.db.fetch .access (key "alice#c") = none := by
  have computed : (receiveAll (fun w e => e.keepsChannels w.db) calmEnv freshBot ownedChannel).map
      (fun w => (w.db.fetch .access (key "alice#c"), (w.db.fetch .user (key "alice")).isSome)) =
      some (some "+o".toList, true) := by
    decide +kernel
  obtain ⟨w', hw, hfacts⟩ := Option.map_eq_some_iff.mp computed
  obtain ⟨hright, huser⟩ := Prod.mk.inj hfacts
  obtain ⟨es, run⟩ := run_of_receiveAll hw
  obtain ⟨w'', hrun, hnone⟩ :=
    (rights_end_with_account freshBot_noRights run).1 calmEnv "alice" huser
  refine ⟨es, w', w'', run, hright, hrun, ?_⟩
  refine Option.not_isSome_iff_eq_none.mp fun hk => hnone _ hk (.inr ⟨key "#c", ?_, ?_⟩)
  · exact key_isChannel rfl
  · exact key_append "alice" "#c"

/-- A channel is removed and its owner after it: the right is still there, for whoever
takes the name next. -/
theorem right_outlives_account :
    ∃ es w' w'', receiveAll (fun _ _ => true) calmEnv freshBot
        (ownedChannel ++ [":root!r@h PRIVMSG ebotula :!rmchannel #c".toList]) = some w' ∧
      Run step (fun _ _ => True) freshBot es w' ∧
      (w'.db.fetch .user (key "alice")).isSome ∧
      (rmAccount "alice").run (perform calmEnv) w' = some ((), w'') ∧
      (w''.db.fetch .access (key "alice#c")).isSome ∧
      (key "alice#c").BelongsTo (key "alice") := by
  have computed : ((receiveAll (fun _ _ => true) calmEnv freshBot
      (ownedChannel ++ [":root!r@h PRIVMSG ebotula :!rmchannel #c".toList])).bind fun w =>
        ((rmAccount "alice").run (perform calmEnv) w).map fun r =>
          ((w.db.fetch .user (key "alice")).isSome,
            (r.2.db.fetch .access (key "alice#c")).isSome)) = some (true, true) := by
    decide +kernel
  obtain ⟨w', hw, hremoved⟩ := Option.bind_eq_some_iff.mp computed
  obtain ⟨⟨⟨⟩, w''⟩, hrun, hfacts⟩ := Option.map_eq_some_iff.mp hremoved
  obtain ⟨huser, hright⟩ := Prod.mk.inj hfacts
  obtain ⟨es, run⟩ := run_of_receiveAll hw
  exact ⟨es, w', w'', hw, run.mono fun _ _ _ => trivial, huser, hrun, hright,
    .inr ⟨key "#c", key_isChannel rfl, key_append "alice" "#c"⟩⟩

end Ebotula
