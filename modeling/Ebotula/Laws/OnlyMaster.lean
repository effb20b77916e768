import Ebotula.Laws.Effects
import Ebotula.Laws.Requests
import Ebotula.Library.Interleave
import Ebotula.Runs

/-!
# The first account under concurrency

`!hello` makes the first account the botmaster: it lists the accounts, adds its own and
becomes master if the list was empty. The list is a snapshot, and nothing keeps another
`!hello` from taking one before the first account is added. So who finds the list empty
becomes master, and there is one master at most as long as no second worker takes its
snapshot of the empty database between the snapshot of another and its addition.

A worker is a candidate from its empty snapshot on. The law rests on what the program of
`hello` may request before its snapshot, after an empty one and after another one.
-/

set_option autoImplicit false

namespace Ebotula

open Library

variable {G : Type} [DbLib G] {ι : Type} [DecidableEq ι]

/-! ## What `hello` requests -/

/-- No write but of the access record of one name, and no account is removed. -/
def HelloOp (pNick : Option CStr) : (quietSig.sum writeSig).Op → Prop
  | .inl _ => True
  | .inr o => (o.db = .access → o.keyArg = pNick) ∧ (o.db = .access ∨ o.db = .user → ¬ o.IsDel)

/-- Talk, among requests that may write. -/
def BotTalk : (quietSig.sum writeSig).Op → Prop
  | .inl o => o.Talk
  | .inr _ => False

/-- The request that takes the snapshot. -/
def ListsUsers (o : (quietSig.sum writeSig).Op) : Prop := o = .inl (.listDb .user)

/-- After its snapshot `hello` adds the account, and touches an access record only if the
snapshot was empty. -/
def AfterSnapshot (pNick : Option CStr) (o : (quietSig.sum writeSig).Op)
    (r : (quietSig.sum writeSig).Res o) (p : Bot Unit) : Prop :=
  match o, r with
  | .inl (.listDb .user), r => p.next = some (.inr (.addDb .user pNick (some []))) ∧
      p.Calls (HelloOp pNick) ∧ (r ≠ ([] : List CStr) → p.Calls (HelloOp none))
  | _, _ => False

/-- What is left of a `hello` that has taken no snapshot yet, or not an empty one. -/
def Bystander (pNick : Option CStr) (p : Bot Unit) : Prop :=
  p.Until BotTalk ListsUsers (AfterSnapshot pNick) ∨ p.Calls (HelloOp none)

section Hello

-- the programs are taken apart by the rules for `Calls`, and never unfolded into requests
attribute [local irreducible] Prog.Calls Prog.Until

variable {pNick pNetmask : Option CStr} {pLogin : CStr} {pMsg : MsgItem}

theorem helloOp_session {o : DbWrite} (h : o.db ≠ .access) (h' : o.db ≠ .user) :
    HelloOp pNick (.inr o) := ⟨fun hdb => absurd hdb h, fun hdb => hdb.elim h.elim h'.elim⟩

theorem helloOp_quiet {α : Type} (p : Quiet α) : (p.lift : Bot α).Calls (HelloOp pNick) :=
  calls_quiet p fun _ => trivial

theorem helloOp_logOn : (logOn pNetmask pLogin).Calls (HelloOp pNick) := by
  unfold logOn bindSession stampLogin
  simp only [Prog.liftM_eq]
  repeat' first
    | with_reducible exact .pure _
    | with_reducible exact helloOp_quiet _
    | with_reducible refine calls_addDb ?_ | with_reducible refine calls_replaceDb ?_
    | with_reducible refine calls_delDb ?_
    | with_reducible refine .bind ?_ fun _ => ?_
    | split
  all_goals exact helloOp_session (by rintro ⟨⟩) (by rintro ⟨⟩)

theorem helloOp_helloMaster : (helloMaster pMsg).Calls (HelloOp pMsg.pCallingNick) := by
  unfold helloMaster
  simp only [Prog.liftM_eq]
  repeat' first
    | with_reducible exact .pure _
    | with_reducible exact helloOp_quiet _
    | with_reducible refine calls_addDb ?_ | with_reducible refine calls_replaceDb ?_
    | with_reducible refine .bind ?_ fun _ => ?_
    | split
  all_goals exact ⟨fun _ => rfl, fun _ => id⟩

/-- `hello` from the addition of the account on. -/
def helloAdd (pMsg : MsgItem) (pList : List CStr) : Bot Unit := do
  if ← addDb .user pMsg.pCallingNick (some []) then
    logOn pMsg.pNetmask (pMsg.pCallingNick.getD [])
    answer pMsg "Nice to meet you." []
    answer pMsg "Your account is %s." [.str pMsg.pCallingNick]
    answer pMsg "You're now identified." []
  else answer pMsg "The account %s is already exists." [.str pMsg.pCallingNick]
  if pList.isEmpty then helloMaster pMsg

theorem hello_eq : hello pMsg = (do
    logger .debug "Try to create an new account for %s" [.str pMsg.pCallingNick]
    if pMsg.userLevel > .loggedLevel then answer pMsg "You're already identified." []
    else helloAdd pMsg (← listDb .user)) := rfl

theorem helloOp_helloAdd {pList : List CStr}
    (h : pList.isEmpty → (helloMaster pMsg).Calls (HelloOp pNick)) :
    (helloAdd pMsg pList).Calls (HelloOp pNick) := by
  unfold helloAdd
  simp only [Prog.liftM_eq]
  refine .bind (calls_addDb ⟨nofun, fun _ => id⟩) fun added => ?_
  have hrest : Prog.Calls (HelloOp pNick)
      (if pList.isEmpty = true then helloMaster pMsg else pure ()) := by
    split
    · next hempty => exact h hempty
    · exact .pure _
  repeat' first
    | with_reducible exact hrest
    | with_reducible exact helloOp_quiet _
    | with_reducible exact helloOp_logOn
    | with_reducible refine .bind ?_ fun _ => ?_
    | split

theorem hello_until : (hello pMsg).Until BotTalk ListsUsers (AfterSnapshot pMsg.pCallingNick) := by
  rw [hello_eq]
  simp only [Prog.liftM_eq]
  refine .bind talks_logger.lift fun _ => ?_
  split
  · exact Prog.Calls.until (talks_answer [] (by decide +kernel) rfl).lift
  · refine Prog.Until.request (S := quietSig.sum writeSig) rfl fun (r : List CStr) => ?_
    refine ⟨rfl, helloOp_helloAdd fun _ => helloOp_helloMaster, fun hr => ?_⟩
    exact helloOp_helloAdd fun hempty => absurd (List.isEmpty_iff.mp hempty) hr

theorem hello_calls : (hello pMsg).Calls (HelloOp pMsg.pCallingNick) := by
  rw [hello_eq]
  simp only [Prog.liftM_eq]
  refine .bind (helloOp_quiet _) fun _ => ?_
  split
  · exact helloOp_quiet _
  · exact .bind (helloOp_quiet _) fun _ => helloOp_helloAdd fun _ => helloOp_helloMaster

end Hello

/-- What a request of `hello` does to the accounts and to the access records. -/
theorem helloOp_effect {pNick : Option CStr} {env : Env} {o : (quietSig.sum writeSig).Op}
    {r : (quietSig.sum writeSig).Res o} {w w' : World G} (ho : HelloOp pNick o)
    (hrun : perform env o w = some (r, w')) :
    (∀ k, (w.db.fetch .user k).isSome → (w'.db.fetch .user k).isSome) ∧
      ∀ k, (w'.db.fetch .access k).isSome →
        (w.db.fetch .access k).isSome ∨ pNick.map key = some k := by
  cases o with
  | inl o =>
    rw [performQuiet_db hrun]
    exact ⟨fun _ hk => hk, fun _ hk => .inl hk⟩
  | inr o =>
    cases hrun
    refine ⟨fun k hk => DbWrite.isSome_fetch_apply (fun hdb => ho.2 (.inr hdb)) hk,
      fun k hk => ?_⟩
    by_cases hkey : pNick.map key = some k
    · exact .inr hkey
    · rw [DbWrite.fetch_apply fun hdb => ho.1 hdb ▸ hkey] at hk
      exact .inl hk

/-! ## Runs -/

/-- One `!hello`, with what its machine answers. -/
structure HelloWork where
  env : Env
  pMsg : MsgItem

namespace HelloWork

/-- Every worker stands before its `!hello`. -/
def start (works : ι → HelloWork) (w : World G) : Threads (quietSig.sum writeSig) ι (World G) :=
  ⟨fun i => hello (works i).pMsg, w⟩

/-- One request of one worker. -/
def step (works : ι → HelloWork) : Threads (quietSig.sum writeSig) ι (World G) → ι →
    Option (Threads (quietSig.sum writeSig) ι (World G)) :=
  Threads.step fun i => perform (works i).env

variable {works : ι → HelloWork} {c c' : Threads (quietSig.sum writeSig) ι (World G)} {i : ι}

/-- A worker that can name its caller does not list the accounts while there is none, and
another worker has listed them and is about to add one. -/
def Apart (works : ι → HelloWork) (c : Threads (quietSig.sum writeSig) ι (World G)) (i : ι) :
    Prop :=
  (works i).pMsg.pCallingNick.isSome → c.next i = some (.inl (.listDb .user)) →
    c.shared.db.listDb .user = [] →
    ∀ j, j ≠ i → ∀ pNick value, c.next j ≠ some (.inr (.addDb .user (some pNick) value))

/-- What the runs keep. The candidate, if there is one yet, is the worker that has found
the list empty. -/
structure Candidate (works : ι → HelloWork) (c : Threads (quietSig.sum writeSig) ι (World G))
    (candidate : Option ι) : Prop where
  calls : ∀ i, (c.left i).Calls (HelloOp (works i).pMsg.pCallingNick)
  others : ∀ i, candidate ≠ some i → Bystander (works i).pMsg.pCallingNick (c.left i)
  -- the list is not empty any more, or is about to become so
  added : ∀ i, candidate = some i → (∃ k, (c.shared.db.fetch .user k).isSome) ∨
    ∃ pNick, c.next i = some (.inr (.addDb .user (some pNick) (some [])))
  records : ∀ k, (c.shared.db.fetch .access k).isSome →
    ∃ i, candidate = some i ∧ (works i).pMsg.pCallingNick.map key = some k

omit [DecidableEq ι] in
theorem Candidate.start {w : World G} (h : ∀ k, w.db.fetch .access k = none) :
    Candidate works (HelloWork.start works w) none where
  calls := fun i => hello_calls
  others := fun i _ => .inl hello_until
  added := nofun
  records := fun k hk => by
    rw [show (HelloWork.start works w).shared.db.fetch .access k = none from h k] at hk
    cases hk

section Step

variable {candidate : Option ι} {o : (quietSig.sum writeSig).Op}
  {k : (quietSig.sum writeSig).Res o → Bot Unit} {r : (quietSig.sum writeSig).Res o}
  {w' : World G}

/-- A worker that is not the candidate, and does not become it, touches no record. -/
theorem Candidate.step_other (h : Candidate works c candidate) (hleft : c.left i = .call o k)
    (hrun : perform (works i).env o c.shared = some (r, w')) (hi : candidate ≠ some i)
    (ho : HelloOp none o)
    (hrest : Bystander (works i).pMsg.pCallingNick (k r)) :
    Candidate works ⟨Function.update c.left i (k r), w'⟩ candidate where
  calls := Threads.update_left (P := fun j => Prog.Calls (HelloOp (works j).pMsg.pCallingNick))
    ((hleft ▸ h.calls i : Prog.Calls _ (.call o k)).2 r) fun j _ => h.calls j
  others := Threads.update_left
    (P := fun j p => candidate ≠ some j → Bystander (works j).pMsg.pCallingNick p)
    (fun _ => hrest) fun j _ => h.others j
  added j hj := by
    have hji : j ≠ i := fun hji => hi (hji ▸ hj)
    rw [Threads.next_update_of_ne hji]
    exact (h.added j hj).imp_left fun ⟨k', hk'⟩ => ⟨k', (helloOp_effect ho hrun).1 k' hk'⟩
  records k' hk' := by
    rcases (helloOp_effect ho hrun).2 k' hk' with hk' | hk'
    · exact h.records k' hk'
    · cases hk'

/-- The candidate touches its own record only, and adds its account first. -/
theorem Candidate.step_self (h : Candidate works c (some i)) (hleft : c.left i = .call o k)
    (hrun : perform (works i).env o c.shared = some (r, w')) :
    Candidate works ⟨Function.update c.left i (k r), w'⟩ (some i) := by
  obtain ⟨ho, hcalls⟩ : Prog.Calls (HelloOp (works i).pMsg.pCallingNick) (.call o k) :=
    hleft ▸ h.calls i
  refine ⟨Threads.update_left (P := fun j => Prog.Calls (HelloOp (works j).pMsg.pCallingNick))
    (hcalls r) fun j _ => h.calls j, Threads.update_left
    (P := fun j p => some i ≠ some j → Bystander (works j).pMsg.pCallingNick p)
    (fun hne => absurd rfl hne) fun j _ => h.others j, ?_, fun k' hk' => ?_⟩
  · rintro j ⟨⟩
    refine .inl ?_
    rcases h.added i rfl with ⟨k', hk'⟩ | ⟨pNick, hnext⟩
    · exact ⟨k', (helloOp_effect ho hrun).1 k' hk'⟩
    · obtain ⟨k₁, hk₁⟩ := Threads.next_eq_some.mp hnext
      obtain ⟨rfl, -⟩ := Prog.call.inj (hleft.symm.trans hk₁)
      cases hrun
      refine ⟨key pNick, ?_⟩
      simp only [DbWrite.apply, Databases.addDb_some]
      split
      · next hthere => exact hthere
      · rw [Databases.fetch_write, Function.update_self]
        rfl
  · rcases (helloOp_effect ho hrun).2 k' hk' with hk' | hk'
    · exact h.records k' hk'
    · exact ⟨i, rfl, hk'⟩

/-- Who finds the list empty becomes the candidate, if there is none. -/
theorem Candidate.step_becomes {pNick : CStr} (h : Candidate works c none) (hw : w' = c.shared)
    (hnick : (works i).pMsg.pCallingNick = some pNick)
    (hnext : (k r).next = some (.inr (.addDb .user (works i).pMsg.pCallingNick (some []))))
    (hcalls : (k r).Calls (HelloOp (works i).pMsg.pCallingNick)) :
    Candidate works ⟨Function.update c.left i (k r), w'⟩ (some i) := by
  refine ⟨Threads.update_left (P := fun j => Prog.Calls (HelloOp (works j).pMsg.pCallingNick))
    hcalls fun j _ => h.calls j, Threads.update_left
    (P := fun j p => some i ≠ some j → Bystander (works j).pMsg.pCallingNick p)
    (fun hne => absurd rfl hne) fun j _ _ => h.others j nofun, ?_, fun k' hk' => ?_⟩
  · rintro j ⟨⟩
    refine .inr ⟨pNick, ?_⟩
    rw [Threads.next_update_self, hnext, hnick]
  · subst hw
    obtain ⟨j, hj, -⟩ := h.records k' hk'
    cases hj

end Step

theorem Candidate.step {candidate : Option ι} (h : Candidate works c candidate)
    (apart : Apart works c i) (hstep : HelloWork.step works c i = some c') :
    ∃ candidate', Candidate works c' candidate' := by
  obtain ⟨o, k, r, w', hleft, hrun, rfl⟩ := Threads.step_cases hstep
  by_cases hi : candidate = some i
  · subst hi
    exact ⟨_, h.step_self hleft hrun⟩
  · have hothers := h.others i hi
    rw [hleft] at hothers
    rcases hothers with (⟨hlists, hsnapshot⟩ | ⟨htalk, hrest⟩) | hnone
    · cases hlists
      obtain ⟨hnext, hcalls, hothers⟩ := hsnapshot r
      have hw : w' = c.shared := (Prod.mk.inj (Option.some.inj hrun)).2.symm
      by_cases hr : r = ([] : List CStr)
      · cases hnick : (works i).pMsg.pCallingNick with
        | none =>
          rw [hnick] at hcalls
          exact ⟨_, h.step_other hleft hrun hi trivial (.inr hcalls)⟩
        | some pNick =>
          have hempty : c.shared.db.listDb .user = [] :=
            (Prod.mk.inj (Option.some.inj hrun)).1.trans hr
          have hlist : c.next i = some (.inl (.listDb .user)) := congrArg Prog.next hleft
          obtain rfl : candidate = none := by
            refine Option.eq_none_iff_forall_ne_some.mpr fun m hm => ?_
            rcases h.added m hm with ⟨k', hk'⟩ | ⟨pNick', hnext'⟩
            · rw [Databases.fetch_of_listDb_nil hempty] at hk'
              cases hk'
            · exact apart (hnick ▸ rfl) hlist hempty m (fun hmi => hi (hmi ▸ hm)) _ _ hnext'
          exact ⟨some i, h.step_becomes hw hnick hnext hcalls⟩
      · exact ⟨_, h.step_other hleft hrun hi trivial (.inr (hothers hr))⟩
    · cases o with
      | inl o => exact ⟨_, h.step_other hleft hrun hi trivial (.inl (hrest r))⟩
      | inr o => exact htalk.elim
    · exact ⟨_, h.step_other hleft hrun hi hnone.1 (.inr (hnone.2 r))⟩

/-- In every run in which the snapshots stay apart, there is one access record at most in
every state. -/
theorem one_master {w : World G} {es : List ι} (h : ∀ k, w.db.fetch .access k = none)
    (run : Run (HelloWork.step works) (Apart works) (HelloWork.start works w) es c)
    {k k' : Key} (hk : (c.shared.db.fetch .access k).isSome)
    (hk' : (c.shared.db.fetch .access k').isSome) : k = k' := by
  obtain ⟨candidate, hcandidate⟩ := run.invariant
    (I := fun c => ∃ candidate, Candidate works c candidate)
    (fun _ _ _ ⟨_, hc⟩ apart hstep => hc.step apart hstep) ⟨none, .start h⟩
  obtain ⟨i, rfl, hi⟩ := hcandidate.records k hk
  obtain ⟨j, hj, hj'⟩ := hcandidate.records k' hk'
  cases hj
  exact Option.some.inj (hi.symm.trans hj')

end HelloWork

/-! ## Two first accounts -/

/-- The `!hello` of two users. -/
def twoHellos (i : Bool) : HelloWork :=
  ⟨calmEnv, fillItem ((if i then ":alice!a@h" else ":root!r@h").toList ++
    " PRIVMSG ebotula :!hello".toList) .noneLevel true⟩

/-- The request adds an account. -/
def addsAccount : Option (quietSig.sum writeSig).Op → Bool
  | some (.inr (.addDb .user _ _)) => true
  | _ => false

/-- A `!hello` and, when it has ended, another one: there is one master. -/
theorem one_master_twoHellos : ∃ c : Threads (quietSig.sum writeSig) Bool (World Gdbm),
    c.Ended ∧ (c.shared.db.fetch .access (key "root")).isSome ∧
    ∀ k k', (c.shared.db.fetch .access k).isSome → (c.shared.db.fetch .access k').isSome →
      k = k' := by
  have computed : ((Run.steps (HelloWork.step twoHellos) (fun c i => !addsAccount (c.next !i))
      (HelloWork.start twoHellos freshBot)
      (.replicate 17 false ++ .replicate 14 true)).map fun c =>
        ((c.next false).isSome, (c.next true).isSome,
          (c.shared.db.fetch .access (key "root")).isSome)) = some (false, false, true) := by
    decide +kernel
  obtain ⟨c, hc, hfacts⟩ := Option.map_eq_some_iff.mp computed
  simp only [Prod.mk.injEq] at hfacts
  obtain ⟨hfalse, htrue, hroot⟩ := hfacts
  have run : Run (HelloWork.step twoHellos) (HelloWork.Apart twoHellos)
      (HelloWork.start twoHellos freshBot) (.replicate 17 false ++ .replicate 14 true) c := by
    refine (Run.of_steps hc).mono fun c i hok _ _ _ j hj pNick value hnext => ?_
    obtain rfl : j = !i := by cases j <;> cases i <;> first | rfl | exact absurd rfl hj
    rw [hnext] at hok
    cases hok
  refine ⟨c, fun i => ?_, hroot, fun k k' => HelloWork.one_master (fun _ => rfl) run⟩
  cases i
  · exact Threads.ended_of_next hfalse
  · exact Threads.ended_of_next htrue

/-- Both take their snapshot before either adds its account: there are two masters. -/
theorem two_masters_twoHellos : ∃ (c : Threads (quietSig.sum writeSig) Bool (World Gdbm))
    (es : List Bool), Run (HelloWork.step twoHellos) (fun _ _ => True)
      (HelloWork.start twoHellos freshBot) es c ∧ c.Ended ∧
    c.shared.db.fetch .access (key "root") = some ['m'] ∧
    c.shared.db.fetch .access (key "alice") = some ['m'] := by
  have computed : ((Run.steps (HelloWork.step twoHellos) (fun _ _ => true)
      (HelloWork.start twoHellos freshBot)
      ([false, true, false, true] ++ .replicate 15 false ++ .replicate 15 true)).map fun c =>
        ((c.next false).isSome, (c.next true).isSome,
          c.shared.db.fetch .access (key "root"), c.shared.db.fetch .access (key "alice"))) =
      some (false, false, some ['m'], some ['m']) := by
    decide +kernel
  obtain ⟨c, hc, hfacts⟩ := Option.map_eq_some_iff.mp computed
  simp only [Prod.mk.injEq] at hfacts
  obtain ⟨hfalse, htrue, hroot, halice⟩ := hfacts
  refine ⟨c, _, (Run.of_steps hc).mono fun _ _ _ => trivial, fun i => ?_, hroot, halice⟩
  cases i
  · exact Threads.ended_of_next hfalse
  · exact Threads.ended_of_next htrue

end Ebotula
