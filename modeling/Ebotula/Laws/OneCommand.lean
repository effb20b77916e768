import Ebotula.Laws.Alphabet

/-!
# What the server reads

Every line that the bot sends is one command: a verb of the bot, its arguments, and the end of the
line. The arguments come from anywhere, from the lines of others, the databases, the setup, so
this is a law about all that the bot ever writes down. It is one invariant of the shared state,
that every text in it is a text over an alphabet, and a contract that every task honors: who only
reads texts over an alphabet only writes such texts.
-/

set_option autoImplicit false

namespace Ebotula

open Library

/-! ## Commands -/

/-- The commands that the bot gives its server. -/
def verbs : List CStr :=
  ["PRIVMSG", "NOTICE", "JOIN", "PART", "PING", "PONG", "NICK", "TOPIC", "KICK", "MODE", "WHOIS",
    "INVITE", "QUIT"]

/-- What a server takes out of a stream: the texts between two ends of lines, where an empty one
is none. -/
def readCommands (stream : CStr) : List CStr :=
  (stream.splitOnP fun c => c = '\r' || c = '\n').filter (· ≠ [])

theorem verbs_plain : ∀ verb ∈ verbs, ∀ c ∈ verb, c ≠ '%' ∧ c ≠ '\r' ∧ c ≠ '\n' := by
  simp [verbs]

namespace Alphabet

variable {A : Alphabet} {s t line command verb args : CStr}

/-- The line gives the command: a verb with its arguments. The answer to `version` ends its line
twice. -/
structure Gives (A : Alphabet) (line command : CStr) : Prop where
  verb : ∃ verb ∈ verbs, ∃ args, A.Spells args ∧ (args = [] ∨ args.head? = some ' ') ∧
    command = verb ++ args
  line : line = command ++ "\r\n".toList ∨ line = command ++ "\r\n\r\n".toList

/-- A line of one command. -/
def OneCommand (A : Alphabet) (line : CStr) : Prop := ∃ command, A.Gives line command

theorem oneCommand_intro (hverb : verb ∈ verbs) (hargs : A.Spells args) :
    A.OneCommand (verb ++ ' ' :: args ++ "\r\n".toList) :=
  ⟨verb ++ ' ' :: args,
    ⟨verb, hverb, ' ' :: args, spells_cons.mpr ⟨has_own (by decide), hargs⟩, .inr rfl, rfl⟩,
    .inl rfl⟩

/-- A text up to an end of a line is a command, unless it is empty. -/
theorem readCommands_append {rest : CStr} (hs : ∀ c ∈ s, (c = '\r' || c = '\n') = false) {c : Char}
    (hc : (c = '\r' || c = '\n') = true) :
    readCommands (s ++ c :: rest) =
      if s = [] then readCommands rest else s :: readCommands rest := by
  rw [readCommands, List.splitOnP_append_cons_of_forall_mem hs c hc, List.filter_cons]
  by_cases h : s = []
  · simp [h, readCommands]
  · simp [h, readCommands]

/-- An end of a line that ends nothing. -/
theorem readCommands_end {c : Char} (hc : (c = '\r' || c = '\n') = true) (rest : CStr) :
    readCommands (c :: rest) = readCommands rest :=
  readCommands_append (s := []) (fun _ h => absurd h List.not_mem_nil) hc

/-- The command is all that the server reads of its line, whatever comes behind it. -/
theorem Gives.readCommands (hcr : ¬ A.Has '\r') (hlf : ¬ A.Has '\n') (h : A.Gives line command)
    (rest : CStr) : readCommands (line ++ rest) = command :: readCommands rest := by
  obtain ⟨⟨verb, hverb, args, hargs, -, rfl⟩, hline⟩ := h
  have hne : verb ++ args ≠ [] := fun he => by
    rw [(List.append_eq_nil_iff.mp he).1] at hverb
    exact absurd hverb (by decide)
  have hplain : ∀ c ∈ verb ++ args, (c = '\r' || c = '\n') = false := by
    intro c hc
    simp only [Bool.or_eq_false_iff, decide_eq_false_iff_not]
    rcases List.mem_append.mp hc with hc | hc
    · exact (verbs_plain verb hverb c hc).2
    · exact ⟨fun he => hcr (he ▸ hargs c hc), fun he => hlf (he ▸ hargs c hc)⟩
  have once (rest : CStr) : Ebotula.readCommands (verb ++ args ++ '\r' :: '\n' :: rest) =
      (verb ++ args) :: Ebotula.readCommands rest := by
    rw [readCommands_append hplain rfl, if_neg hne, readCommands_end rfl]
  rcases hline with rfl | rfl
  · rw [List.append_assoc]
    exact once rest
  · rw [List.append_assoc]
    refine (once ('\r' :: '\n' :: rest)).trans ?_
    rw [readCommands_end rfl, readCommands_end rfl]

/-- Of a stream of such lines the server reads one command after the other. -/
theorem readCommands_flatten (hcr : ¬ A.Has '\r') (hlf : ¬ A.Has '\n') {lines : List CStr}
    (h : ∀ line ∈ lines, A.OneCommand line) :
    List.Forall₂ A.Gives lines (readCommands lines.flatten) := by
  induction lines with
  | nil =>
    have hnil : readCommands [] = [] := by
      rw [readCommands, List.splitOnP_nil]
      rfl
    rw [List.flatten_nil, hnil]
    exact .nil
  | cons line lines ih =>
    obtain ⟨⟨command, hgives⟩, hlines⟩ := List.forall_mem_cons.mp h
    rw [List.flatten_cons, hgives.readCommands hcr hlf]
    exact .cons hgives (ih hlines)

end Alphabet

/-! ## The shared state -/

section Shared

variable {G : Type} [DbLib G] {A : Alphabet}

/-- Every key is a text over the alphabet, and so is every value but the passwords: only `crypt`
writes them, and nothing but `check_db` reads them. -/
structure Databases.Within (A : Alphabet) (dbs : Databases G) : Prop where
  keys : ∀ db, ∀ k ∈ dbs.listDb db, A.Spells k
  values : ∀ db ≠ .user, ∀ k, A.SpellsOpt (dbs.fetch db k)

/-- Every text that the bot keeps is a text over the alphabet, and every line it has sent is one
command. -/
structure World.Within (A : Alphabet) (w : World G) : Prop where
  databases : w.db.Within A
  callbacks : ∀ a node, w.callbackList.nodes a = some node →
    A.Spells node.data.nickname ∧ A.Spells node.data.data
  botname : A.Spells w.pBotname
  sent : ∀ line ∈ w.sent, A.OneCommand line

/-- So is every text that the machine answers. -/
structure Env.Within (A : Alphabet) (env : Env) : Prop where
  host : ∀ text, A.Spells (env.host text)
  unwritten : ∀ place, A.Spells (env.unwritten place)
  pointer : ∀ text ∈ env.unwrittenPointer, A.SpellsOpt text

/-- A registered callback. -/
def Alphabet.SpellsItem (A : Alphabet) (item : CallbackItem) : Prop :=
  A.Spells item.nickname ∧ A.Spells item.data

/-- What a task asks of the shared state. -/
def Op.Asks (A : Alphabet) : Op → Prop
  | .getDb db _ => db ≠ .user
  | .sendLine pMsg => A.OneCommand pMsg
  | .insertNextCallback _ data => A.SpellsItem data
  | .setBotname name => A.Spells name
  | _ => True

/-- What a task relies on. -/
def Op.Gets (A : Alphabet) : (o : Op) → o.Res → Prop
  | .getDb .., (r : Option CStr) => A.SpellsOpt r
  | .unwrittenPointer, (r : Option CStr) => A.SpellsOpt r
  | .listDb _, (r : List CStr) => ∀ k ∈ r, A.Spells k
  | .removeCallback _, (r : Option CallbackItem) => ∀ item ∈ r, A.SpellsItem item
  | .botname, (r : CStr) => A.Spells r
  | .host _, (r : CStr) => A.Spells r
  | .unwritten _, (r : CStr) => A.Spells r
  | _, _ => True

def quietContract (A : Alphabet) : Contract quietSig := ⟨Op.Asks A, Op.Gets A⟩

def writeContract (A : Alphabet) : Contract writeSig where
  asks
    | .addDb db key value | .replaceDb db key value =>
      A.SpellsOpt key ∧ (db ≠ .user → A.SpellsOpt value)
    | .delDb .. => True
  gets _ _ := True

def botContract (A : Alphabet) : Contract (quietSig.sum writeSig) :=
  (quietContract A).sum (writeContract A)

/-! ### The callback list -/

namespace CallbackDList

variable {P : CallbackItem → Prop} {list list' : CallbackDList} {element : Option Addr}
  {nodes : Addr → Option CallbackDListItem}

/-- What holds of the item of every node. -/
def Items (P : CallbackItem → Prop) (nodes : Addr → Option CallbackDListItem) : Prop :=
  ∀ a node, nodes a = some node → P node.data

theorem Items.update {a : Addr} {new : Option CallbackDListItem} (h : Items P nodes)
    (hnew : ∀ node ∈ new, P node.data) : Items P (Function.update nodes a new) := by
  intro b node hb
  rw [Function.update_apply] at hb
  split at hb
  · exact hnew node hb
  · exact h b node hb

theorem Items.modify {f : CallbackDListItem → CallbackDListItem} {a : Addr}
    (hmodify : list.modify a f = some list') (hf : ∀ node, (f node).data = node.data)
    (h : Items P list.nodes) : Items P list'.nodes := by
  obtain ⟨node, hnode, rfl⟩ := Option.map_eq_some_iff.mp hmodify
  refine Items.update h fun n hn => ?_
  cases hn
  exact (hf node).symm ▸ h a node hnode

theorem Items.insertNext {data : CallbackItem} {r : Bool} (h : Items P list.nodes) (hdata : P data)
    (hinsert : list.insertNext element data = some (r, list')) : Items P list'.nodes := by
  have halloc (node : CallbackDListItem) (hnode : node.data = data) :
      Items P (list.alloc node).2.nodes := Items.update h fun n hn => by
    cases hn
    exact hnode ▸ hdata
  unfold CallbackDList.insertNext at hinsert
  split at hinsert
  · cases hinsert
    exact halloc _ rfl
  · cases element with
    | none =>
      cases hinsert
      exact h
    | some element =>
      obtain ⟨node, -, hinsert⟩ := Option.bind_eq_some_iff.mp hinsert
      dsimp only at hinsert
      have hnew := halloc ⟨data, some element, node.next⟩ rfl
      split at hinsert
      all_goals
        obtain ⟨list₁, hlist₁, hinsert⟩ := Option.bind_eq_some_iff.mp hinsert
        obtain ⟨list₂, hlist₂, hinsert⟩ := Option.bind_eq_some_iff.mp hinsert
      · have h₁ : Items P list₁.nodes := by
          cases hlist₁
          exact hnew
        have h₂ : Items P list₂.nodes := Items.modify hlist₂ (fun _ => rfl) h₁
        cases hinsert
        exact h₂
      · have h₁ : Items P list₁.nodes := Items.modify hlist₁ (fun _ => rfl) hnew
        have h₂ : Items P list₂.nodes := Items.modify hlist₂ (fun _ => rfl) h₁
        cases hinsert
        exact h₂

theorem Items.remove {r : Option CallbackItem} (h : Items P list.nodes)
    (hremove : list.remove element = some (r, list')) :
    (∀ item ∈ r, P item) ∧ Items P list'.nodes := by
  have hnone : ∀ item ∈ (none : Option CallbackItem), P item := fun _ hi => by cases hi
  unfold CallbackDList.remove at hremove
  cases element with
  | none =>
    cases hremove
    exact ⟨hnone, h⟩
  | some element =>
    dsimp only at hremove
    split at hremove
    · cases hremove
      exact ⟨hnone, h⟩
    · obtain ⟨node, hnode, hremove⟩ := Option.bind_eq_some_iff.mp hremove
      -- whichever links are mended first, the node itself is freed then
      have freed (list₁ : CallbackDList) (h₁ : Items P list₁.nodes) (he : (some (some node.data,
          { list₁ with
            nodes := Function.update list₁.nodes element none
            size := list₁.size - 1 }) : Option (Option CallbackItem × CallbackDList)) =
          some (r, list')) : (∀ item ∈ r, P item) ∧ Items P list'.nodes := by
        cases he
        refine ⟨fun item hi => ?_, Items.update h₁ fun _ hn => by cases hn⟩
        cases hi
        exact h element node hnode
      split at hremove
      · split at hremove
        all_goals obtain ⟨list₁, hlist₁, hremove⟩ := Option.bind_eq_some_iff.mp hremove
        · cases hlist₁
          exact freed { list with head := none, tail := none } h hremove
        · exact freed list₁ (Items.modify hlist₁ (fun _ => rfl) h) hremove
      · obtain ⟨list₁, hlist₁, hremove⟩ := Option.bind_eq_some_iff.mp hremove
        obtain ⟨prev, -, hlist₁⟩ := Option.bind_eq_some_iff.mp hlist₁
        have h₁ : Items P list₁.nodes := Items.modify hlist₁ (fun _ => rfl) h
        split at hremove
        all_goals obtain ⟨list₂, hlist₂, hremove⟩ := Option.bind_eq_some_iff.mp hremove
        · cases hlist₂
          exact freed { list₁ with tail := node.prev } h₁ hremove
        · exact freed list₂ (Items.modify hlist₂ (fun _ => rfl) h₁) hremove

end CallbackDList

/-! ### The databases -/

namespace Databases

variable {dbs : Databases G} {db : DatabaseID} {k : Key}

theorem Within.write {value : CStr} (h : dbs.Within A) (hk : A.Spells k.val)
    (hvalue : db ≠ .user → A.Spells value) : (dbs.write db k value).Within A where
  keys db' s hs := by
    by_cases hdb : db' = db
    · subst hdb
      rw [mem_listDb, write, Function.update_self, Table.fetch_store, Function.update_apply] at hs
      split at hs
      · next heq => exact heq ▸ hk
      · exact h.keys db' s (mem_listDb.mpr hs)
    · rw [mem_listDb, write_other hdb] at hs
      exact h.keys db' s (mem_listDb.mpr hs)
  values db' hdb' k' := by
    by_cases hdb : db' = db
    · subst hdb
      rw [fetch_write, Function.update_apply]
      split
      · exact Alphabet.spellsOpt_some.mpr (hvalue hdb')
      · exact h.values db' hdb' k'
    · rw [fetch, write_other hdb]
      exact h.values db' hdb' k'

theorem Within.erase (h : dbs.Within A) : (dbs.erase db k).Within A where
  keys db' s hs := by
    by_cases hdb : db' = db
    · subst hdb
      rw [mem_listDb, Databases.erase, Function.update_self, Table.fetch_delete,
        Function.update_apply] at hs
      split at hs
      · cases hs
      · exact h.keys db' s (mem_listDb.mpr hs)
    · rw [mem_listDb, erase_other hdb] at hs
      exact h.keys db' s (mem_listDb.mpr hs)
  values db' hdb' k' := by
    by_cases hdb : db' = db
    · subst hdb
      rw [fetch_erase, Function.update_apply]
      split
      · exact Alphabet.spellsOpt_none
      · exact h.values db' hdb' k'
    · rw [fetch, erase_other hdb]
      exact h.values db' hdb' k'

/-- A write puts texts over the alphabet into its database, or takes some out. -/
theorem Within.apply {o : DbWrite} (h : dbs.Within A) (hasks : (writeContract A).asks o) :
    ((o.apply dbs).2).Within A := by
  have stored {db : DatabaseID} {value : CStr} (hvalue : db ≠ .user → A.SpellsOpt (some value)) :
      db ≠ .user → A.Spells (storedValue G db value) := fun hdb => by
    rw [storedValue_of_ne hdb]
    exact Alphabet.spellsOpt_some.mp (hvalue hdb)
  have lowered {s : CStr} (hs : A.SpellsOpt (some s)) : A.Spells (key s).val :=
    (Alphabet.spellsOpt_some.mp hs).strToLower
  cases o with
  | addDb db key value =>
    obtain ⟨hkey, hvalue⟩ := hasks
    cases key with
    | none => exact h
    | some s =>
      cases value with
      | none =>
        rw [DbWrite.apply, addDb_none_right]
        exact h
      | some value =>
        rw [DbWrite.apply, addDb_some]
        split
        · exact h
        · exact h.write (lowered hkey) (stored hvalue)
  | replaceDb db key value =>
    obtain ⟨hkey, hvalue⟩ := hasks
    cases key with
    | none => exact h
    | some s =>
      cases value with
      | none =>
        rw [DbWrite.apply, replaceDb_none_right]
        exact h
      | some value =>
        rw [DbWrite.apply, replaceDb_some]
        split
        · exact h.write (lowered hkey) (stored hvalue)
        · exact h
  | delDb db key =>
    cases key with
    | none => exact h
    | some s =>
      rw [DbWrite.apply, delDb_some]
      split
      · exact h.erase
      · exact h

end Databases

/-! ### Both sides -/

theorem quietContract_upheld {env : Env} (henv : env.Within A) :
    (quietContract A).Upheld (performQuiet env) (World.Within (G := G) A) := by
  intro o w r w' hasks hw hrun
  cases o
  case getDb db key =>
    cases hrun
    refine ⟨?_, hw⟩
    cases key with
    | none => exact Alphabet.spellsOpt_none
    | some s => exact hw.databases.values db hasks (Ebotula.key s)
  case listDb db =>
    cases hrun
    exact ⟨hw.databases.keys db, hw⟩
  case sendLine pMsg =>
    cases hrun
    refine ⟨trivial, { hw with sent := fun line hline => ?_ }⟩
    rcases List.mem_append.mp hline with hline | hline
    · exact hw.sent line hline
    · exact List.mem_singleton.mp hline ▸ hasks
  case insertNextCallback element data =>
    obtain ⟨⟨b, list⟩, hlist, heq⟩ := Option.map_eq_some_iff.mp hrun
    cases heq
    exact ⟨trivial, { hw with
      callbacks := CallbackDList.Items.insertNext (P := A.SpellsItem) hw.callbacks hasks hlist }⟩
  case removeCallback element =>
    obtain ⟨⟨item, list⟩, hlist, heq⟩ := Option.map_eq_some_iff.mp hrun
    cases heq
    obtain ⟨hitem, hlist⟩ := CallbackDList.Items.remove (P := A.SpellsItem) hw.callbacks hlist
    exact ⟨hitem, { hw with callbacks := hlist }⟩
  case searchCallback element nickname =>
    obtain ⟨a, ha, heq⟩ := Option.map_eq_some_iff.mp hrun
    cases heq
    exact ⟨trivial, hw⟩
  case botname =>
    cases hrun
    exact ⟨hw.botname, hw⟩
  case setBotname name =>
    cases hrun
    exact ⟨trivial, { hw with botname := hasks }⟩
  case host text =>
    cases hrun
    exact ⟨henv.host text, hw⟩
  case unwritten place =>
    cases hrun
    exact ⟨henv.unwritten place, hw⟩
  case unwrittenPointer =>
    obtain ⟨a, ha, heq⟩ := Option.map_eq_some_iff.mp hrun
    cases heq
    exact ⟨henv.pointer _ ha, hw⟩
  case crash => cases hrun
  case logger line =>
    cases hrun
    exact ⟨trivial, { hw with }⟩
  case setStop | setAgain =>
    cases hrun
    exact ⟨trivial, { hw with }⟩
  all_goals
    cases hrun
    exact ⟨trivial, hw⟩

theorem writeContract_upheld :
    (writeContract A).Upheld performWrite (World.Within (G := G) A) := by
  intro o w r w' hasks hw hrun
  cases hrun
  exact ⟨trivial, { hw with databases := hw.databases.apply hasks }⟩

theorem botContract_upheld {env : Env} (henv : env.Within A) :
    (botContract A).Upheld (perform env) (World.Within (G := G) A) :=
  (quietContract_upheld henv).sum writeContract_upheld

end Shared

end Ebotula
