import Ebotula.Tools

/-!
# What a dump gives back

`dequote_string` drops the backslash, looks the letter behind it up, and then writes the letter all
the same. Blanks, quotes and backslashes come back, in any number and order; a control character of
`sym_quotes` comes back as the letter that was to stand for it. So a text survives quoting exactly
if it has none of these characters, and a file survives a dump exactly if none of its keys and
contents has one.
-/

set_option autoImplicit false

namespace Ebotula

open Library

/-! ## One text -/

/-- What comes back for a character. -/
def readBack (c : Char) : Char := if symQuotes.contains c then symLetter c else c

/-- A text without the control characters of `sym_quotes`. -/
def NoSymbol (s : CStr) : Prop := ∀ c ∈ s, c ∉ symQuotes

/-- The letter for a control character is none. -/
theorem readBack_notMem (c : Char) : readBack c ∉ symQuotes := by
  rw [readBack]
  split
  · next h =>
    have hletters : ∀ c ∈ symQuotes, symLetter c ∉ symQuotes := forall_of_all (by decide)
    exact hletters c (List.contains_iff_mem.mp h)
  · next h => exact fun hmem => h (List.contains_iff_mem.mpr hmem)

theorem readBack_eq_iff {c : Char} : readBack c = c ↔ c ∉ symQuotes := by
  constructor
  · intro h
    exact h ▸ readBack_notMem c
  · intro h
    exact if_neg fun hc => h (List.contains_iff_mem.mp hc)

theorem noSymbol_readBack (s : CStr) : NoSymbol (s.map readBack) := by
  intro c hc
  obtain ⟨d, -, rfl⟩ := List.mem_map.mp hc
  exact readBack_notMem d

theorem map_readBack_eq_iff {s : CStr} : s.map readBack = s ↔ NoSymbol s := by
  constructor
  · intro h
    exact h ▸ noSymbol_readBack s
  · intro h
    exact (List.map_congr_left fun c hc => readBack_eq_iff.mpr (h c hc)).trans (List.map_id s)

section Loop

variable {front rest : CStr} {cell c : Char}

/-- The loop takes a character as it stands, unless it is a backslash. -/
theorem dequoteLoop_plain (hc : c ≠ '\\') (hrest : rest ≠ []) :
    dequoteLoop front cell 0 (c :: rest) = dequoteLoop (front ++ [c]) '\x00' 0 rest := by
  rw [dequoteLoop, if_neg fun h => hc h.1, if_pos hrest]

/-- A backslash is dropped and the next character taken as it stands, whatever it is. -/
theorem dequoteLoop_backslash (hrest : rest ≠ []) :
    dequoteLoop front cell 0 ('\\' :: c :: rest) = dequoteLoop (front ++ [c]) '\x00' 0 rest := by
  rw [dequoteLoop, if_pos ⟨rfl, rfl⟩, dequoteLoop, if_neg fun h => absurd h.2 (by decide),
    if_pos hrest]

theorem dequoteLoop_quoteChar (hrest : rest ≠ []) :
    dequoteLoop front cell 0 (quoteChar c ++ rest) =
      dequoteLoop (front ++ [readBack c]) '\x00' 0 rest := by
  have hboth : ∀ c ∈ strQuotes, c ∉ symQuotes := forall_of_all (by decide)
  rw [quoteChar]
  split
  · next h =>
    rw [readBack_eq_iff.mpr (hboth c (List.contains_iff_mem.mp h))]
    exact dequoteLoop_backslash hrest
  · next h =>
    have hc : c ≠ '\\' := by
      rintro rfl
      exact h (by decide)
    split
    · next hsym =>
      rw [readBack, if_pos hsym]
      exact dequoteLoop_backslash hrest
    · next hsym =>
      rw [readBack, if_neg hsym]
      exact dequoteLoop_plain hc hrest

/-- The loop on what `quote_string` made, up to its closing quote. -/
theorem dequoteLoop_quoted (s : CStr) :
    dequoteLoop front cell 0 (s.flatMap quoteChar ++ ['"']) = front ++ s.map readBack := by
  induction s generalizing front cell with
  | nil =>
    -- the closing quote is written and then overwritten by the NUL
    rw [List.flatMap_nil, List.nil_append, dequoteLoop, if_neg (by simp), if_neg (by simp),
      dequoteLoop, List.map_nil, List.append_nil]
  | cons c s ih =>
    rw [List.flatMap_cons, List.append_assoc, dequoteLoop_quoteChar (by simp), ih, List.map_cons,
      List.append_assoc, List.singleton_append]

end Loop

/-- The quoted text, where there is one. -/
def quoted (s : CStr) : CStr := '"' :: (s.flatMap quoteChar ++ ['"'])

theorem quoteString_of_ne {s : CStr} (hs : s ≠ []) : quoteString s = some (quoted s) := if_neg hs

theorem dequoteString_quoted (s : CStr) : dequoteString (quoted s) = some (s.map readBack) := by
  rw [quoted, dequoteString, if_neg (not_not.mpr rfl), dequoteLoop_quoted, List.nil_append]

/-! ## A file -/

section Files

variable {G : Type} [Table G CStr CStr] {t : G} {bReplace : Bool}

/-- A file of non-empty texts. -/
def NonEmptyTexts (t : G) : Prop :=
  ∀ datKey datContent, Table.fetch t datKey = some datContent → datKey ≠ [] ∧ datContent ≠ []

/-- Storing the pairs of a dump into an empty file gives a file of the same contents. -/
def Restores (t : G) (bReplace : Bool) : Prop :=
  ∃ t' : G, storePairs bReplace Table.empty (dumpGdbm t) = some t' ∧
    ∀ datKey, Table.fetch t' datKey = Table.fetch t datKey

/-- The entries of a file, in the order gdbm lists them. -/
def entries (t : G) : List (CStr × CStr) :=
  (Table.keys t).filterMap fun datKey => (Table.fetch t datKey).map (datKey, ·)

theorem mem_entries {datKey datContent : CStr} :
    (datKey, datContent) ∈ entries t ↔ Table.fetch t datKey = some datContent := by
  simp only [entries, List.mem_filterMap, Option.map_eq_some_iff, Prod.mk.injEq, Table.mem_keys]
  constructor
  · rintro ⟨_, -, _, hfetch, rfl, rfl⟩
    exact hfetch
  · intro hfetch
    exact ⟨datKey, by rw [hfetch]; rfl, datContent, hfetch, rfl, rfl⟩

theorem nodup_keys_entries : ((entries t).map Prod.fst).Nodup := by
  have hkeys : (entries t).map Prod.fst =
      (Table.keys t).filter fun datKey => (Table.fetch t datKey).isSome := by
    rw [entries, List.map_filterMap, ← List.filterMap_eq_filter]
    refine List.filterMap_congr fun datKey _ => ?_
    cases hfetch : Table.fetch t datKey with
    | none => simp [Option.guard, hfetch]
    | some datContent => simp [Option.guard, hfetch]
  exact hkeys ▸ (Table.nodup_keys t).filter _

theorem dumpGdbm_eq (texts : NonEmptyTexts t) :
    dumpGdbm t = (entries t).map fun entry => (quoted entry.1, quoted entry.2) := by
  rw [entries, List.map_filterMap, dumpGdbm]
  refine List.filterMap_congr fun datKey _ => ?_
  cases hfetch : Table.fetch t datKey with
  | none => rfl
  | some datContent =>
    obtain ⟨hkey, hcontent⟩ := texts datKey datContent hfetch
    rw [Option.map_some, Option.map_some, Option.map_some, quoteString_of_ne hkey,
      quoteString_of_ne hcontent]
    rfl

/-- What storing the pairs of some entries does. -/
def storeEntries (bReplace : Bool) (t : G) (es : List (CStr × CStr)) : G :=
  es.foldl (fun t entry => (storeDatum t (entry.1.map readBack) (entry.2.map readBack)
    (if bReplace then .replace else .insert)).2) t

theorem storePairs_quoted (es : List (CStr × CStr)) :
    storePairs bReplace t (es.map fun entry => (quoted entry.1, quoted entry.2)) =
      some (storeEntries bReplace t es) := by
  induction es generalizing t with
  | nil => rfl
  | cons entry es ih =>
    rw [List.map_cons, storePairs, List.foldlM_cons, storeGdbm]
    simp only [Bool.false_eq_true, if_false, dequoteString_quoted, Option.map_some,
      Option.bind_eq_bind, Option.bind_some]
    exact ih

/-- A stored entry is of those stored, or was there before. -/
theorem fetch_storeDatum {datKey datContent k v : CStr} {nFlags : StoreMode}
    (h : Table.fetch (storeDatum t datKey datContent nFlags).2 k = some v) :
    k = datKey ∧ v = datContent ∨ Table.fetch t k = some v := by
  rw [storeDatum] at h
  split at h
  · exact .inr h
  · by_cases hk : k = datKey
    · rw [hk, Table.fetch_store_self] at h
      exact .inl ⟨hk, (Option.some.inj h).symm⟩
    · rw [Table.fetch_store_ne _ _ _ _ hk] at h
      exact .inr h

/-- A new key is stored in either mode. -/
theorem storeDatum_new {datKey datContent : CStr} {nFlags : StoreMode}
    (h : Table.fetch t datKey = none) :
    storeDatum t datKey datContent nFlags = (0, Table.store t datKey datContent) := by
  rw [storeDatum, if_neg]
  rw [h]
  exact fun hthere => Bool.false_ne_true hthere.2

/-- No control character gets into a file through the quotes. -/
theorem noSymbol_storeEntries {es : List (CStr × CStr)}
    (start : ∀ k v, Table.fetch t k = some v → NoSymbol k ∧ NoSymbol v) {k v : CStr}
    (h : Table.fetch (storeEntries bReplace t es) k = some v) : NoSymbol k ∧ NoSymbol v := by
  induction es generalizing t with
  | nil => exact start k v h
  | cons entry es ih =>
    refine ih (fun k v hstored => ?_) h
    rcases fetch_storeDatum hstored with ⟨rfl, rfl⟩ | hold
    · exact ⟨noSymbol_readBack _, noSymbol_readBack _⟩
    · exact start k v hold

/-- Entries without control characters are stored as they are. -/
theorem fetch_storeEntries (bReplace : Bool) {es : List (CStr × CStr)}
    (plain : ∀ entry ∈ es, NoSymbol entry.1 ∧ NoSymbol entry.2)
    (nodup : (es.map Prod.fst).Nodup) (fresh : ∀ entry ∈ es, Table.fetch t entry.1 = none) :
    (∀ entry ∈ es, Table.fetch (storeEntries bReplace t es) entry.1 = some entry.2) ∧
      ∀ k, k ∉ es.map Prod.fst →
        Table.fetch (storeEntries bReplace t es) k = Table.fetch t k := by
  induction es generalizing t with
  | nil => exact ⟨nofun, fun _ _ => rfl⟩
  | cons entry es ih =>
    obtain ⟨hkey, hcontent⟩ := plain entry List.mem_cons_self
    obtain ⟨hnew, hnodup⟩ := List.nodup_cons.mp nodup
    have hstored : storeEntries bReplace t (entry :: es) =
        storeEntries bReplace (Table.store t entry.1 entry.2) es := by
      rw [storeEntries, List.foldl_cons, map_readBack_eq_iff.mpr hkey,
        map_readBack_eq_iff.mpr hcontent, storeDatum_new (fresh entry List.mem_cons_self)]
      rfl
    have hother {k : CStr} (hk : k ∈ es.map Prod.fst) : k ≠ entry.1 := fun e => hnew (e ▸ hk)
    have hfresh : ∀ e ∈ es, Table.fetch (Table.store t entry.1 entry.2) e.1 = none := by
      intro e he
      rw [Table.fetch_store_ne _ _ _ _ (hother (List.mem_map_of_mem he))]
      exact fresh e (List.mem_cons_of_mem _ he)
    have hrest := ih (fun e he => plain e (List.mem_cons_of_mem _ he)) hnodup hfresh
    rw [hstored]
    constructor
    · intro e he
      rcases List.mem_cons.mp he with rfl | he
      · rw [hrest.2 _ hnew, Table.fetch_store_self]
      · exact hrest.1 e he
    · intro k hk
      rw [List.map_cons, List.mem_cons, not_or] at hk
      rw [hrest.2 k hk.2, Table.fetch_store_ne _ _ _ _ hk.1]

/-- A file comes back exactly if no text in it has a control character of `sym_quotes`. -/
theorem restores_iff (texts : NonEmptyTexts t) : Restores t bReplace ↔
    ∀ k v, Table.fetch t k = some v → NoSymbol k ∧ NoSymbol v := by
  have hstored : storePairs bReplace Table.empty (dumpGdbm t) =
      some (storeEntries bReplace (Table.empty : G) (entries t)) := by
    rw [dumpGdbm_eq texts, storePairs_quoted]
  have hempty (k : CStr) : Table.fetch (Table.empty : G) k = none := Table.fetch_empty k
  constructor
  · rintro ⟨t', ht', hsame⟩ k v hfetch
    obtain rfl := Option.some.inj (hstored.symm.trans ht')
    rw [← hsame k] at hfetch
    refine noSymbol_storeEntries (fun k v h => ?_) hfetch
    rw [hempty] at h
    cases h
  · intro plain
    obtain ⟨hthere, hnone⟩ := fetch_storeEntries bReplace
      (fun entry he => plain _ _ (mem_entries.mp he)) nodup_keys_entries
      fun entry (_ : entry ∈ entries t) => hempty entry.1
    refine ⟨_, hstored, fun k => ?_⟩
    cases hfetch : Table.fetch t k with
    | some v => exact hthere (k, v) (mem_entries.mpr hfetch)
    | none =>
      rw [hnone, hempty]
      intro hk
      obtain ⟨⟨k', v⟩, he, rfl⟩ := List.mem_map.mp hk
      rw [mem_entries.mp he] at hfetch
      cases hfetch

end Files

/-- A non-empty text comes back from its quotes, and a file of non-empty texts from its dump, if
and only if there is no control character of `sym_quotes` in it. -/
theorem dequote_quote_iff {G : Type} [Table G CStr CStr] {t : G} (bReplace : Bool) {s : CStr}
    (hs : s ≠ []) (texts : NonEmptyTexts t) :
    ((quoteString s).bind dequoteString = some s ↔ NoSymbol s) ∧
      (Restores t bReplace ↔ ∀ k v, Table.fetch t k = some v → NoSymbol k ∧ NoSymbol v) := by
  refine ⟨?_, restores_iff texts⟩
  rw [quoteString_of_ne hs, Option.bind_some, dequoteString_quoted, Option.some.injEq]
  exact map_readBack_eq_iff

/-- A file with one entry. -/
def topicFile : Assoc CStr CStr :=
  Table.store (Table.empty : Assoc CStr CStr) "#chan".toList "a \"topic\"".toList

theorem fetch_topicFile {k v : CStr} (h : Table.fetch topicFile k = some v) :
    k = "#chan".toList ∧ v = "a \"topic\"".toList := by
  rw [topicFile] at h
  by_cases hk : k = "#chan".toList
  · rw [hk, Table.fetch_store_self] at h
    exact ⟨hk, (Option.some.inj h).symm⟩
  · rw [Table.fetch_store_ne _ _ _ _ hk, Table.fetch_empty] at h
    cases h

/-- A text of blanks, quotes and backslashes comes back, and so does the file. -/
theorem dequote_quote_blank :
    (quoteString " \"\\\\\" ").bind dequoteString = some (" \"\\\\\" " : CStr) ∧
      Restores topicFile true := by
  have texts : NonEmptyTexts topicFile := by
    intro k v h
    obtain ⟨rfl, rfl⟩ := fetch_topicFile h
    exact ⟨by decide, by decide⟩
  obtain ⟨hquote, hfile⟩ := @dequote_quote_iff _ _ _ true " \"\\\\\" " (by decide) texts
  refine ⟨hquote.mpr (forall_of_all (by decide)), hfile.mpr fun k v h => ?_⟩
  obtain ⟨rfl, rfl⟩ := fetch_topicFile h
  exact ⟨forall_of_all (by decide), forall_of_all (by decide)⟩

/-- A line feed comes back as the letter n. -/
theorem dequote_loses_newline :
    ¬ ∀ s : CStr, s ≠ [] → (quoteString s).bind dequoteString = some s := by
  intro claim
  have hnewline := claim ['\n'] (by decide)
  revert hnewline
  decide

end Ebotula
