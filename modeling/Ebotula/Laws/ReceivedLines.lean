import Ebotula.Receive

/-!
# Which lines arrive

However the stream of the server is cut, the receive loop puts its lines together again, with
one exception: where a part ends between the carriage return and the line feed of a line, the
line is handed over and kept as the beginning of the next one as well. So the lines arrive as
they were sent exactly when no part ends there, or nothing but the line feed is still to come.
-/

set_option autoImplicit false

namespace Ebotula

open Library

/-- The stream of these lines. -/
def streamOf (lines : List CStr) : CStr := lines.flatMap (· ++ ['\r', '\n'])

/-- A line that a server can send: without a NUL and an end of line in it. -/
structure IsServerLine (line : CStr) : Prop where
  no_nul : '\x00' ∉ line
  no_cr : '\r' ∉ line
  no_lf : '\n' ∉ line

section Turn

variable {line rest u : CStr} {lines : List CStr} {fuel : Nat}

theorem streamOf_cons : streamOf (line :: lines) = line ++ '\r' :: '\n' :: streamOf lines := by
  simp [streamOf]

theorem streamOf_append {lines' : List CStr} :
    streamOf (lines ++ lines') = streamOf lines ++ streamOf lines' := List.flatMap_append

theorem handOver_rest (h : '\r' ∉ u) : handOver fuel u = ([], u) := by
  cases fuel with
  | zero => rfl
  | succ fuel => rw [handOver, cutFirst_eq_none_iff.mpr h]

theorem handOver_line (h : '\r' ∉ line) :
    handOver (fuel + 1) (line ++ '\r' :: '\n' :: rest) =
      (line :: (handOver fuel rest).1, (handOver fuel rest).2) := by
  rw [handOver, cutFirst_append _ h]
  rfl

/-- A line without its line feed is handed over, and is left as well. -/
theorem handOver_cut (h : '\r' ∉ line) :
    handOver (fuel + 1) (line ++ ['\r']) = ([line], line) := by
  rw [handOver, cutFirst_append _ h]
  simp only [List.length_nil, gt_iff_lt, Nat.lt_irrefl, if_false, handOver_rest h]

/-- Whole lines are handed over, and the loop goes on behind them. -/
theorem handOver_stream (h : ∀ line ∈ lines, '\r' ∉ line) (rest : CStr) (fuel : Nat) :
    handOver (lines.length + fuel) (streamOf lines ++ rest) =
      (lines ++ (handOver fuel rest).1, (handOver fuel rest).2) := by
  induction lines with
  | nil => rw [List.length_nil, Nat.zero_add]; rfl
  | cons line lines ih =>
    have hsplit : streamOf (line :: lines) ++ rest =
        line ++ '\r' :: '\n' :: (streamOf lines ++ rest) := by
      rw [streamOf_cons, List.append_assoc]
      rfl
    rw [hsplit, List.length_cons, Nat.add_right_comm, handOver_line (h line List.mem_cons_self),
      ih fun l hl => h l (List.mem_cons_of_mem _ hl)]
    rfl

/-- The first line that is handed over goes up to the first carriage return. -/
theorem handOver_first (fuel : Nat) (rest : CStr) (h : '\r' ∉ line) :
    (handOver (fuel + 1) (line ++ '\r' :: rest)).1.head? = some line := by
  rw [handOver, cutFirst_append _ h]
  rfl

theorem length_streamOf (lines : List CStr) : lines.length ≤ (streamOf lines).length := by
  induction lines with
  | nil => exact Nat.le_refl 0
  | cons line lines ih =>
    rw [streamOf_cons, List.length_append, List.length_cons, List.length_cons, List.length_cons]
    omega

/-- The turn for a string of whole lines and a rest without a carriage return. -/
theorem handOver_all (h : ∀ line ∈ lines, '\r' ∉ line) (hu : '\r' ∉ u) :
    handOver (streamOf lines ++ u).length (streamOf lines ++ u) = (lines, u) := by
  have hlength := length_streamOf lines
  obtain ⟨fuel, hfuel⟩ : ∃ n, (streamOf lines ++ u).length = lines.length + n := by
    refine ⟨(streamOf lines ++ u).length - lines.length, ?_⟩
    rw [List.length_append]
    omega
  rw [hfuel, handOver_stream h, handOver_rest hu, List.append_nil]

/-- The turn for a string that ends behind a carriage return. -/
theorem handOver_all_cut (h : ∀ line ∈ lines, '\r' ∉ line) (hline : '\r' ∉ line) :
    handOver (streamOf lines ++ (line ++ ['\r'])).length (streamOf lines ++ (line ++ ['\r'])) =
      (lines ++ [line], line) := by
  have hlength := length_streamOf lines
  obtain ⟨fuel, hfuel⟩ : ∃ n,
      (streamOf lines ++ (line ++ ['\r'])).length = lines.length + (n + 1) := by
    refine ⟨(streamOf lines ++ (line ++ ['\r'])).length - lines.length - 1, ?_⟩
    rw [List.length_append, List.length_append, List.length_singleton]
    omega
  rw [hfuel, handOver_stream h, handOver_cut hline]

end Turn

/-! ## Cuts in a stream -/

/-- Where a stream is cut: in a line or behind one, or between the two characters of its end. -/
inductive CutOf (lines : List CStr) (s t : CStr) : Prop
  | within (before behind : List CStr) (u : CStr) (split : lines = before ++ behind)
      (front : s = streamOf before ++ u) (free : '\r' ∉ u) (rest : u ++ t = streamOf behind)
  | atEnd (before behind : List CStr) (line : CStr) (split : lines = before ++ line :: behind)
      (front : s = streamOf before ++ (line ++ ['\r'])) (rest : t = '\n' :: streamOf behind)

theorem cutOf_stream {lines : List CStr} (h : ∀ line ∈ lines, '\r' ∉ line) {s t : CStr}
    (hst : s ++ t = streamOf lines) : CutOf lines s t := by
  induction lines generalizing s with
  | nil =>
    obtain ⟨rfl, rfl⟩ := List.append_eq_nil_iff.mp hst
    exact .within [] [] [] rfl rfl List.not_mem_nil rfl
  | cons line lines ih =>
    have hline := h line List.mem_cons_self
    rw [streamOf_cons] at hst
    rcases List.append_eq_append_iff.mp hst with ⟨x, hx, ht⟩ | ⟨s', rfl, hs'⟩
    · -- the cut is in the first line
      refine .within [] (line :: lines) s rfl rfl (fun hmem => hline ?_) ?_
      · rw [hx]
        exact List.mem_append_left x hmem
      · rw [streamOf_cons, ht, hx, List.append_assoc]
    · match s' with
      | [] =>
        refine .within [] (line :: lines) line rfl (by simp [streamOf]) hline ?_
        rw [streamOf_cons, hs']
        rfl
      | ['\r'] =>
        obtain ⟨-, hs'⟩ := List.cons.inj hs'
        exact .atEnd [] lines line rfl rfl hs'.symm
      | a :: b :: s' =>
        obtain ⟨ha, hs'⟩ := List.cons.inj hs'
        obtain ⟨hb, hs'⟩ := List.cons.inj hs'
        have hfront (before : List CStr) (u : CStr) : line ++ a :: b :: (streamOf before ++ u) =
            streamOf (line :: before) ++ u := by
          rw [streamOf_cons, ← ha, ← hb, List.append_assoc]
          rfl
        cases ih (fun l hl => h l (List.mem_cons_of_mem _ hl)) hs'.symm with
        | within before behind u split front free rest =>
          refine .within (line :: before) behind u (by rw [split]; rfl) ?_ free rest
          rw [front, hfront]
        | atEnd before behind last split front rest =>
          refine .atEnd (line :: before) behind last (by rw [split]; rfl) ?_ rest
          rw [front, hfront]

/-! ## The loop -/

/-- No part ends between the two characters of the end of a line, unless only the second one
is still to come. -/
def CutsBehindLines (received : List CStr) : Prop :=
  ∀ before behind, received = before ++ behind → before.flatten.getLast? = some '\r' →
    behind.flatten = ['\n']

/-- What `recv` may deliver: something, and less than the buffer holds. -/
def IsChunk (chunk : CStr) : Prop := chunk ≠ [] ∧ chunk.length < recvBufferSize

instance (chunk : CStr) : Decidable (IsChunk chunk) := inferInstanceAs (Decidable (_ ∧ _))

section Loop

variable {chunk u : CStr} {received : List CStr} {lines : List CStr}

theorem receiveTurn_eq (hchunk : IsChunk chunk) (hnul : '\x00' ∉ chunk) :
    receiveTurn u chunk = some (handOver (u ++ chunk).length (u ++ chunk)) := by
  have hstring : cString chunk = chunk := List.takeWhile_eq_self_iff.mpr fun a ha =>
    decide_eq_true fun e : a = '\x00' => hnul (e ▸ ha)
  rw [receiveTurn, recvLine, if_pos hchunk.2, hstring]
  rfl

theorem receiveLoop_cons {turn : List CStr × CStr} (h : receiveTurn u chunk = some turn) :
    receiveLoop (chunk :: received) u =
      (receiveLoop received turn.2).map fun later => (turn.1 ++ later.1, later.2) := by
  obtain ⟨turnLines, rest⟩ := turn
  rw [receiveLoop, h]
  show (receiveLoop received rest >>= fun later => _) = _
  cases receiveLoop received rest <;> rfl

/-- A cut of one part more is a cut of the rest or one behind that part. -/
theorem cutsBehindLines_cons (hparts : ∀ part ∈ received, part ≠ []) :
    CutsBehindLines (chunk :: received) ↔
      (chunk.getLast? = some '\r' → received.flatten = ['\n']) ∧ CutsBehindLines received := by
  have hlast (before : List CStr) (hbefore : before.flatten ≠ []) :
      (chunk :: before).flatten.getLast? = before.flatten.getLast? := by
    rw [List.flatten_cons, List.getLast?_append]
    cases hg : before.flatten.getLast? with
    | none => exact absurd (List.getLast?_eq_none_iff.mp hg) hbefore
    | some c => rfl
  constructor
  · intro hall
    refine ⟨fun hcr => hall [chunk] received rfl (by simpa using hcr), ?_⟩
    rintro before behind rfl hcr
    have hbefore : before.flatten ≠ [] := by
      intro hnil
      rw [hnil] at hcr
      cases hcr
    exact hall (chunk :: before) behind rfl (by rwa [hlast before hbefore])
  · rintro ⟨hfirst, hrest⟩ before behind heq hcr
    cases before with
    | nil => cases hcr
    | cons first before =>
      obtain ⟨rfl, rfl⟩ := List.cons.inj heq
      cases before with
      | nil => exact hfirst (by simpa using hcr)
      | cons second before =>
        have hne : second ≠ [] := hparts second List.mem_cons_self
        rw [hlast (second :: before) (by simp [hne])] at hcr
        exact hrest (second :: before) behind rfl hcr

theorem no_nul_cons (h : '\x00' ∉ (chunk :: received).flatten) :
    '\x00' ∉ chunk ∧ '\x00' ∉ received.flatten := by
  rw [List.flatten_cons, List.mem_append] at h
  exact not_or.mp h

/-- The loop comes through whatever fits into its buffer. -/
theorem receiveLoop_total (hchunks : ∀ chunk ∈ received, IsChunk chunk)
    (hnul : '\x00' ∉ received.flatten) (u : CStr) :
    ∃ handed, receiveLoop received u = some handed := by
  induction received generalizing u with
  | nil => exact ⟨_, rfl⟩
  | cons chunk received ih =>
    obtain ⟨hfirst, hrest⟩ := no_nul_cons hnul
    obtain ⟨later, hlater⟩ := ih (fun c hc => hchunks c (List.mem_cons_of_mem _ hc)) hrest
      (handOver (u ++ chunk).length (u ++ chunk)).2
    rw [receiveLoop_cons (receiveTurn_eq (hchunks chunk List.mem_cons_self) hfirst), hlater]
    exact ⟨_, rfl⟩

/-- Whatever the parts are, the first line goes up to the first carriage return. -/
theorem receiveLoop_first {rest : CStr} {handed : List CStr × CStr} (line : CStr)
    (hchunks : ∀ chunk ∈ received, IsChunk chunk) (hnul : '\x00' ∉ received.flatten)
    (hu : '\r' ∉ u) (hline : '\r' ∉ line)
    (hstream : u ++ received.flatten = line ++ '\r' :: rest)
    (hrun : receiveLoop received u = some handed) : handed.1.head? = some line := by
  induction received generalizing u handed with
  | nil =>
    rw [List.flatten_nil, List.append_nil] at hstream
    exact absurd (hstream ▸ List.mem_append_right _ List.mem_cons_self) hu
  | cons chunk received ih =>
    obtain ⟨hfirst, hrest⟩ := no_nul_cons hnul
    rw [receiveLoop_cons (receiveTurn_eq (hchunks chunk List.mem_cons_self) hfirst)] at hrun
    obtain ⟨later, hlater, rfl⟩ := Option.map_eq_some_iff.mp hrun
    rw [List.flatten_cons, ← List.append_assoc] at hstream
    by_cases hcr : '\r' ∈ u ++ chunk
    · -- the first line is in this part
      obtain ⟨z, hz⟩ : ∃ z, u ++ chunk = line ++ '\r' :: z := by
        rcases List.append_eq_append_iff.mp hstream with ⟨x, hx, -⟩ | ⟨x, hx, hx'⟩
        · exact absurd (hx ▸ List.mem_append_left x hcr) hline
        · cases x with
          | nil =>
            rw [List.append_nil] at hx
            exact absurd (hx ▸ hcr) hline
          | cons a x =>
            obtain ⟨rfl, -⟩ := List.cons.inj hx'
            exact ⟨x, hx⟩
      obtain ⟨fuel, hfuel⟩ : ∃ n, (u ++ chunk).length = n + 1 :=
        Nat.exists_eq_succ_of_ne_zero (by rw [hz]; simp)
      have hhead := handOver_first fuel z hline
      rw [← hz] at hhead
      rw [hfuel, List.head?_append, hhead, Option.some_or]
    · rw [handOver_rest hcr] at hlater ⊢
      exact ih (fun c hc => hchunks c (List.mem_cons_of_mem _ hc)) hrest hcr hstream hlater

/-- Without a carriage return nothing is handed over. -/
theorem receiveLoop_quiet (hchunks : ∀ chunk ∈ received, IsChunk chunk)
    (hnul : '\x00' ∉ received.flatten) (hcr : '\r' ∉ u ++ received.flatten) :
    receiveLoop received u = some ([], u ++ received.flatten) := by
  induction received generalizing u with
  | nil => rw [List.flatten_nil, List.append_nil]; rfl
  | cons chunk received ih =>
    obtain ⟨hfirst, hrest⟩ := no_nul_cons hnul
    rw [List.flatten_cons, ← List.append_assoc] at hcr ⊢
    have hpart : '\r' ∉ u ++ chunk := fun h => hcr (List.mem_append_left _ h)
    rw [receiveLoop_cons (receiveTurn_eq (hchunks chunk List.mem_cons_self) hfirst),
      handOver_rest hpart, ih (fun c hc => hchunks c (List.mem_cons_of_mem _ hc)) hrest hcr]
    rfl

/-- Where the stream goes on within a line, no carriage return is the last character. -/
theorem getLast?_streamOf_append (before : List CStr) {v : CStr} (free : '\r' ∉ v) :
    (streamOf before ++ v).getLast? ≠ some '\r' := by
  rw [List.getLast?_append]
  cases hv : v.getLast? with
  | some c => exact fun he => free (Option.some.inj he ▸ List.mem_of_getLast? hv)
  | none =>
    rcases List.eq_nil_or_concat before with rfl | ⟨before, l, rfl⟩
    · exact nofun
    · rw [List.concat_eq_append, streamOf_append]
      simp [streamOf]

/-- Nothing is left to hand over where the stream is at its end. -/
theorem receiveLoop_nil_iff (hu : '\r' ∉ u) (hstream : u = streamOf lines) :
    (receiveLoop [] u).map Prod.fst = some lines ↔ CutsBehindLines [] := by
  have hnil : lines = [] := by
    cases lines with
    | nil => rfl
    | cons line lines =>
      rw [hstream, streamOf_cons] at hu
      exact absurd (List.mem_append_right _ List.mem_cons_self) hu
  subst hnil
  refine iff_of_true rfl fun before behind heq hcr => ?_
  obtain ⟨rfl, -⟩ := List.append_eq_nil_iff.mp heq.symm
  cases hcr

/-- After a part that ends behind the carriage return of a line the other lines come as they were
sent only if there are none, and the line feed is still to come. -/
theorem receiveLoop_atEnd_iff {before behind : List CStr} {line : CStr}
    (hchunks : ∀ chunk ∈ received, IsChunk chunk) (hnul : '\x00' ∉ received.flatten)
    (hline : '\r' ∉ line) (hbehind : ∀ next ∈ behind, IsServerLine next)
    (hrest : received.flatten = '\n' :: streamOf behind) :
    (receiveLoop received line).map (fun later => before ++ [line] ++ later.1) =
        some (before ++ line :: behind) ↔
      received.flatten = ['\n'] ∧ CutsBehindLines received := by
  cases behind with
  | nil =>
    -- the line feed alone is to come, and stays in the rest
    have hquiet : '\r' ∉ line ++ received.flatten := by
      rw [hrest]
      simpa [streamOf] using hline
    rw [receiveLoop_quiet hchunks hnul hquiet]
    refine iff_of_true (by simp) ⟨hrest, fun first later heq hlast => ?_⟩
    refine absurd (List.mem_append_right line ?_) hquiet
    rw [heq, List.flatten_append]
    exact List.mem_append_left _ (List.mem_of_getLast? hlast)
  | cons next behind =>
    have hnext := hbehind next List.mem_cons_self
    refine iff_of_false (fun h => ?_) fun h => ?_
    · -- the next line would be the end of this one as well
      obtain ⟨later, hlater, heq⟩ := Option.map_eq_some_iff.mp h
      have hhanded : later.1 = next :: behind := by simpa using heq
      have hstream : line ++ received.flatten =
          (line ++ '\n' :: next) ++ '\r' :: '\n' :: streamOf behind := by
        rw [hrest, streamOf_cons]
        simp
      have hfirst := receiveLoop_first _ hchunks hnul hline (by simp [hline, hnext.no_cr])
        hstream hlater
      rw [hhanded] at hfirst
      have hglued : next = line ++ '\n' :: next := Option.some.inj hfirst
      exact hnext.no_lf (hglued ▸ List.mem_append_right _ List.mem_cons_self)
    · have hnil := (List.cons.inj (hrest.symm.trans h.1)).2
      rw [streamOf_cons] at hnil
      exact List.append_ne_nil_of_right_ne_nil _ (List.cons_ne_nil _ _) hnil

/-- From a rest without a carriage return on, the lines arrive as they were sent exactly when
no part ends in the wrong place. -/
theorem receiveLoop_iff (hchunks : ∀ chunk ∈ received, IsChunk chunk)
    (hlines : ∀ line ∈ lines, IsServerLine line) (hnul : '\x00' ∉ received.flatten)
    (hu : '\r' ∉ u) (hstream : u ++ received.flatten = streamOf lines) :
    (receiveLoop received u).map Prod.fst = some lines ↔ CutsBehindLines received := by
  induction received generalizing u lines with
  | nil =>
    rw [List.flatten_nil, List.append_nil] at hstream
    exact receiveLoop_nil_iff hu hstream
  | cons chunk received ih =>
    obtain ⟨hfirst, hrest⟩ := no_nul_cons hnul
    have hchunks' : ∀ c ∈ received, IsChunk c := fun c hc => hchunks c (List.mem_cons_of_mem _ hc)
    have hturn := receiveTurn_eq (u := u) (hchunks chunk List.mem_cons_self) hfirst
    have hlast : (u ++ chunk).getLast? = chunk.getLast? := by
      rw [List.getLast?_append]
      cases hg : chunk.getLast? with
      | none => exact absurd (List.getLast?_eq_none_iff.mp hg) (hchunks _ List.mem_cons_self).1
      | some c => rfl
    rw [List.flatten_cons, ← List.append_assoc] at hstream
    rw [cutsBehindLines_cons fun c hc => (hchunks' c hc).1, ← hlast]
    cases cutOf_stream (fun l hl => (hlines l hl).no_cr) hstream with
    | within before behind v split front free rest =>
      subst split
      have hbefore : ∀ l ∈ before, '\r' ∉ l := fun l hl =>
        (hlines l (List.mem_append_left _ hl)).no_cr
      rw [front, handOver_all hbefore free] at hturn
      rw [receiveLoop_cons hturn, front, Option.map_map]
      have hiff := ih hchunks' (fun l hl => hlines l (List.mem_append_right _ hl)) hrest free rest
      rw [← hiff, and_iff_right fun h => absurd h (getLast?_streamOf_append before free)]
      cases receiveLoop received v with
      | none => exact ⟨nofun, nofun⟩
      | some later =>
        simp only [Option.map_some, Option.some.injEq, Function.comp_apply,
          List.append_cancel_left_eq]
    | atEnd before behind line split front rest =>
      subst split
      have hbefore : ∀ l ∈ before, '\r' ∉ l := fun l hl =>
        (hlines l (List.mem_append_left _ hl)).no_cr
      have hline := hlines line (List.mem_append_right _ List.mem_cons_self)
      rw [front, handOver_all_cut hbefore hline.no_cr] at hturn
      have hcr : (streamOf before ++ (line ++ ['\r'])).getLast? = some '\r' := by
        rw [← List.append_assoc, List.getLast?_concat]
      rw [receiveLoop_cons hturn, front, Option.map_map, hcr, eq_self, true_imp_iff]
      exact receiveLoop_atEnd_iff hchunks' hrest hline.no_cr
        (fun l hl => hlines l (List.mem_append_right _ (List.mem_cons_of_mem _ hl))) rest

/-- The lines of a server, however its stream is cut, are handed to the parser as they were
sent, each once and in their order, exactly when no part ends between the two characters of an
end of line with more than the second one still to come. -/
theorem lines_reassembled (hlines : ∀ line ∈ lines, IsServerLine line)
    (hchunks : ∀ chunk ∈ received, IsChunk chunk) (hstream : received.flatten = streamOf lines) :
    (receiveLoop received []).map Prod.fst = some lines ↔ CutsBehindLines received := by
  have hnul : '\x00' ∉ received.flatten := by
    rw [hstream]
    intro hmem
    obtain ⟨line, hline, hin⟩ := List.mem_flatMap.mp hmem
    rcases List.mem_append.mp hin with h | h
    · exact (hlines line hline).no_nul h
    · revert h
      decide
  exact receiveLoop_iff hchunks hlines hnul List.not_mem_nil hstream

/-- Two lines in three parts, none of which ends behind a carriage return. -/
theorem lines_reassembled_across_parts :
    (receiveLoop ["PI".toList, "NG :a\r\nPING".toList, " :b\r\n".toList] []).map Prod.fst =
        some ["PING :a".toList, "PING :b".toList] ↔
      CutsBehindLines ["PI".toList, "NG :a\r\nPING".toList, " :b\r\n".toList] :=
  lines_reassembled
    (by
      intro line hline
      rcases List.mem_cons.mp hline with rfl | hline
      · exact ⟨by decide, by decide, by decide⟩
      · obtain rfl := List.mem_singleton.mp hline
        exact ⟨by decide, by decide, by decide⟩)
    (by decide +kernel) (by decide +kernel)

/-- A part that ends behind the carriage return of a line glues that line to the next one. -/
theorem line_glued_to_the_next :
    (∀ line ∈ ["PING :a".toList, "PING :b".toList], IsServerLine line) ∧
      (∀ chunk ∈ ["PING :a\r".toList, "\nPING :b\r\n".toList], IsChunk chunk) ∧
      ["PING :a\r".toList, "\nPING :b\r\n".toList].flatten =
        streamOf ["PING :a".toList, "PING :b".toList] ∧
      (receiveLoop ["PING :a\r".toList, "\nPING :b\r\n".toList] []).map Prod.fst =
        some ["PING :a".toList, "PING :a\nPING :b".toList] ∧
      (receiveLoop ["PING :a\r".toList, "\nPING :b\r\n".toList] []).map Prod.fst ≠
        some ["PING :a".toList, "PING :b".toList] := by
  refine ⟨fun line hline => ?_, by decide +kernel, by decide +kernel, by decide +kernel,
    by decide +kernel⟩
  rcases List.mem_cons.mp hline with rfl | hline
  · exact ⟨by decide, by decide, by decide⟩
  · obtain rfl := List.mem_singleton.mp hline
    exact ⟨by decide, by decide, by decide⟩

end Loop

end Ebotula
