import Ebotula.Extract

/-!
# The words of a line

What the event handlers read off a line they read word by word, with `getFirstPart`. A blank in
the line is replaced by the end of the first word, and what is behind it is the rest; but without
a blank the rest stays as it was. So the last word of a line is taken again and again, unless a
blank stands behind it.
-/

set_option autoImplicit false

namespace Ebotula

open Library

variable {word rest : CStr}

theorem getFirstPart_blank (h : ' ' ∉ word) (hrest : rest ≠ []) (pRest : Option CStr) :
    getFirstPart (some (word ++ ' ' :: rest)) pRest = (some word, some rest) := by
  rw [getFirstPart, cutFirst_append rest h]
  dsimp only
  rw [if_neg (by rwa [List.isEmpty_iff])]

theorem getFirstPart_word (h : ' ' ∉ word) (pRest : Option CStr) :
    getFirstPart (some word) pRest = (some word, pRest) := by
  rw [getFirstPart, cutFirst_eq_none_iff.mpr h]

theorem rmFirstPart_blank (h : ' ' ∉ word) (hrest : rest ≠ []) (pRest : Option CStr) :
    rmFirstPart (some (word ++ ' ' :: rest)) pRest = some rest :=
  congrArg Prod.snd (getFirstPart_blank h hrest pRest)

/-- What was in `pRest` before does not matter for the word. -/
theorem getFirstPart_fst (pLine pRest pRest' : Option CStr) :
    (getFirstPart pLine pRest).1 = (getFirstPart pLine pRest').1 := by
  cases pLine with
  | none => rfl
  | some pLine =>
    rw [getFirstPart, getFirstPart]
    cases cutFirst ' ' pLine <;> rfl

/-! ## Lists of words -/

/-- Words with a blank between each two. -/
def unwords : List CStr → CStr
  | [] => []
  | [word] => word
  | word :: word' :: words => word ++ ' ' :: unwords (word' :: words)

/-- A parameter of a line. -/
def IsParam (word : CStr) : Prop := word ≠ [] ∧ ' ' ∉ word

instance (word : CStr) : Decidable (IsParam word) := inferInstanceAs (Decidable (_ ∧ _))

theorem unwords_ne_nil {words : List CStr} (hwords : ∀ x ∈ words, IsParam x)
    (hne : words ≠ []) : unwords words ≠ [] := by
  match words with
  | [] => exact absurd rfl hne
  | [word] => exact (hwords word List.mem_cons_self).1
  | word :: _ :: _ =>
    intro h
    exact (hwords word List.mem_cons_self).1 (List.append_eq_nil_iff.mp h).1

/-- What is left of the words when the first one is taken: the last one stays. -/
def leftOver : List CStr → List CStr
  | _ :: word :: words => word :: words
  | words => words

theorem leftOver_ne_nil {words : List CStr} (h : words ≠ []) : leftOver words ≠ [] := by
  match words with
  | [] => exact absurd rfl h
  | [_] => exact h
  | _ :: _ :: _ => exact List.cons_ne_nil _ _

theorem mem_of_mem_leftOver {words : List CStr} (h : word ∈ leftOver words) : word ∈ words := by
  match words with
  | [] => exact h
  | [_] => exact h
  | _ :: _ :: _ => exact List.mem_cons_of_mem _ h

theorem getFirstPart_unwords {words : List CStr} (hwords : ∀ x ∈ word :: words, IsParam x) :
    getFirstPart (some (unwords (word :: words))) (some (unwords (word :: words))) =
      (some word, some (unwords (leftOver (word :: words)))) := by
  have hword := (hwords word List.mem_cons_self).2
  cases words with
  | nil => exact getFirstPart_word hword _
  | cons word' words =>
    refine getFirstPart_blank hword (unwords_ne_nil (fun x hx => ?_) (List.cons_ne_nil _ _)) _
    exact hwords x (List.mem_cons_of_mem _ hx)

/-- Before a list of words, which may be empty. -/
theorem getFirstPart_before {words : List CStr} (h : ' ' ∉ word)
    (hwords : ∀ x ∈ words, IsParam x) (pRest : Option CStr) :
    getFirstPart (some (word ++ ' ' :: unwords words)) pRest =
      (some word, if words = [] then none else some (unwords words)) := by
  by_cases hne : words = []
  · subst hne
    rw [getFirstPart, cutFirst_append _ h]
    rfl
  · rw [if_neg hne, getFirstPart_blank h (unwords_ne_nil hwords hne)]

/-- What begins with a character that words only begin with is found at the start of a word. -/
theorem infix_unwords_iff {a : Char} {words : List CStr} (hblank : ' ' ∉ a :: rest)
    (hwords : ∀ x ∈ words, a ∉ x.tail) :
    a :: rest <:+: unwords words ↔ ∃ x ∈ words, a :: rest <+: x := by
  have hword {x : CStr} (hx : a ∉ x.tail) : a :: rest <:+: x ↔ a :: rest <+: x := by
    cases x with
    | nil => rw [List.infix_nil, List.prefix_nil]
    | cons b x =>
      rw [List.infix_cons_iff, or_iff_left]
      exact fun hin => hx (hin.subset List.mem_cons_self)
  induction words with
  | nil => simp [unwords]
  | cons x words ih =>
    have hx := hwords x List.mem_cons_self
    have htails : ∀ y ∈ words, a ∉ y.tail := fun y hy => hwords y (List.mem_cons_of_mem _ hy)
    cases words with
    | nil => simp [unwords, hword hx]
    | cons y words =>
      have hrest : a :: rest <:+: unwords (y :: words) ↔ ∃ z ∈ y :: words, a :: rest <+: z :=
        ih htails
      rw [unwords, infix_append_sep hblank, hword hx, hrest]
      simp only [List.mem_cons, exists_eq_or_imp]

/-! ## One word after the other -/

/-- `t = getFirstPart(r,&r)`, as many times: the words, and what `r` is then. -/
def firstParts : (times : Nat) → (r : Option CStr) → List (Option CStr) × Option CStr
  | 0, r => ([], r)
  | times + 1, r =>
    let (t, r) := getFirstPart r r
    let (ts, r) := firstParts times r
    (t :: ts, r)

/-- The words with single blanks between them, and perhaps one behind the last. -/
def wordLine (words : List CStr) (blank : Bool) : CStr :=
  unwords words ++ if blank then [' '] else []

/-- As many calls as there are words return these, in order, and leave NULL, so that the next
call returns NULL. -/
def Tokenizes (line : CStr) (words : List CStr) : Prop :=
  firstParts words.length (some line) = (words.map some, none) ∧ (getFirstPart none none).1 = none

/-- For one call: the first part, a blank and the rest are the string, and an empty rest is
NULL. -/
theorem getFirstPart_split {s : CStr} (h : ' ' ∈ s) (pRest : Option CStr) :
    ∃ first rest, getFirstPart (some s) pRest = (some first, rest) ∧
      first ++ ' ' :: rest.getD [] = s ∧ rest ≠ some [] := by
  cases hcut : cutFirst ' ' s with
  | none => exact absurd h (cutFirst_eq_none_iff.mp hcut)
  | some parts =>
    obtain ⟨first, behind⟩ := parts
    obtain ⟨-, rfl⟩ := cutFirst_eq_some_iff.mp hcut
    refine ⟨first, if behind.isEmpty then none else some behind, ?_, ?_, ?_⟩
    · rw [getFirstPart, hcut]
    · cases behind <;> rfl
    · cases behind <;> simp

/-- All words come out in order. After the last one `r` is NULL if a blank is behind it, and
else it is this word once more. -/
theorem firstParts_wordLine {words : List CStr} (hwords : ∀ x ∈ words, IsParam x)
    (hne : words ≠ []) (blank : Bool) :
    firstParts words.length (some (wordLine words blank)) =
      (words.map some, if blank then none else some (words.getLast hne)) := by
  induction words with
  | nil => exact absurd rfl hne
  | cons word words ih =>
    have hword := (hwords word List.mem_cons_self).2
    cases words with
    | nil =>
      have hcall : getFirstPart (some (wordLine [word] blank)) (some (wordLine [word] blank)) =
          (some word, if blank then none else some word) := by
        cases blank with
        | true =>
          show getFirstPart (some (word ++ ' ' :: unwords [])) _ = _
          rw [getFirstPart_before hword (List.forall_mem_nil _)]
          rfl
        | false =>
          rw [wordLine, if_neg Bool.false_ne_true, List.append_nil]
          exact getFirstPart_word hword _
      rw [List.length_singleton, firstParts, hcall]
      rfl
    | cons word' words =>
      have hrest : ∀ x ∈ word' :: words, IsParam x := fun x hx =>
        hwords x (List.mem_cons_of_mem _ hx)
      have hline : wordLine (word :: word' :: words) blank =
          word ++ ' ' :: wordLine (word' :: words) blank := by
        rw [wordLine, unwords, List.append_assoc, List.cons_append]
        rfl
      have hnil : wordLine (word' :: words) blank ≠ [] := fun hnil =>
        unwords_ne_nil hrest (List.cons_ne_nil _ _) (List.append_eq_nil_iff.mp hnil).1
      rw [List.length_cons, firstParts, hline, getFirstPart_blank hword hnil]
      simp only [ih hrest (List.cons_ne_nil _ _), List.map_cons, List.getLast_cons_cons]

/-- When repeated calls tokenize a line of words: exactly if there is a blank behind the last of
them. One call for a string with a blank always takes it apart as it should. -/
theorem tokenizes_iff {words : List CStr} (hwords : ∀ x ∈ words, IsParam x) (blank : Bool) :
    (Tokenizes (wordLine words blank) words ∧
      ∀ s : CStr, ' ' ∈ s → ∀ pRest, ∃ first rest,
        getFirstPart (some s) pRest = (some first, rest) ∧
          first ++ ' ' :: rest.getD [] = s ∧ rest ≠ some []) ↔
    words ≠ [] ∧ blank = true := by
  rw [and_iff_left fun s hs pRest => getFirstPart_split hs pRest, Tokenizes,
    and_iff_left (show (getFirstPart none none).1 = none from rfl)]
  by_cases hne : words = []
  · -- no call is made, and `r` is not NULL
    subst hne
    exact iff_of_false (fun h => nomatch h) fun h => h.1 rfl
  · rw [firstParts_wordLine hwords hne]
    cases blank with
    | true => exact iff_of_true rfl ⟨hne, rfl⟩
    | false => exact iff_of_false (fun h => nomatch h) fun h => nomatch h.2

/-- Two words with a blank behind the second one. -/
theorem tokenizes_two : Tokenizes "one two ".toList ["one".toList, "two".toList] :=
  ((tokenizes_iff (show ∀ x ∈ ["one".toList, "two".toList], IsParam x by decide) true).mpr
    ⟨by decide, rfl⟩).1

/-- The last word of a line is returned again. -/
theorem not_tokenizes_two :
    ¬ ∀ words : List CStr, (∀ x ∈ words, IsParam x) → Tokenizes (unwords words) words := by
  intro hall
  have htwo := (hall ["one", "two"] (by decide)).1
  have hrest := congrArg Prod.snd htwo
  revert hrest
  decide

end Ebotula
