import Ebotula.CallbackList
import Ebotula.Laws.Words

/-!
# Mode letters and their parameters

A MODE line of the server has its letters in one word and their parameters behind it, in the
order of the letters. `hResetModes` hands out the parameters to the letters `o` and `v` only,
and the last one again and again when there are no more. Here is what each letter gets from
it and what it should get.
-/

set_option autoImplicit false

namespace Ebotula

open Library

/-! ## What belongs to a letter -/

/-- An `o` or a `v`, the sign in force, and a parameter, if it gets one. -/
structure UserLetter where
  letter : Char
  sign : Option Char
  param : Option CStr
  deriving DecidableEq, Repr

/-- Every one of these letters has a parameter of its own, an `l` only if it is set. -/
def rfcLetters : (pMode : CStr) → (sign : Option Char) → (params : List CStr) → List UserLetter
  | [], _, _ => []
  | c :: pMode, sign, params =>
    if c = '+' ∨ c = '-' then rfcLetters pMode (some c) params
    else if c = 'o' ∨ c = 'v' then ⟨c, sign, params.head?⟩ :: rfcLetters pMode sign params.tail
    else if c = 'b' ∨ c = 'k' ∨ c = 'l' ∧ sign ≠ some '-' then rfcLetters pMode sign params.tail
    else rfcLetters pMode sign params

/-- What `hResetModes` gives out: no other letter takes a parameter, and the last one stays. -/
def givenLetters : (pMode : CStr) → (sign : Option Char) → (params : List CStr) →
    List UserLetter
  | [], _, _ => []
  | c :: pMode, sign, params =>
    if c = '+' ∨ c = '-' then givenLetters pMode (some c) params
    else if c = 'o' ∨ c = 'v' then
      ⟨c, sign, params.head?⟩ :: givenLetters pMode sign (leftOver params)
    else givenLetters pMode sign params

/-- The user whose mode is to be reset: nobody for the bot itself. -/
def UserLetter.user (bot : CStr) (l : UserLetter) : Option CStr :=
  l.param.filter fun pNick => !strcaseeq pNick bot

/-- The callback that is due for a letter, with its sign; without one a mode is set. -/
def UserLetter.due (bot pChannel : CStr) (l : UserLetter) : Option CallbackItem :=
  (l.user bot).map fun pNick => ⟨pNick, .modeResetCb, pChannel ++ [' ', l.sign.getD '+']⟩

/-- The two readings of a line have the same letters with the same signs. -/
theorem letters_agree (pMode : CStr) (sign : Option Char) (params params' : List CStr) :
    (rfcLetters pMode sign params).map (fun l => (l.letter, l.sign)) =
      (givenLetters pMode sign params').map fun l => (l.letter, l.sign) := by
  induction pMode generalizing sign params params' with
  | nil => rfl
  | cons c pMode ih =>
    rw [rfcLetters, givenLetters]
    split
    · exact ih ..
    · split
      · rw [List.map_cons, List.map_cons, ih]
      · split <;> exact ih ..

/-- The last parameter is given to every letter behind it. -/
theorem givenLetters_param (pMode : CStr) (sign : Option Char) (params : List CStr) (j : Nat) :
    ∀ l ∈ (givenLetters pMode sign params)[j]?, l.param = params[min j (params.length - 1)]? := by
  induction pMode generalizing sign params j with
  | nil => nofun
  | cons c pMode ih =>
    rw [givenLetters]
    split
    · exact ih _ _ j
    · split
      · cases j with
        | zero =>
          rintro l ⟨⟩
          rw [Nat.zero_min]
          exact List.head?_eq_getElem?
        | succ j =>
          rw [List.getElem?_cons_succ]
          intro l hl
          rw [ih _ _ j l hl]
          match params with
          | [] => rfl
          | [x] =>
            show [x][min j 0]? = [x][min (j + 1) 0]?
            rw [Nat.min_zero, Nat.min_zero]
          | _ :: x :: params =>
            simp only [leftOver, List.length_cons, Nat.add_sub_cancel, Nat.succ_min_succ,
              List.getElem?_cons_succ]
      · exact ih _ _ j

/-- What two lists give is the same along both where it is the same in each place. -/
theorem filterMap_take_iff {α β γ : Type} {l : List α} {l' : List β} {f : α → Option γ}
    {g : β → Option γ} (hlength : l.length = l'.length) :
    (∀ k, (l.take k).filterMap f = (l'.take k).filterMap g) ↔ l.map f = l'.map g := by
  constructor
  · intro h
    refine List.ext_getElem? fun j => ?_
    rw [List.getElem?_map, List.getElem?_map]
    have hnext := h (j + 1)
    rw [List.take_add_one, List.take_add_one, List.filterMap_append, List.filterMap_append, h j,
      List.append_cancel_left_eq] at hnext
    have hfirst {δ : Type} (f : δ → Option γ) (o : Option δ) :
        (o.toList.filterMap f).head? = o.bind f := by
      cases o with
      | none => rfl
      | some x =>
        rw [Option.toList_some, List.filterMap_cons]
        cases hx : f x <;> simp [hx]
    have hvalue := congrArg List.head? hnext
    rw [hfirst, hfirst] at hvalue
    by_cases hj : j < l.length
    · have hj' : j < l'.length := hlength ▸ hj
      rw [List.getElem?_eq_getElem hj, List.getElem?_eq_getElem hj'] at hvalue ⊢
      exact congrArg some hvalue
    · rw [List.getElem?_eq_none (Nat.le_of_not_lt hj),
        List.getElem?_eq_none (hlength ▸ Nat.le_of_not_lt hj)]
      rfl
  · intro h k
    have hmap {δ : Type} (l : List δ) (f : δ → Option γ) :
        (l.take k).filterMap f = ((l.map f).take k).filterMap id := by
      rw [← List.map_take, List.filterMap_map]
      rfl
    rw [hmap l f, hmap l' g, h]

/-- A line that is cut off behind `i` characters has the first `k` letters, with the same
parameters. -/
def CutAt (pMode : CStr) (i k : Nat) : Prop :=
  ∀ (sign : Option Char) (params : List CStr),
    rfcLetters (pMode.take i) sign params = (rfcLetters pMode sign params).take k ∧
      givenLetters (pMode.take i) sign params = (givenLetters pMode sign params).take k

theorem CutAt.user {c : Char} {pMode : CStr} {i k : Nat} (h : CutAt pMode i k)
    (huser : c = 'o' ∨ c = 'v') : CutAt (c :: pMode) (i + 1) (k + 1) := by
  intro sign params
  have hsign : ¬ (c = '+' ∨ c = '-') := by
    rintro (rfl | rfl) <;> exact absurd huser (by decide)
  rw [List.take_succ_cons, rfcLetters, rfcLetters, givenLetters, givenLetters]
  simp only [if_neg hsign, if_pos huser, List.take_succ_cons, (h _ _).1, (h _ _).2, and_self]

theorem CutAt.other {c : Char} {pMode : CStr} {i k : Nat} (h : CutAt pMode i k)
    (huser : ¬ (c = 'o' ∨ c = 'v')) : CutAt (c :: pMode) (i + 1) k := by
  intro sign params
  rw [List.take_succ_cons, rfcLetters, rfcLetters, givenLetters, givenLetters]
  simp only [if_neg huser, (h _ _).1, (h _ _).2]
  split
  · exact ⟨rfl, rfl⟩
  · split <;> exact ⟨rfl, rfl⟩

/-- Behind every character some number of letters is over. -/
theorem exists_letters (pMode : CStr) (i : Nat) : ∃ k, CutAt pMode i k := by
  induction pMode generalizing i with
  | nil => exact ⟨0, fun _ _ => by rw [List.take_nil]; exact ⟨rfl, rfl⟩⟩
  | cons c pMode ih =>
    cases i with
    | zero => exact ⟨0, fun _ _ => ⟨rfl, rfl⟩⟩
    | succ i =>
      obtain ⟨k, hk⟩ := ih i
      by_cases huser : c = 'o' ∨ c = 'v'
      · exact ⟨k + 1, hk.user huser⟩
      · exact ⟨k, hk.other huser⟩

/-- Behind every letter the line can be cut off. -/
theorem exists_cut (pMode : CStr) (k : Nat) : ∃ i, CutAt pMode i k := by
  induction pMode generalizing k with
  | nil => exact ⟨0, fun _ _ => ⟨List.take_nil.symm, List.take_nil.symm⟩⟩
  | cons c pMode ih =>
    by_cases huser : c = 'o' ∨ c = 'v'
    · cases k with
      | zero => exact ⟨0, fun _ _ => ⟨rfl, rfl⟩⟩
      | succ k =>
        obtain ⟨i, hi⟩ := ih k
        exact ⟨i + 1, hi.user huser⟩
    · obtain ⟨i, hi⟩ := ih k
      exact ⟨i + 1, hi.other huser⟩

/-- The signs of a line are written as such. -/
theorem rfcLetters_sign {pMode : CStr} {sign : Option Char} {params : List CStr}
    (hsign : ∀ c ∈ sign, c = '+' ∨ c = '-') :
    ∀ l ∈ rfcLetters pMode sign params, ∀ c ∈ l.sign, c = '+' ∨ c = '-' := by
  induction pMode generalizing sign params with
  | nil => nofun
  | cons a pMode ih =>
    rw [rfcLetters]
    split
    · next ha => exact ih fun c hc => Option.some.inj hc ▸ ha
    · split
      · exact List.forall_mem_cons.mpr ⟨hsign, ih hsign⟩
      · split <;> exact ih hsign

end Ebotula
