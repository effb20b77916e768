import Ebotula.Laws.Hostmasks
import Ebotula.Library.Wildcard
import Ebotula.Runs

/-!
# Ban masks

`getBanmask` puts wildcards for the nickname and for the host up to its first dot. It looks for
that dot in the whole netmask, from the `!` on. So in a user name with a dot it finds the wrong
one, and appends the rest of the user name and the whole host to a mask for which it has
allocated no more than the netmask needs.
-/

set_option autoImplicit false

namespace Ebotula

open Library

/-- The bytes that `getBanmask` allocates for the mask. -/
def banmaskBuffer (pLine : CStr) : Option Nat :=
  (getNetmask pLine).bind fun pStr => (cutFirst '!' pStr).map fun (_, userHost) =>
    let pChar := '!' :: userHost
    pChar.length + 3

variable {pNick pLogin pDomain : CStr}

/-- What is appended behind the wildcard for the host: the rest of the netmask from the first dot
behind the `!` on. -/
def bannedDomain (pLogin pDomain : CStr) : CStr :=
  match cutFirst '.' (pLogin ++ '@' :: pDomain) with
  | some (_, domain) => '.' :: domain
  | none => []

/-- The mask, and the bytes it was allocated. -/
theorem getBanmask_hostmask (hnick : IsPart pNick) (hlogin : IsPart pLogin)
    (hdomain : IsPart pDomain) :
    getBanmask (hostmask pNick pLogin pDomain) =
        some (some ('*' :: '!' :: pLogin ++ '@' :: '*' :: bannedDomain pLogin pDomain)) ∧
      banmaskBuffer (hostmask pNick pLogin pDomain) =
        some (pLogin.length + pDomain.length + 5) := by
  -- what stands in front of the `!` is thrown away
  obtain ⟨front, hfront, hmask⟩ : ∃ front : CStr, '!' ∉ front ∧
      getNetmask (hostmask pNick pLogin pDomain) =
        some (front ++ '!' :: (pLogin ++ '@' :: pDomain)) := by
    rw [getNetmask_hostmask hnick hlogin hdomain]
    split
    · exact ⟨pNick.tail, fun h => hnick.no_bang (List.mem_of_mem_tail h),
        by rw [hostmask, List.append_assoc]; rfl⟩
    · exact ⟨pNick, hnick.no_bang, by rw [hostmask, List.append_assoc]; rfl⟩
  have hbang := cutFirst_append (pLogin ++ '@' :: pDomain) hfront
  have hat : cutFirst '@' ('*' :: '!' :: (pLogin ++ '@' :: pDomain)) =
      some ('*' :: '!' :: pLogin, pDomain) := by
    refine cutFirst_append (x := '*' :: '!' :: pLogin) pDomain ?_
    simp [hlogin.no_at]
  constructor
  · rw [getBanmask, hmask]
    dsimp only
    rw [hbang]
    dsimp only
    rw [hat]
    dsimp only
    rw [bannedDomain, cutFirst, if_neg (by decide), cutFirst, if_neg (by decide)]
    cases cutFirst '.' (pLogin ++ '@' :: pDomain) with
    | none => simp
    | some split => simp
  · rw [banmaskBuffer, hmask, Option.bind_some, hbang, Option.map_some]
    simp only [List.length_cons, List.length_append]
    congr 1

/-- Without a dot in the user name the domain begins in the host, with the first dot there. -/
theorem bannedDomain_host (pDomain : CStr) (hlogin : '.' ∉ pLogin) :
    ∃ front, pDomain = front ++ bannedDomain pLogin pDomain := by
  rw [bannedDomain]
  cases hcut : cutFirst '.' (pLogin ++ '@' :: pDomain) with
  | none => exact ⟨pDomain, (List.append_nil _).symm⟩
  | some split =>
    obtain ⟨x, y⟩ := split
    obtain ⟨-, hsplit⟩ := cutFirst_eq_some_iff.mp hcut
    rcases List.append_eq_append_iff.mp hsplit with ⟨z, hx, hz⟩ | ⟨z, hlog, hz⟩
    · cases z with
      | nil => cases hz
      | cons a z =>
        cases hz
        exact ⟨z, rfl⟩
    · cases z with
      | nil => cases hz
      | cons a z =>
        cases hz
        exact absurd (hlog ▸ by simp) hlogin

/-- With a dot in the user name it begins there, and takes the whole host with it. -/
theorem bannedDomain_user (pDomain : CStr) (hlogin : '.' ∈ pLogin) :
    pDomain.length + 2 ≤ (bannedDomain pLogin pDomain).length := by
  obtain ⟨x, y, hx, rfl⟩ : ∃ x y, '.' ∉ x ∧ pLogin = x ++ '.' :: y := by
    cases hcut : cutFirst '.' pLogin with
    | none => exact absurd hlogin (cutFirst_eq_none_iff.mp hcut)
    | some split => exact ⟨split.1, split.2, cutFirst_eq_some_iff.mp hcut⟩
  rw [bannedDomain, List.append_assoc, List.cons_append, cutFirst_append _ hx]
  simp only [List.length_cons, List.length_append]
  omega

/-- The mask matches the netmask and fits the buffer exactly if there is no dot in the user name. -/
theorem banmask_matches_and_fits (hnick : IsPart pNick) (hlogin : IsPart pLogin)
    (hdomain : IsPart pDomain) :
    ∃ pBanmask size, getBanmask (hostmask pNick pLogin pDomain) = some (some pBanmask) ∧
      banmaskBuffer (hostmask pNick pLogin pDomain) = some size ∧
      ((Wildcard '*' pBanmask (hostmask pNick pLogin pDomain) ∧ pBanmask.length + 1 ≤ size) ↔
        '.' ∉ pLogin) := by
  obtain ⟨hmask, hsize⟩ := getBanmask_hostmask hnick hlogin hdomain
  refine ⟨_, _, hmask, hsize, fun ⟨_, hfits⟩ hdot => ?_, fun hdot => ⟨?_, ?_⟩⟩
  · have hlong := bannedDomain_user pDomain hdot
    simp only [List.length_cons, List.length_append] at hfits
    omega
  · obtain ⟨front, hfront⟩ := bannedDomain_host pDomain hdot
    have hhost : Wildcard '*' ('*' :: bannedDomain pLogin pDomain) pDomain := by
      have hany : Wildcard '*' ('*' :: bannedDomain pLogin pDomain)
          (front ++ bannedDomain pLogin pDomain) := (Wildcard.refl _).any_append front
      rwa [← hfront] at hany
    have hlogged : Wildcard '*' (pLogin ++ '@' :: '*' :: bannedDomain pLogin pDomain)
        (pLogin ++ '@' :: pDomain) := (Wildcard.refl pLogin).append (.char '@' hhost)
    have hnick : Wildcard '*' ('*' :: '!' :: (pLogin ++ '@' :: '*' :: bannedDomain pLogin pDomain))
        (pNick ++ '!' :: (pLogin ++ '@' :: pDomain)) := (Wildcard.char '!' hlogged).any_append pNick
    rw [hostmask, List.append_assoc]
    exact hnick
  · obtain ⟨front, hfront⟩ := bannedDomain_host pDomain hdot
    have hlength := congrArg List.length hfront
    simp only [List.length_cons, List.length_append] at hlength ⊢
    omega

/-- A user without a dot, behind a host with several. -/
theorem banmask_matches_and_fits_carol : ∃ pBanmask,
    getBanmask (hostmask "carol" "~c" "dial.up.example") = some (some pBanmask) ∧
      Wildcard '*' pBanmask (hostmask "carol" "~c" "dial.up.example") := by
  obtain ⟨pBanmask, size, hmask, -, hiff⟩ :=
    @banmask_matches_and_fits "carol" "~c" "dial.up.example"
      ⟨by decide, by decide, by decide, by decide⟩
      ⟨by decide, by decide, by decide, by decide⟩
      ⟨by decide, by decide, by decide, by decide⟩
  exact ⟨pBanmask, hmask, (hiff.mpr (by decide)).1⟩

/-- A dot in the user name: the mask asks for two `@`, and with its NUL it is three bytes longer
than its buffer. -/
theorem banmask_overflows :
    IsPart "carol" ∧ IsPart "c.d" ∧ IsPart "host" ∧
      getBanmask (hostmask "carol" "c.d" "host") = some (some "*!c.d@*.d@host".toList) ∧
      banmaskBuffer (hostmask "carol" "c.d" "host") = some 12 ∧
      ¬ "*!c.d@*.d@host".toList.length + 1 ≤ 12 := by
  refine ⟨⟨by decide, by decide, by decide, by decide⟩,
    ⟨by decide, by decide, by decide, by decide⟩,
    ⟨by decide, by decide, by decide, by decide⟩, by decide⟩

end Ebotula
