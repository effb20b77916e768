import Ebotula.Extract

/-!
# Netmasks of users

A user is `nick!user@host` to the server, and the bot puts the three parts together from the
answer to a WHOIS. What the extractors read off such a netmask.
-/

set_option autoImplicit false

namespace Ebotula

open Library

/-- The netmask that `hCallback` puts together. -/
def hostmask (pNick pLogin pDomain : CStr) : CStr := pNick ++ '!' :: pLogin ++ '@' :: pDomain

/-- A part of a netmask: some text without the marks between the parts. -/
structure IsPart (part : CStr) : Prop where
  ne_nil : part ≠ []
  no_blank : ' ' ∉ part
  no_bang : '!' ∉ part
  no_at : '@' ∉ part

variable {pNick pLogin pDomain : CStr}

theorem hostmask_no_blank (hnick : IsPart pNick) (hlogin : IsPart pLogin)
    (hdomain : IsPart pDomain) : ' ' ∉ hostmask pNick pLogin pDomain := by
  simp [hostmask, hnick.no_blank, hlogin.no_blank, hdomain.no_blank]

/-- A leading colon is taken for the one of a line. -/
theorem getNetmask_hostmask (hnick : IsPart pNick) (hlogin : IsPart pLogin)
    (hdomain : IsPart pDomain) : getNetmask (hostmask pNick pLogin pDomain) =
      some (if pNick.head? = some ':' then hostmask pNick.tail pLogin pDomain
        else hostmask pNick pLogin pDomain) := by
  have hblank := hostmask_no_blank hnick hlogin hdomain
  obtain ⟨c, pNick, rfl⟩ := List.exists_cons_of_ne_nil hnick.ne_nil
  have hcons : hostmask (c :: pNick) pLogin pDomain = c :: hostmask pNick pLogin pDomain := rfl
  rw [hcons] at hblank ⊢
  have hmark : '!' ∈ c :: hostmask pNick pLogin pDomain := by simp [hostmask]
  rw [getNetmask, strtokBuf_of_not_mem fun h => hblank (List.mem_cons_of_mem _ h),
    if_pos (.inl hmark)]
  by_cases hcolon : c = ':'
  · rw [List.head?_cons, if_pos (congrArg some hcolon), List.head?_cons,
      if_pos (congrArg some hcolon), List.tail_cons, List.tail_cons]
  · rw [List.head?_cons, if_neg fun h => hcolon (Option.some.inj h), List.head?_cons,
      if_neg fun h => hcolon (Option.some.inj h)]

/-- The nickname is the first part, if it is one the bot takes. -/
theorem getNickname_hostmask (hnick : IsPart pNick) (hlogin : IsPart pLogin)
    (hdomain : IsPart pDomain) (hcolon : pNick.head? ≠ some ':') :
    getNickname (hostmask pNick pLogin pDomain) =
      if nickStringCheck pNick then some pNick else none := by
  have htok : strtokBuf '!' (hostmask pNick pLogin pDomain) = pNick := by
    rw [hostmask, List.append_assoc]
    exact strtokBuf_append hnick.ne_nil hnick.no_bang
  have hfound : strtokFound '!' (hostmask pNick pLogin pDomain) = true := by
    obtain ⟨c, rest, rfl⟩ := List.exists_cons_of_ne_nil hnick.ne_nil
    refine List.any_eq_true.mpr ⟨c, List.mem_cons_self, decide_eq_true fun h => ?_⟩
    exact hnick.no_bang (h ▸ List.mem_cons_self)
  rw [getNickname, getNetmask_hostmask hnick hlogin hdomain, if_neg hcolon]
  dsimp only
  rw [htok, hfound, Bool.true_and]

end Ebotula
