import Mathlib.Algebra.BigOperators.Group.Finset.Basic
import Mathlib.Algebra.Order.BigOperators.Group.Finset
import Mathlib.Data.Fintype.BigOperators
import Mathlib.Data.Int.ConditionallyCompleteOrder
import Mathlib.Data.Int.Interval
import Mathlib.Data.Int.ModEq
import Mathlib.Order.ConditionallyCompleteLattice.Basic

/-!
# A ring of fields for the last moments

A ring of `n` fields keeps a value for each of the last `n` moments, the moment `x` in the field
`x % n`. At the moment `now` the field `k` stands for the last moment up to `now` that is congruent
to `k`: `latest`. When time goes on a field stands for the same moment as before, or for one that
was still to come; and all fields together stand for every one of the last `n` moments once.
-/

set_option autoImplicit false

namespace Ebotula.Library

/-- The last moment up to `now` that the field `k` of a ring of `n` stands for. -/
def latest (n now k : ℤ) : ℤ := now - (now - k) % n

section Ring

variable {n : ℤ}

theorem latest_le (hn : 0 < n) (now k : ℤ) : latest n now k ≤ now := by
  have := Int.emod_nonneg (now - k) (Int.ne_of_gt hn)
  rw [latest]
  omega

theorem lt_latest (hn : 0 < n) (now k : ℤ) : now - n < latest n now k := by
  have := Int.emod_lt_of_pos (now - k) hn
  rw [latest]
  omega

theorem latest_modEq (now k : ℤ) : latest n now k ≡ k [ZMOD n] := by
  rw [latest, Int.modEq_iff_dvd]
  exact ⟨-((now - k) / n), by rw [Int.mul_neg, Int.mul_ediv_self]; omega⟩

/-- It is the only one of the last `n` moments that the field can stand for. -/
theorem eq_latest {now k x : ℤ} (hn : 0 < n) (hx : x ≡ k [ZMOD n]) (hlast : now - n < x)
    (hnow : x ≤ now) : x = latest n now k := by
  have hdvd : n ∣ latest n now k - x := Int.modEq_iff_dvd.mp (hx.trans (latest_modEq now k).symm)
  have hle := latest_le hn now k
  have hlt := lt_latest hn now k
  have hzero := Int.eq_zero_of_abs_lt_dvd hdvd (abs_lt.mpr ⟨by omega, by omega⟩)
  omega

/-- When time goes on, a field that stands for a moment of the past has not changed its meaning. -/
theorem latest_advance {now next k : ℤ} (hn : 0 < n) (hle : now ≤ next)
    (hpast : latest n next k ≤ now) : latest n next k = latest n now k := by
  have := lt_latest hn next k
  exact eq_latest hn (latest_modEq next k) (by omega) hpast

end Ring

/-- All the fields of a ring together stand for the last `n` moments. -/
theorem sum_latest {M : Type} [AddCommMonoid M] (n : ℕ) [NeZero n] (now : ℤ) (f : ℤ → M) :
    ∑ k : Fin n, f (latest n now k) = ∑ x ∈ Finset.Ioc (now - n) now, f x := by
  have hn : (0 : ℤ) < n := Int.natCast_pos.mpr (NeZero.pos n)
  refine Finset.sum_bij (fun k _ => latest n now k) ?_ ?_ ?_ fun _ _ => rfl
  · intro k _
    exact Finset.mem_Ioc.mpr ⟨lt_latest hn now k, latest_le hn now k⟩
  · intro k _ l _ hkl
    have hmod : (k : ℤ) ≡ l [ZMOD n] := (latest_modEq now k).symm.trans
      (hkl ▸ latest_modEq now l)
    have hnat := Nat.ModEq.eq_of_lt_of_lt (Int.natCast_modEq_iff.mp hmod) k.isLt l.isLt
    exact Fin.ext hnat
  · intro x hx
    obtain ⟨hlast, hnow⟩ := Finset.mem_Ioc.mp hx
    have hnonneg := Int.emod_nonneg x (Int.ne_of_gt hn)
    have hlt := Int.emod_lt_of_pos x hn
    refine ⟨⟨(x % n).toNat, by omega⟩, Finset.mem_univ _, (eq_latest hn ?_ hlast hnow).symm⟩
    rw [Int.toNat_of_nonneg hnonneg]
    exact (Int.mod_modEq x n).symm

end Ebotula.Library
