import Mathlib.Data.Nat.Totient
import Mathlib.Algebra.BigOperators.Group.List.Lemmas
import Mathlib.Tactic

/-!
# Prime wheels

The numbers of a stretch that are coprime to `P`.  They repeat with the period `P`, and a period has as many of them as the
totient says, which for a product of distinct primes is the product of the primes less one.
-/

namespace ProcessNetwork

namespace Wheel

variable {P a m n : ℕ}

/-- The numbers from `a` on, `n` of them, that are coprime to `P`. -/
def coprimes (P a n : ℕ) : List ℕ := (List.range' a n).filter fun x => P.Coprime x

theorem coprimes_append (P a m n : ℕ) : coprimes P a (m + n) = coprimes P a m ++ coprimes P (a + m) n := by
  unfold coprimes
  rw [← List.range'_append_1, List.filter_append]

theorem coprimes_one (P a : ℕ) : coprimes P a 1 = if P.Coprime a then [a] else [] := by
  unfold coprimes
  rw [List.range'_one, List.filter_singleton, Bool.cond_decide]

theorem length_coprimes_le (P a n : ℕ) : (coprimes P a n).length ≤ n :=
  (List.length_filter_le _ _).trans List.length_range'.le

/-- The coprime numbers repeat with the period `P`. -/
theorem map_coprimes (P a n j : ℕ) : (coprimes P a n).map (· + j * P) = coprimes P (a + j * P) n := by
  unfold coprimes
  have hshift : List.range' (a + j * P) n = (List.range' a n).map (· + j * P) := by
    rw [add_comm a, ← List.map_add_range']
    exact List.map_congr_left fun x _ => add_comm _ _
  rw [hshift, List.filter_map]
  congr 1
  refine List.filter_congr fun x _ => ?_
  simp

/-- A period starts with 1. -/
theorem coprimes_period (hP : 2 ≤ P) : coprimes P 0 P = 1 :: coprimes P 2 (P - 2) := by
  obtain ⟨n, rfl⟩ := Nat.exists_eq_add_of_le hP
  rw [Nat.add_sub_cancel_left, coprimes_append, zero_add]
  have hzero : ¬ (2 + n).Coprime 0 := by
    rw [Nat.coprime_zero_right]
    omega
  simp [coprimes, List.range'_succ, hzero]

theorem length_coprimes (P : ℕ) : (coprimes P 0 P).length = P.totient := by
  rw [Nat.totient_eq_card_coprime, coprimes, ← List.range_eq_range']
  rfl

/-- The coprime numbers above 1. -/
theorem filter_coprime (P m : ℕ) :
    ((List.range (m + 1)).filter fun x => 1 < x ∧ P.Coprime x) = coprimes P 2 (m - 1) := by
  cases m with
  | zero => rfl
  | succ m =>
    have hsplit : List.range (m + 1 + 1) = [0, 1] ++ List.range' 2 m := by
      rw [List.range_eq_range', List.range'_succ, List.range'_succ]
      rfl
    rw [hsplit, List.filter_append, Nat.add_sub_cancel, coprimes]
    have hnone : ([0, 1].filter fun x => 1 < x ∧ P.Coprime x) = [] := by simp
    rw [hnone, List.nil_append]
    refine List.filter_congr fun x hx => ?_
    have h2 : 1 < x := (List.mem_range'_1.1 hx).1
    simp [h2]

theorem totient_prod {L : List ℕ} (hprime : ∀ p ∈ L, p.Prime) (hnodup : L.Nodup) :
    L.prod.totient = (L.map (· - 1)).prod := by
  induction L with
  | nil => rfl
  | cons p L ih =>
    obtain ⟨hp, hnodup⟩ := List.nodup_cons.1 hnodup
    have hp' := hprime p List.mem_cons_self
    have hcoprime : p.Coprime L.prod := by
      rw [Nat.coprime_list_prod_right_iff]
      intro q hq
      rw [Nat.coprime_primes hp' (hprime q (List.mem_cons_of_mem _ hq))]
      rintro rfl
      exact hp hq
    rw [List.prod_cons, List.map_cons, List.prod_cons, Nat.totient_mul hcoprime, Nat.totient_prime hp',
      ih (fun q hq => hprime q (List.mem_cons_of_mem _ hq)) hnodup]

end Wheel

end ProcessNetwork
