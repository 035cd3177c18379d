import Mathlib.Data.List.DropRight

/-!
# Scanning backwards

A loop that goes back from a position while a test holds, and stops at the first position at the latest.  On the
elements of a
list it drops those at the end that have the property (`rdropWhile_take`).
-/

namespace ProcessNetwork

/-- `while (cur != 0 && test(cur)) --cur`. -/
def scanBack (test : ℕ → Bool) : ℕ → ℕ
  | 0 => 0
  | cur + 1 => if test (cur + 1) then scanBack test cur else cur + 1

variable {α : Type} {test : ℕ → Bool} {p : α → Bool} {l : List α} {cur : ℕ}

theorem scanBack_le (test : ℕ → Bool) (cur : ℕ) : scanBack test cur ≤ cur := by
  induction cur with
  | zero => exact le_refl 0
  | succ cur ih =>
    rw [scanBack]
    split_ifs
    · exact Nat.le_succ_of_le ih
    · exact le_refl _

/-- The loop stops at a position with the test only if it is the first one. -/
theorem scanBack_eq_zero (h : test (scanBack test cur) = true) : scanBack test cur = 0 := by
  induction cur with
  | zero => rfl
  | succ cur ih =>
    rw [scanBack] at h ⊢
    split_ifs at h ⊢ with htest
    · exact ih h
    · exact absurd h htest

/-- The elements up to a position, without those at the end that have the property. -/
theorem rdropWhile_take (htest : ∀ i (h : i < l.length), test i = p l[i]) (hcur : cur < l.length) :
    (l.take (cur + 1)).rdropWhile p =
      if test (scanBack test cur) then [] else l.take (scanBack test cur + 1) := by
  have htake (i : ℕ) (hi : i < l.length) : l.take (i + 1) = l.take i ++ [l[i]] := by
    rw [List.take_add_one, List.getElem?_eq_getElem hi, Option.toList_some]
  induction cur with
  | zero =>
    rw [scanBack, htest 0 hcur, htake 0 hcur, List.take_zero, List.nil_append, List.rdropWhile_singleton]
  | succ cur ih =>
    rw [htake (cur + 1) hcur, scanBack]
    have hlast := htest (cur + 1) hcur
    by_cases hp : p l[cur + 1] = true
    · have hgo : test (cur + 1) = true := hlast.trans hp
      rw [List.rdropWhile_concat_pos _ _ _ hp, if_pos hgo]
      exact ih (Nat.lt_of_succ_lt hcur)
    · have hstop : ¬ test (cur + 1) = true := fun h => hp (hlast.symm.trans h)
      rw [List.rdropWhile_concat_neg _ _ _ hp, if_neg hstop, if_neg hstop, htake (cur + 1) hcur]

/-- What is dropped from the end is what is left behind the rest. -/
theorem rtakeWhile_eq_drop (p : α → Bool) (l : List α) : l.rtakeWhile p = l.drop (l.rdropWhile p).length := by
  have hdrop : (l.rdropWhile p ++ l.rtakeWhile p).drop (l.rdropWhile p).length = l.rtakeWhile p := List.drop_left
  rw [List.rdropWhile_append_rtakeWhile] at hdrop
  exact hdrop.symm

end ProcessNetwork
