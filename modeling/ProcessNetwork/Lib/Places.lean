import Mathlib.Tactic

/-!
# Lists of places

A list of the places of the threads of a system, or of the states of its parties, one of which changes in a step: what the
changed list holds, and how it is counted.
-/

namespace ProcessNetwork

variable {α β : Type} {l : List α} {a b x : α} {i j : Nat}

theorem getElem?_set_cases (h : (l.set i b)[j]? = some x) : j = i ∧ x = b ∨ j ≠ i ∧ l[j]? = some x := by
  by_cases hij : i = j
  · subst hij
    obtain ⟨hi, hx⟩ := List.getElem?_eq_some_iff.1 h
    rw [List.getElem_set_self] at hx
    exact .inl ⟨rfl, hx.symm⟩
  · rw [List.getElem?_set_ne hij] at h
    exact .inr ⟨Ne.symm hij, h⟩

theorem getElem?_set_of_eq_some (b : α) (h : l[i]? = some a) : (l.set i b)[i]? = some b :=
  List.getElem?_set_self (List.getElem?_eq_some_iff.1 h).1

theorem getElem?_append_singleton_cases (h : (l ++ [b])[j]? = some x) : j = l.length ∧ x = b ∨ l[j]? = some x := by
  rcases lt_trichotomy j l.length with hj | rfl | hj
  · rw [List.getElem?_append_left hj] at h
    exact .inr h
  · rw [List.getElem?_concat_length] at h
    cases h
    exact .inl ⟨rfl, rfl⟩
  · rw [List.getElem?_eq_none (by rw [List.length_append, List.length_singleton]; omega)] at h
    cases h

theorem count_filterMap_set [DecidableEq β] {f : α → Option β} (b : α) (x : β) (h : l[i]? = some a) :
    ((l.set i b).filterMap f).count x + (f a).toList.count x = (l.filterMap f).count x + (f b).toList.count x := by
  induction l generalizing i with
  | nil => cases h
  | cons c l ih =>
    have hcons (y : α) (l : List α) : ((y :: l).filterMap f).count x = (f y).toList.count x + (l.filterMap f).count x := by
      rw [List.filterMap_cons]
      cases f y <;> simp [List.count_cons, Nat.add_comm]
    cases i with
    | zero =>
      cases h
      rw [List.set_cons_zero, hcons, hcons]
      omega
    | succ i =>
      have := ih h
      rw [List.set_cons_succ, hcons, hcons]
      omega

theorem countP_set_add {p : α → Bool} (b : α) (h : l[i]? = some a) :
    (l.set i b).countP p + (if p a then 1 else 0) = l.countP p + (if p b then 1 else 0) := by
  obtain ⟨hi, rfl⟩ := List.getElem?_eq_some_iff.1 h
  have hpos (hp : p l[i] = true) : 0 < l.countP p := List.countP_pos_iff.2 ⟨_, List.getElem_mem hi, hp⟩
  rw [List.countP_set hi]
  by_cases h1 : p l[i] = true
  · have := hpos h1
    simp only [h1, if_true]
    omega
  · simp only [h1, if_false, Bool.false_eq_true]
    omega

end ProcessNetwork
