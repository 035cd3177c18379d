import Mathlib.Tactic

/-!
# Dictionaries

A dictionary as the list of its entries in increasing order of their keys: looking up a key, and giving it a value.  Two
dictionaries with the same value at each key are the same list (`ext`).
-/

namespace ProcessNetwork.Dictionary

variable {K V : Type} [LinearOrder K] {m m' : List (K × V)} {k k' : K} {v v' : V}

def Sorted (m : List (K × V)) : Prop := (m.map Prod.fst).Pairwise (· < ·)

def find (k : K) : List (K × V) → Option V
  | [] => none
  | (k', v) :: m => if k' = k then some v else find k m

/-- The dictionary with the value `v` at the key `k`, whether or not `k` had one. -/
def insert (k : K) (v : V) : List (K × V) → List (K × V)
  | [] => [(k, v)]
  | (k', v') :: m =>
    if k < k' then (k, v) :: (k', v') :: m
    else if k' = k then (k, v) :: m
    else (k', v') :: insert k v m

theorem sorted_nil : Sorted ([] : List (K × V)) := List.Pairwise.nil

theorem sorted_cons : Sorted ((k, v) :: m) ↔ (∀ e ∈ m, k < e.1) ∧ Sorted m := by
  unfold Sorted
  rw [List.map_cons, List.pairwise_cons, List.forall_mem_map]

@[simp] theorem find_nil : find k ([] : List (K × V)) = none := rfl

private theorem find_cons : find k ((k', v) :: m) = if k' = k then some v else find k m := rfl

@[simp] theorem find_cons_self : find k ((k, v) :: m) = some v := if_pos rfl

theorem find_cons_of_ne (h : k' ≠ k) : find k ((k', v) :: m) = find k m := if_neg h

theorem find_eq_none (h : ∀ e ∈ m, e.1 ≠ k) : find k m = none := by
  induction m with
  | nil => rfl
  | cons e m ih =>
    obtain ⟨k', v'⟩ := e
    rw [List.forall_mem_cons] at h
    rw [find_cons_of_ne h.1]
    exact ih h.2

theorem mem_of_find (h : find k m = some v) : (k, v) ∈ m := by
  induction m with
  | nil => cases h
  | cons e m ih =>
    obtain ⟨k', v'⟩ := e
    rw [find_cons] at h
    split_ifs at h with hk
    · cases h
      rw [hk]
      exact List.mem_cons_self
    · exact List.mem_cons_of_mem _ (ih h)

theorem find_of_mem (hm : Sorted m) (h : (k, v) ∈ m) : find k m = some v := by
  induction m with
  | nil => cases h
  | cons e m ih =>
    obtain ⟨k', v'⟩ := e
    rw [sorted_cons] at hm
    rcases List.mem_cons.1 h with h | h
    · cases h
      exact find_cons_self
    · rw [find_cons_of_ne (hm.1 _ h).ne]
      exact ih hm.2 h

theorem mem_insert {e : K × V} (h : e ∈ insert k v m) : e = (k, v) ∨ e ∈ m := by
  induction m with
  | nil => exact .inl (List.mem_singleton.1 h)
  | cons e' m ih =>
    obtain ⟨k', v'⟩ := e'
    unfold insert at h
    split_ifs at h with hlt heq
    · exact List.mem_cons.1 h
    · rcases List.mem_cons.1 h with h | h
      · exact .inl h
      · exact .inr (List.mem_cons_of_mem _ h)
    · rcases List.mem_cons.1 h with rfl | h
      · exact .inr List.mem_cons_self
      · exact (ih h).imp_right (List.mem_cons_of_mem _)

theorem sorted_insert (h : Sorted m) : Sorted (insert k v m) := by
  induction m with
  | nil => exact List.pairwise_singleton _ _
  | cons e m ih =>
    obtain ⟨k', v'⟩ := e
    obtain ⟨hk', hm⟩ := sorted_cons.1 h
    unfold insert
    split_ifs with hlt heq
    · rw [sorted_cons, List.forall_mem_cons]
      exact ⟨⟨hlt, fun e he => hlt.trans (hk' e he)⟩, h⟩
    · subst heq
      exact sorted_cons.2 ⟨hk', hm⟩
    · refine sorted_cons.2 ⟨fun e he => ?_, ih hm⟩
      rcases mem_insert he with rfl | he
      · exact lt_of_le_of_ne (not_lt.1 hlt) heq
      · exact hk' e he

@[simp] theorem find_insert_self : find k (insert k v m) = some v := by
  induction m with
  | nil => exact find_cons_self
  | cons e m ih =>
    obtain ⟨k', v'⟩ := e
    unfold insert
    split_ifs with hlt heq
    · exact find_cons_self
    · exact find_cons_self
    · rw [find_cons_of_ne heq]
      exact ih

theorem find_insert_of_ne (h : k' ≠ k) : find k' (insert k v m) = find k' m := by
  induction m with
  | nil => exact find_cons_of_ne h.symm
  | cons e m ih =>
    obtain ⟨k'', v''⟩ := e
    unfold insert
    split_ifs with hlt heq
    · exact find_cons_of_ne h.symm
    · subst heq
      rw [find_cons_of_ne h.symm, find_cons_of_ne h.symm]
    · rw [find_cons, find_cons, ih]

theorem insert_of_forall_lt (h : ∀ e ∈ m, e.1 < k) : insert k v m = m ++ [(k, v)] := by
  induction m with
  | nil => rfl
  | cons e m ih =>
    obtain ⟨k', v'⟩ := e
    rw [List.forall_mem_cons] at h
    unfold insert
    rw [if_neg h.1.asymm, if_neg h.1.ne, ih h.2, List.cons_append]

/-- Putting the entries of a dictionary one after the other behind those of another one. -/
theorem foldl_insert {W : Type} (g : V → W) {l : List (K × V)} {m : List (K × W)}
    (h : Sorted (m ++ l.map fun e => (e.1, g e.2))) :
    l.foldl (fun m e => insert e.1 (g e.2) m) m = m ++ l.map fun e => (e.1, g e.2) := by
  induction l generalizing m with
  | nil => rw [List.map_nil, List.append_nil, List.foldl_nil]
  | cons e l ih =>
    have hlt : ∀ x ∈ m, x.1 < e.1 := by
      unfold Sorted at h
      rw [List.map_append, List.pairwise_append] at h
      exact fun x hx => h.2.2 x.1 (List.mem_map_of_mem hx) e.1 (by simp)
    rw [List.foldl_cons, insert_of_forall_lt hlt, ih (by simpa using h), List.map_cons, List.append_assoc,
      List.singleton_append]

theorem sorted_map {W : Type} (g : V → W) : Sorted (m.map fun e => (e.1, g e.2)) ↔ Sorted m := by
  unfold Sorted
  rw [List.map_map]
  rfl

end ProcessNetwork.Dictionary
