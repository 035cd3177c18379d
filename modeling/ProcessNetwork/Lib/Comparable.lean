import Mathlib.Data.List.Infix
import Mathlib.Tactic

/-!
# Comparable lists

Two lists of which one is the beginning of the other: what two runs of something deterministic have done.
-/

namespace ProcessNetwork

variable {ε σ : Type} {l l' : List ε} {e : ε}

def Comparable (l l' : List ε) : Prop := l <+: l' ∨ l' <+: l

/-- The longer list goes on as the shorter one is continued. -/
theorem Comparable.concat (h : Comparable l l') (hnext : ∀ e' rest, l' = l ++ e' :: rest → e = e') :
    Comparable (l ++ [e]) l' := by
  obtain ⟨rest, rfl⟩ | h := h
  · cases rest with
    | nil =>
      rw [List.append_nil]
      exact .inr (List.prefix_append l [e])
    | cons e' rest =>
      rw [hnext e' rest rfl]
      exact .inl ⟨rest, by rw [List.append_assoc, List.singleton_append]⟩
  · exact .inr (h.trans (List.prefix_append l [e]))

section Foldl

variable {r : σ → σ → Prop} {f : σ → ε → σ}

/-- A relation along which every element moves orders what a list and its beginning lead to. -/
theorem foldl_of_begins (hrefl : ∀ s, r s s) (htrans : ∀ s t u, r s t → r t u → r s u) (hf : ∀ s e, r s (f s e))
    (h : l <+: l') (s : σ) : r (l.foldl f s) (l'.foldl f s) := by
  have hle (l : List ε) (s : σ) : r s (l.foldl f s) := by
    induction l generalizing s with
    | nil => exact hrefl s
    | cons e l ih => exact htrans _ _ _ (hf s e) (ih _)
  obtain ⟨rest, rfl⟩ := h
  rw [List.foldl_append]
  exact hle rest _

end Foldl

end ProcessNetwork
