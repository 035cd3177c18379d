import Mathlib.Tactic

/-!
# Cells that were written or not

A list of cells of which some were never written (`none`).  What is read of such cells is known where they were written:
`Shows values cells`.
-/

namespace ProcessNetwork

variable {α ι : Type}

/-- The values are those in the cells, as far as these were written. -/
def Shows (values : List α) (cells : List (Option α)) : Prop :=
  values.length = cells.length ∧ ∀ (i : Nat) (b : α), cells[i]? = some (some b) → values[i]? = some b

theorem shows_nil : Shows (α := α) [] [] := ⟨rfl, fun _ _ h => by cases h⟩

private theorem Shows.append {values values' : List α} {cells cells' : List (Option α)} (h : Shows values cells)
    (h' : Shows values' cells') : Shows (values ++ values') (cells ++ cells') := by
  refine ⟨by rw [List.length_append, List.length_append, h.1, h'.1], fun i b hi => ?_⟩
  by_cases hlt : i < cells.length
  · rw [List.getElem?_append_left hlt] at hi
    rw [List.getElem?_append_left (h.1 ▸ hlt)]
    exact h.2 i b hi
  · rw [List.getElem?_append_right (by omega)] at hi
    rw [List.getElem?_append_right (by rw [h.1]; omega), h.1]
    exact h'.2 _ b hi

/-- Cells that were all written can be read in one way. -/
theorem Shows.eq {values values' : List α} {cells : List (Option α)} (h : Shows values cells) (h' : Shows values' cells)
    (hwritten : none ∉ cells) : values = values' := by
  apply List.ext_getElem?
  intro i
  by_cases hi : i < cells.length
  · obtain ⟨b, hb⟩ : ∃ b, cells[i] = some b :=
      Option.ne_none_iff_exists'.1 fun hnone => hwritten (hnone ▸ List.getElem_mem hi)
    have hcell : cells[i]? = some (some b) := by rw [List.getElem?_eq_getElem hi, hb]
    rw [h.2 i b hcell, h'.2 i b hcell]
  · rw [List.getElem?_eq_none (by rw [h.1]; omega), List.getElem?_eq_none (by rw [h'.1]; omega)]

/-- What is read in two pieces. -/
theorem forall₂_shows_zipWith {f g : ι → List (Option α)} {chans : List ι} {reads rest : List (List α)}
    (h : List.Forall₂ (fun values c => Shows values (f c)) reads chans)
    (h' : List.Forall₂ (fun values c => Shows values (g c)) rest chans) :
    List.Forall₂ (fun values c => Shows values (f c ++ g c)) (List.zipWith (· ++ ·) reads rest) chans := by
  induction h generalizing rest with
  | nil =>
    cases h'
    exact .nil
  | cons hr _ ih =>
    cases h' with
    | cons hr' h' => exact .cons (hr.append hr') (ih h')

/-- What was written is read in one way. -/
theorem forall₂_shows_eq {f : ι → List (Option α)} {chans : List ι} {reads reads' : List (List α)}
    (h : List.Forall₂ (fun values c => Shows values (f c)) reads chans)
    (h' : List.Forall₂ (fun values c => Shows values (f c)) reads' chans) (hwritten : ∀ c ∈ chans, none ∉ f c) :
    reads = reads' := by
  induction h generalizing reads' with
  | nil =>
    cases h'
    rfl
  | cons hr _ ih =>
    rw [List.forall_mem_cons] at hwritten
    cases h' with
    | cons hr' h' => rw [hr.eq hr' hwritten.1, ih h' hwritten.2]

end ProcessNetwork
