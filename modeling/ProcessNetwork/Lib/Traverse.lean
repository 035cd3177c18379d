import Mathlib.Data.List.Forall2
import Mathlib.Tactic

/-!
# Lists of partial results

A partial function on each element of a list, as `List.mapM` does it for `Option`.
-/

namespace ProcessNetwork

variable {α β γ : Type} {f : α → Option β} {l : List α}

theorem mapM_eq_some_iff {ys : List β} : l.mapM f = some ys ↔ List.Forall₂ (fun x y => f x = some y) l ys := by
  induction l generalizing ys with
  | nil => simp [eq_comm]
  | cons x l ih =>
    simp only [List.mapM_cons, Option.bind_eq_bind, Option.bind_eq_some_iff, Option.pure_def, Option.some.injEq, ih]
    constructor
    · rintro ⟨y, hy, ys, hys, rfl⟩
      exact .cons hy hys
    · rintro (_ | ⟨hy, hys⟩)
      exact ⟨_, hy, _, hys, rfl⟩

theorem mapM_eq_map_mapM {g : α → Option γ} {h : γ → β} (hfg : ∀ x ∈ l, f x = (g x).map h) :
    l.mapM f = (l.mapM g).map (List.map h) := by
  induction l with
  | nil => rfl
  | cons x l ih =>
    rw [List.forall_mem_cons] at hfg
    rw [List.mapM_cons, List.mapM_cons, hfg.1, ih hfg.2]
    cases g x with
    | none => rfl
    | some y => cases l.mapM g <;> rfl

theorem exists_mapM (h : ∀ x ∈ l, ∃ y, f x = some y) : ∃ ys, l.mapM f = some ys := by
  induction l with
  | nil => exact ⟨[], rfl⟩
  | cons x l ih =>
    rw [List.forall_mem_cons] at h
    obtain ⟨⟨y, hy⟩, h⟩ := h
    obtain ⟨ys, hys⟩ := ih h
    exact ⟨y :: ys, by rw [List.mapM_cons, hy, hys]; rfl⟩

/-- When what is paired agrees, all of the one list have a property just if all of the other do. -/
theorem forall_mem_iff_of_forall₂ {l' : List β} {P : α → Prop} {Q : β → Prop}
    (h : List.Forall₂ (fun x y => P x ↔ Q y) l l') : (∀ x ∈ l, P x) ↔ ∀ y ∈ l', Q y := by
  induction h with
  | nil => simp
  | cons hxy _ ih => rw [List.forall_mem_cons, List.forall_mem_cons, hxy, ih]

theorem forall_mem_of_forall₂ {l' : List β} {P : α → Prop} (h : List.Forall₂ (fun x _ => P x) l l') : ∀ x ∈ l, P x := by
  induction h with
  | nil => simp
  | cons hx _ ih => exact List.forall_mem_cons.2 ⟨hx, ih⟩

theorem forall₂_iff_forall_mem {l' : List β} {R : α → β → Prop} {P : α → Prop}
    (h : List.Forall₂ (fun x y => R x y ↔ P x) l l') : List.Forall₂ R l l' ↔ ∀ x ∈ l, P x := by
  induction h with
  | nil => simp
  | cons hxy _ ih => rw [List.forall₂_cons, List.forall_mem_cons, hxy, ih]

end ProcessNetwork
