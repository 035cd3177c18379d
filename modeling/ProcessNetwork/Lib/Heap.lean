import Mathlib.Data.List.Basic
import Mathlib.Tactic.SplitIfs

/-!
# Heaps in a vector

`push_heap`, `pop_heap` and `make_heap` as the standard library of GCC computes them, with the comparison `lt`.  The
vector is a
list, the parent of the position `i` is `(i - 1) / 2`, and no element is below one of its children (`IsHeap`).

The functions move a hole.  `Off top l hole` says that the order holds at the pairs of positions that do not touch the hole,
from the position `top` on, and across the hole; it is kept on the way down (`Off.down`) and on the way up (`Off.up`).
`pop_heap` does not look at the first element, so that it makes a heap also when the first element has been changed
(`isHeap_popHeap`).
-/

namespace Heap

variable {α : Type*} {lt : α → α → Bool}

/-! ### The functions -/

section Functions

variable (lt)

/-- `__push_heap`: the parents that are less than `value` move down into the hole. -/
def pushHole (l : List α) (hole top : ℕ) (value : α) (h : hole < l.length) : List α :=
  if htop : top < hole then
    if lt (getElem l ((hole - 1) / 2) (by omega)) value = true then
      pushHole (l.set hole (getElem l ((hole - 1) / 2) (by omega))) ((hole - 1) / 2) top value
        (by rw [List.length_set]; omega)
    else l.set hole value
  else l.set hole value
termination_by hole
decreasing_by omega

/-- `__adjust_heap`: the hole moves down along the larger children to the end, and `value` is pushed from there. -/
def adjustHeap (l : List α) (hole top : ℕ) (value : α) (h : hole < l.length) : List α :=
  if hright : 2 * (hole + 1) < l.length then
    if lt l[2 * (hole + 1)] l[2 * hole + 1] = true then
      adjustHeap (l.set hole l[2 * hole + 1]) (2 * hole + 1) top value (by rw [List.length_set]; omega)
    else
      adjustHeap (l.set hole l[2 * (hole + 1)]) (2 * (hole + 1)) top value (by rw [List.length_set]; omega)
  else if hleft : 2 * (hole + 1) = l.length then
    pushHole lt (l.set hole l[2 * hole + 1]) (2 * hole + 1) top value (by rw [List.length_set]; omega)
  else pushHole lt l hole top value h
termination_by l.length - hole
decreasing_by
  all_goals
    rw [List.length_set]
    omega

/-- `push_heap`. -/
def pushHeap (l : List α) : List α :=
  if h : l = [] then []
  else pushHole lt l (l.length - 1) 0 (l.getLast h) (by have := List.length_pos_iff.2 h; omega)

/-- `pop_heap`: the first element goes to the end, and the last one is the value for the hole in the others. -/
def popHeap (l : List α) : List α :=
  if h : 1 < l.length then
    adjustHeap lt l.dropLast 0 0 (l.getLast (List.ne_nil_of_length_pos (by omega))) (by rw [List.length_dropLast]; omega) ++
      [l[0]]
  else l

end Functions

/-! ### The elements -/

/-- Two holes, the second with `value` in it. -/
private theorem set_set_perm {l : List α} {i j : ℕ} (hi : i < l.length) (hj : j < l.length) (hij : i ≠ j) (value : α) :
    ((l.set i l[j]).set j value).Perm (l.set i value) := by
  have hi' : i < (l.set i value).length := by rwa [List.length_set]
  have hj' : j < (l.set i value).length := by rwa [List.length_set]
  have h := List.set_set_perm hi' hj'
  rwa [List.getElem_set_self, List.getElem_set_of_ne hij, List.set_set] at h

private theorem pushHole_perm (l : List α) (hole top : ℕ) (value : α) (h : hole < l.length) :
    (pushHole lt l hole top value h).Perm (l.set hole value) := by
  induction l, hole, h using pushHole.induct lt top value with
  | case1 l hole h htop hlt ih =>
    rw [pushHole, dif_pos htop, if_pos hlt]
    exact ih.trans (set_set_perm h (by omega) (by omega) value)
  | case2 l hole h htop hlt =>
    rw [pushHole, dif_pos htop, if_neg hlt]
  | case3 l hole h htop =>
    rw [pushHole, dif_neg htop]

private theorem adjustHeap_perm (l : List α) (hole top : ℕ) (value : α) (h : hole < l.length) :
    (adjustHeap lt l hole top value h).Perm (l.set hole value) := by
  induction l, hole, h using adjustHeap.induct lt with
  | case1 l hole h hright hlt ih =>
    rw [adjustHeap, dif_pos hright, if_pos hlt]
    exact ih.trans (set_set_perm h (by omega) (by omega) value)
  | case2 l hole h hright hlt ih =>
    rw [adjustHeap, dif_pos hright, if_neg hlt]
    exact ih.trans (set_set_perm h (by omega) (by omega) value)
  | case3 l hole h hright hleft =>
    rw [adjustHeap, dif_neg hright, dif_pos hleft]
    exact (pushHole_perm _ _ _ _ _).trans (set_set_perm h (by omega) (by omega) value)
  | case4 l hole h hright hleft =>
    rw [adjustHeap, dif_neg hright, dif_neg hleft]
    exact pushHole_perm _ _ _ _ _

@[simp]
theorem length_adjustHeap (l : List α) (hole top : ℕ) (value : α) (h : hole < l.length) :
    (adjustHeap lt l hole top value h).length = l.length := by
  rw [(adjustHeap_perm l hole top value h).length_eq, List.length_set]

variable (lt) in
/-- The loop of `make_heap`, with `parent` the number of positions left. -/
def makeHeapLoop (l : List α) : (parent : ℕ) → parent ≤ l.length → List α
  | 0, _ => l
  | parent + 1, h =>
    makeHeapLoop (adjustHeap lt l parent parent l[parent] h) parent
      ((length_adjustHeap ..).symm ▸ Nat.le_of_succ_le h)

variable (lt) in
/-- `make_heap`. -/
def makeHeap (l : List α) : List α := makeHeapLoop lt l (l.length / 2) (Nat.div_le_self _ _)

theorem pushHeap_perm (l : List α) : (pushHeap lt l).Perm l := by
  unfold pushHeap
  split_ifs with h
  · rw [h]
  · refine (pushHole_perm _ _ _ _ _).trans ?_
    rw [List.getLast_eq_getElem, List.set_getElem_self]

theorem popHeap_perm (l : List α) : (popHeap lt l).Perm l := by
  unfold popHeap
  split_ifs with h
  · obtain ⟨a, l, rfl⟩ := List.exists_cons_of_length_pos (Nat.zero_lt_of_lt h)
    obtain ⟨b, l, rfl⟩ := List.exists_cons_of_length_pos (Nat.lt_of_succ_lt_succ h)
    refine ((adjustHeap_perm _ _ _ _ _).append_right _).trans ?_
    rw [List.dropLast_cons_cons, List.set_cons_zero, List.getElem_cons_zero, List.getLast_cons (List.cons_ne_nil _ _)]
    refine List.perm_append_comm.trans (List.Perm.cons a ?_)
    have hlast (c : α) (m : List α) : (c :: m).Perm (m ++ [c]) := (List.perm_append_singleton c m).symm
    refine (hlast _ _).trans ?_
    rw [List.dropLast_concat_getLast]
  · rfl

private theorem makeHeapLoop_perm (l : List α) (parent : ℕ) (h : parent ≤ l.length) :
    (makeHeapLoop lt l parent h).Perm l := by
  induction parent generalizing l with
  | zero => rfl
  | succ parent ih =>
    refine (ih _ _).trans ((adjustHeap_perm _ _ _ _ _).trans ?_)
    rw [List.set_getElem_self]

theorem makeHeap_perm (l : List α) : (makeHeap lt l).Perm l :=
  makeHeapLoop_perm _ _ _

/-! ### The order -/

/-- What the functions need of a comparison. -/
structure StrictWeak (lt : α → α → Bool) : Prop where
  asymm : ∀ {a b}, lt a b = true → lt b a = false
  trans : ∀ {a b c}, lt a b = false → lt b c = false → lt a c = false

private theorem StrictWeak.irrefl (hlt : StrictWeak lt) (a : α) : lt a a = false := by
  by_contra h
  have h' := eq_true_of_ne_false h
  exact h (hlt.asymm h')

variable {l : List α} {hole top : ℕ} {value : α}

section Order

variable (lt)

/-- No element from the position `top` on is less than one of its children. -/
def IsHeapFrom (top : ℕ) (l : List α) : Prop :=
  ∀ i (h : i < l.length), 0 < i → top ≤ (i - 1) / 2 → lt (getElem l ((i - 1) / 2) (by omega)) l[i] = false

def IsHeap (l : List α) : Prop := IsHeapFrom lt 0 l

/-- The order at the pairs of positions without the hole, and between the parent and the children of the hole. -/
structure Off (top : ℕ) (l : List α) (hole : ℕ) : Prop where
  pairs : ∀ i (h : i < l.length), 0 < i → top ≤ (i - 1) / 2 → i ≠ hole → (i - 1) / 2 ≠ hole →
    lt (getElem l ((i - 1) / 2) (by omega)) l[i] = false
  across : top < hole → ∀ i (h : i < l.length), 0 < i → (hp : (i - 1) / 2 = hole) →
    lt (getElem l ((hole - 1) / 2) (by omega)) l[i] = false

end Order

/-- The positions under `top`. -/
inductive Under (top : ℕ) : ℕ → Prop where
  | top : Under top top
  | child {i : ℕ} : 0 < i → Under top ((i - 1) / 2) → Under top i

private theorem Under.le {i : ℕ} (h : Under top i) : top ≤ i := by
  induction h with
  | top => exact Nat.le_refl _
  | child _ _ ih => omega

private theorem Under.parent (h : Under top hole) (hne : top < hole) : Under top ((hole - 1) / 2) := by
  cases h with
  | top => exact absurd hne (Nat.lt_irrefl _)
  | child _ h => exact h

private theorem IsHeapFrom.off (h : IsHeapFrom lt (top + 1) l) : Off lt top l top where
  pairs := fun i hi h0 htop _ hne => h i hi h0 (by omega)
  across := fun hlt => absurd hlt (Nat.lt_irrefl _)

/-- The hole moves to a child that is not less than the other one. -/
theorem Off.down (ho : Off lt top l hole) (hu : Under top hole) {c : ℕ} (hc : c < l.length) (h0 : 0 < c)
    (hpar : (c - 1) / 2 = hole)
    (hmax : ∀ i (h : i < l.length), 0 < i → (i - 1) / 2 = hole → lt l[c] l[i] = false) :
    Off lt top (l.set hole l[c]) c := by
  have hhole : hole < l.length := by omega
  constructor
  · intro i hi hi0 htop hic hpc
    rw [List.length_set] at hi
    by_cases hih : i = hole
    · subst hih
      rw [List.getElem_set_self, List.getElem_set_of_ne (by omega)]
      exact ho.across (by omega) c hc h0 hpar
    · rw [List.getElem_set_of_ne (Ne.symm hih)]
      by_cases hph : (i - 1) / 2 = hole
      · simp only [hph, List.getElem_set_self]
        exact hmax i hi hi0 hph
      · rw [List.getElem_set_of_ne (Ne.symm hph)]
        exact ho.pairs i hi hi0 htop hih hph
  · intro _ i hi hi0 hpi
    rw [List.length_set] at hi
    have hle := hu.le
    simp only [hpar, List.getElem_set_self]
    rw [List.getElem_set_of_ne (by omega)]
    have h := ho.pairs i hi hi0 (by omega) (by omega) (by omega)
    simpa only [hpi] using h

/-- The hole moves to its parent, which is less than the value. -/
theorem Off.up (hlt : StrictWeak lt) (ho : Off lt top l hole) (hu : Under top hole) (hne : top < hole)
    (hhole : hole < l.length) (hless : lt (getElem l ((hole - 1) / 2) (by omega)) value = true) :
    Off lt top (l.set hole (getElem l ((hole - 1) / 2) (by omega))) ((hole - 1) / 2) ∧
      ∀ i (h : i < (l.set hole (getElem l ((hole - 1) / 2) (by omega))).length), 0 < i → (i - 1) / 2 = (hole - 1) / 2 →
        lt value (l.set hole (getElem l ((hole - 1) / 2) (by omega)))[i] = false := by
  have hq := (hu.parent hne).le
  have hsibling : ∀ i (h : i < l.length), 0 < i → (i - 1) / 2 = (hole - 1) / 2 → i ≠ hole →
      lt (getElem l ((hole - 1) / 2) (by omega)) l[i] = false := by
    intro i hi hi0 hpi hih
    have h := ho.pairs i hi hi0 (by omega) hih (by omega)
    simpa only [hpi] using h
  refine ⟨⟨?_, ?_⟩, ?_⟩
  · intro i hi hi0 htop hiq hpq
    rw [List.length_set] at hi
    have hih : i ≠ hole := fun h => hpq (by rw [h])
    rw [List.getElem_set_of_ne (Ne.symm hih)]
    by_cases hph : (i - 1) / 2 = hole
    · simp only [hph, List.getElem_set_self]
      exact ho.across hne i hi hi0 hph
    · rw [List.getElem_set_of_ne (Ne.symm hph)]
      exact ho.pairs i hi hi0 htop hih hph
  · intro hqtop i hi hi0 hpi
    rw [List.length_set] at hi
    have hgrand := ho.pairs ((hole - 1) / 2) (by omega) (by omega) (by have := ((hu.parent hne).parent hqtop).le; omega)
      (by omega) (by omega)
    rw [List.getElem_set_of_ne (by omega)]
    by_cases hih : i = hole
    · subst hih
      rw [List.getElem_set_self]
      exact hgrand
    · rw [List.getElem_set_of_ne (Ne.symm hih)]
      exact hlt.trans hgrand (hsibling i hi hi0 hpi hih)
  · intro i hi hi0 hpi
    rw [List.length_set] at hi
    by_cases hih : i = hole
    · subst hih
      rw [List.getElem_set_self]
      exact hlt.asymm hless
    · rw [List.getElem_set_of_ne (Ne.symm hih)]
      exact hlt.trans (hlt.asymm hless) (hsibling i hi hi0 hpi hih)

/-- The value goes into a hole whose parent is not less. -/
theorem Off.fill (ho : Off lt top l hole)
    (hparent : top < hole → ∀ h : hole < l.length, lt (getElem l ((hole - 1) / 2) (by omega)) value = false)
    (hchild : ∀ i (h : i < l.length), 0 < i → (i - 1) / 2 = hole → lt value l[i] = false) :
    IsHeapFrom lt top (l.set hole value) := by
  intro i hi' hi0 htop
  have hi := hi'
  rw [List.length_set] at hi
  by_cases hih : i = hole
  · subst hih
    rw [List.getElem_set_self, List.getElem_set_of_ne (by omega)]
    exact hparent (by omega) hi
  · rw [List.getElem_set_of_ne (Ne.symm hih)]
    by_cases hph : (i - 1) / 2 = hole
    · simp only [hph, List.getElem_set_self]
      exact hchild i hi hi0 hph
    · rw [List.getElem_set_of_ne (Ne.symm hph)]
      exact ho.pairs i hi hi0 htop hih hph

private theorem isHeapFrom_pushHole (hlt : StrictWeak lt) (h : hole < l.length) (ho : Off lt top l hole)
    (hu : Under top hole)
    (hchild : ∀ i (h : i < l.length), 0 < i → (i - 1) / 2 = hole → lt value l[i] = false) :
    IsHeapFrom lt top (pushHole lt l hole top value h) := by
  induction l, hole, h using pushHole.induct lt top value with
  | case1 l hole h htop hless ih =>
    rw [pushHole, dif_pos htop, if_pos hless]
    obtain ⟨ho', hchild'⟩ := ho.up hlt hu htop h hless
    exact ih ho' (hu.parent htop) hchild'
  | case2 l hole h htop hless =>
    rw [pushHole, dif_pos htop, if_neg hless]
    exact ho.fill (fun _ _ => eq_false_of_ne_true hless) hchild
  | case3 l hole h htop =>
    rw [pushHole, dif_neg htop]
    exact ho.fill (fun htop' => absurd htop' htop) hchild

private theorem child_eq {i : ℕ} (h0 : 0 < i) (hp : (i - 1) / 2 = hole) : i = 2 * hole + 1 ∨ i = 2 * (hole + 1) := by
  omega

private theorem isHeapFrom_adjustHeap (hlt : StrictWeak lt) (h : hole < l.length) (ho : Off lt top l hole)
    (hu : Under top hole) : IsHeapFrom lt top (adjustHeap lt l hole top value h) := by
  induction l, hole, h using adjustHeap.induct lt with
  | case1 l hole h hright hless ih =>
    rw [adjustHeap, dif_pos hright, if_pos hless]
    refine ih (ho.down hu (by omega) (by omega) (by omega) ?_)
      (.child (by omega) (by rwa [show (2 * hole + 1 - 1) / 2 = hole by omega]))
    intro i hi hi0 hp
    obtain rfl | rfl := child_eq hi0 hp
    · exact hlt.irrefl _
    · exact hlt.asymm hless
  | case2 l hole h hright hless ih =>
    rw [adjustHeap, dif_pos hright, if_neg hless]
    refine ih (ho.down hu (by omega) (by omega) (by omega) ?_)
      (.child (by omega) (by rwa [show (2 * (hole + 1) - 1) / 2 = hole by omega]))
    intro i hi hi0 hp
    obtain rfl | rfl := child_eq hi0 hp
    · exact eq_false_of_ne_true hless
    · exact hlt.irrefl _
  | case3 l hole h hright hleft =>
    rw [adjustHeap, dif_neg hright, dif_pos hleft]
    refine isHeapFrom_pushHole hlt _ (ho.down hu (by omega) (by omega) (by omega) ?_)
      (.child (by omega) (by rwa [show (2 * hole + 1 - 1) / 2 = hole by omega])) ?_
    · intro i hi hi0 hp
      obtain rfl | rfl := child_eq hi0 hp
      · exact hlt.irrefl _
      · omega
    · intro i hi hi0 hp
      rw [List.length_set] at hi
      omega
  | case4 l hole h hright hleft =>
    rw [adjustHeap, dif_neg hright, dif_neg hleft]
    refine isHeapFrom_pushHole hlt _ ho hu ?_
    intro i hi hi0 hp
    omega

private theorem under_zero (i : ℕ) : Under 0 i := by
  induction i using Nat.strongRecOn with
  | ind i ih =>
    obtain rfl | h := Nat.eq_zero_or_pos i
    · exact .top
    · exact .child h (ih _ (by omega))

/-- The vector is a heap up to the last element. -/
theorem isHeap_pushHeap (hlt : StrictWeak lt) (h : IsHeap lt l.dropLast) : IsHeap lt (pushHeap lt l) := by
  unfold pushHeap
  split_ifs with hnil
  · intro i hi
    cases hi
  · have hpos := List.length_pos_iff.2 hnil
    refine isHeapFrom_pushHole hlt _ ⟨?_, fun _ i hi hi0 hp => by omega⟩ (under_zero _) fun i hi hi0 hp => by omega
    intro i hi hi0 htop hne _
    have hpair := h i (by rw [List.length_dropLast]; omega) hi0 htop
    rwa [List.getElem_dropLast, List.getElem_dropLast] at hpair

theorem isHeap_push (hlt : StrictWeak lt) (h : IsHeap lt l) (a : α) : IsHeap lt (pushHeap lt (l ++ [a])) :=
  isHeap_pushHeap hlt (by rwa [List.dropLast_concat])

private theorem IsHeapFrom.dropLast (h : IsHeapFrom lt top l) : IsHeapFrom lt top l.dropLast := by
  intro i hi hi0 htop
  rw [List.getElem_dropLast, List.getElem_dropLast]
  exact h i (by rw [List.length_dropLast] at hi; omega) hi0 htop

/-- The first element may be anything: it goes to the end, and the others become a heap. -/
theorem popHeap_eq (hlt : StrictWeak lt) (a : α) (h : IsHeapFrom lt 1 (a :: l)) :
    ∃ l', popHeap lt (a :: l) = l' ++ [a] ∧ IsHeap lt l' ∧ l'.Perm l := by
  obtain rfl | hne := eq_or_ne l []
  · exact ⟨[], rfl, fun i hi => (by cases hi), .refl _⟩
  · have hlen : 1 < (a :: l).length := by
      have := List.length_pos_iff.2 hne
      rw [List.length_cons]
      omega
    have hpop : (popHeap lt (a :: l)).Perm (a :: l) := popHeap_perm _
    unfold popHeap at hpop ⊢
    rw [dif_pos hlen] at hpop ⊢
    refine ⟨_, rfl, isHeapFrom_adjustHeap hlt _ h.dropLast.off .top, ?_⟩
    exact ((List.perm_append_comm.trans hpop).cons_inv)

private theorem isHeap_makeHeapLoop (hlt : StrictWeak lt) {parent : ℕ} (hparent : parent ≤ l.length)
    (h : IsHeapFrom lt parent l) : IsHeap lt (makeHeapLoop lt l parent hparent) := by
  induction parent generalizing l with
  | zero => exact h
  | succ parent ih => exact ih _ (isHeapFrom_adjustHeap hlt hparent h.off .top)

theorem isHeap_makeHeap (hlt : StrictWeak lt) (l : List α) : IsHeap lt (makeHeap lt l) := by
  refine isHeap_makeHeapLoop hlt _ ?_
  intro i hi hi0 htop
  omega

/-- Another element in the place of the first one. -/
theorem IsHeap.change_head {a : α} (h : IsHeap lt (a :: l)) (b : α) : IsHeapFrom lt 1 (b :: l) := by
  intro i hi h0 hparent
  have hpair := h i hi h0 (Nat.zero_le _)
  have hi' : i = i - 1 + 1 := by omega
  have hp : (i - 1) / 2 = (i - 1) / 2 - 1 + 1 := by omega
  simp only [List.getElem_cons, (show ¬ i = 0 by omega), (show ¬ (i - 1) / 2 = 0 by omega), dif_neg,
    not_false_eq_true] at hpair ⊢
  exact hpair

/-- No element of a heap is above the first one. -/
theorem IsHeap.root (hlt : StrictWeak lt) (h : IsHeap lt l) (i : ℕ) (hi : i < l.length) :
    lt (getElem l 0 (by omega)) l[i] = false := by
  induction i using Nat.strongRecOn with
  | ind i ih =>
    obtain rfl | h0 := Nat.eq_zero_or_pos i
    · exact hlt.irrefl _
    · exact hlt.trans (ih _ (by omega) (by omega)) (h i hi h0 (Nat.zero_le _))

theorem IsHeap.head (hlt : StrictWeak lt) {a b : α} (h : IsHeap lt (a :: l)) (hb : b ∈ a :: l) : lt a b = false := by
  obtain ⟨i, hi, rfl⟩ := List.getElem_of_mem hb
  exact h.root hlt i hi

end Heap
