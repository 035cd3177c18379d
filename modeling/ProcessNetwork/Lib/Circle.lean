import Mathlib.Data.List.Nodup
import Mathlib.Logic.Function.Iterate
import Mathlib.Tactic.SplitIfs

/-!
# Circles of links

Elements with a link to the next and one to the previous element, as in an intrusive ring.  `Circle k l` says that the
elements
of the list `l` are linked in this order, the last one to the first.  A circle may begin at any of its elements
(`circle_append_comm`), so that an operation at an element is proved for the circle that begins there: taking it out
(`Circle.unlink`) and putting another one after or before it (`Circle.insertAfter`, `Circle.insertBefore`).
-/

namespace ProcessNetwork

@[ext]
structure Links (ι : Type*) where
  next : ι → ι
  prev : ι → ι

namespace Links

variable {ι : Type*} {k k' : Links ι} {a b c e x : ι} {l s t : List ι}

section Operations

variable [DecidableEq ι]

def setNext (k : Links ι) (a b : ι) : Links ι := { k with next := Function.update k.next a b }

def setPrev (k : Links ι) (a b : ι) : Links ι := { k with prev := Function.update k.prev a b }

/-- The neighbours of `e` are linked to each other, and `e` to itself. -/
def unlink (k : Links ι) (e : ι) : Links ι :=
  let k := k.setPrev (k.next e) (k.prev e)
  let k := k.setNext (k.prev e) (k.next e)
  (k.setNext e e).setPrev e e

def insertAfter (k : Links ι) (c x : ι) : Links ι :=
  let k := k.setPrev (k.next c) x
  let k := k.setNext x (k.next c)
  let k := k.setNext c x
  k.setPrev (k.next c) c

def insertBefore (k : Links ι) (c x : ι) : Links ι :=
  let k := k.setNext (k.prev c) x
  let k := k.setPrev x (k.prev c)
  let k := k.setPrev c x
  k.setNext (k.prev c) c

end Operations

/-! ### Paths -/

/-- The way from `a` to `b` through the elements of the list. -/
def Path (k : Links ι) : ι → List ι → ι → Prop
  | a, [], b => k.next a = b ∧ k.prev b = a
  | a, x :: t, b => (k.next a = x ∧ k.prev x = a) ∧ k.Path x t b

private theorem path_append : k.Path a (s ++ x :: t) b ↔ k.Path a s x ∧ k.Path x t b := by
  induction s generalizing a with
  | nil => rfl
  | cons y s ih =>
    simp only [List.cons_append, Path, ih]
    exact and_assoc.symm

private theorem Path.congr (h : k.Path a t b) (hnext : ∀ z ∈ a :: t, k'.next z = k.next z)
    (hprev : ∀ z ∈ b :: t, k'.prev z = k.prev z) : k'.Path a t b := by
  induction t generalizing a with
  | nil => exact ⟨(hnext a List.mem_cons_self).trans h.1, (hprev b List.mem_cons_self).trans h.2⟩
  | cons x t ih =>
    obtain ⟨⟨hax, hxa⟩, h⟩ := h
    refine ⟨⟨(hnext a List.mem_cons_self).trans hax, (hprev x (by simp)).trans hxa⟩, ih h ?_ ?_⟩
    · exact fun z hz => hnext z (List.mem_cons_of_mem _ hz)
    · intro z hz
      obtain rfl | hz := List.mem_cons.1 hz
      · exact hprev z List.mem_cons_self
      · exact hprev z (List.mem_cons_of_mem _ (List.mem_cons_of_mem _ hz))

private theorem Path.prev_mem (h : k.Path a t b) : k.prev b ∈ a :: t := by
  induction t generalizing a with
  | nil => exact h.2 ▸ List.mem_cons_self
  | cons x t ih => exact List.mem_cons_of_mem _ (ih h.2)

private theorem Path.next_mem (h : k.Path a t b) : k.next a ∈ b :: t := by
  cases t with
  | nil => exact h.1 ▸ List.mem_cons_self
  | cons x t => exact h.1.1 ▸ List.mem_cons_of_mem _ List.mem_cons_self

private theorem Path.next_prev (h : k.Path a t b) : k.next (k.prev b) = b := by
  induction t generalizing a with
  | nil => rw [h.2, h.1]
  | cons x t ih => exact ih h.2

private theorem Path.prev_next (h : k.Path a t b) : k.prev (k.next a) = a := by
  cases t with
  | nil => rw [h.1, h.2]
  | cons x t => rw [h.1.1, h.1.2]

/-- The elements on a way are reached by `next`. -/
theorem Path.reach (h : k.Path a t b) (hx : x ∈ a :: t) : ∃ n, k.next^[n] a = x := by
  induction t generalizing a with
  | nil => exact ⟨0, (List.mem_singleton.1 hx).symm⟩
  | cons y t ih =>
    obtain rfl | hx := List.mem_cons.1 hx
    · exact ⟨0, rfl⟩
    · obtain ⟨n, hn⟩ := ih h.2 hx
      exact ⟨n + 1, by rw [Function.iterate_succ_apply, h.1.1, hn]⟩

/-- The end of a way moves from `e` to `b`. -/
theorem Path.redirect (h : k.Path a t e) (hnodup : (a :: t).Nodup) (hb : k'.next (k.prev e) = b)
    (hb' : k'.prev b = k.prev e) (hnext : ∀ z ∈ a :: t, z ≠ k.prev e → k'.next z = k.next z)
    (hprev : ∀ z ∈ t, k'.prev z = k.prev z) : k'.Path a t b := by
  induction t generalizing a with
  | nil =>
    rw [h.2] at hb hb'
    exact ⟨hb, hb'⟩
  | cons x t ih =>
    obtain ⟨⟨hax, hxa⟩, h⟩ := h
    rw [List.nodup_cons] at hnodup
    have hne : a ≠ k.prev e := fun heq => hnodup.1 (heq ▸ h.prev_mem)
    refine ⟨⟨(hnext a List.mem_cons_self hne).trans hax, (hprev x List.mem_cons_self).trans hxa⟩, ih h hnodup.2 ?_ ?_⟩
    · exact fun z hz => hnext z (List.mem_cons_of_mem _ hz)
    · exact fun z hz => hprev z (List.mem_cons_of_mem _ hz)

/-! ### Circles -/

def Circle (k : Links ι) : List ι → Prop
  | [] => True
  | a :: t => k.Path a t a

theorem circle_append_comm : k.Circle (s ++ t) ↔ k.Circle (t ++ s) := by
  cases s with
  | nil => rw [List.nil_append, List.append_nil]
  | cons a s =>
    cases t with
    | nil => rw [List.nil_append, List.append_nil]
    | cons b t =>
      show k.Path a (s ++ b :: t) a ↔ k.Path b (t ++ a :: s) b
      rw [path_append, path_append, and_comm]

theorem Circle.congr (h : k.Circle l) (hl : ∀ z ∈ l, k'.next z = k.next z ∧ k'.prev z = k.prev z) : k'.Circle l := by
  cases l with
  | nil => trivial
  | cons a t => exact Path.congr h (fun z hz => (hl z hz).1) fun z hz => (hl z hz).2

/-- A circle begins at any of its elements. -/
theorem Circle.exists_path (h : k.Circle l) (he : e ∈ l) : ∃ t, (e :: t).Perm l ∧ k.Path e t e := by
  obtain ⟨s, t, rfl⟩ := List.append_of_mem he
  have hperm : (e :: t ++ s).Perm (s ++ e :: t) := List.perm_append_comm
  exact ⟨t ++ s, hperm, circle_append_comm.1 h⟩

private theorem Circle.mem (h : k.Circle l) (he : e ∈ l) : k.next e ∈ l ∧ k.prev e ∈ l := by
  obtain ⟨t, hperm, hpath⟩ := h.exists_path he
  exact ⟨hperm.mem_iff.1 hpath.next_mem, hperm.mem_iff.1 hpath.prev_mem⟩

theorem Circle.inverse (h : k.Circle l) (he : e ∈ l) : k.next (k.prev e) = e ∧ k.prev (k.next e) = e := by
  obtain ⟨t, -, hpath⟩ := h.exists_path he
  exact ⟨hpath.next_prev, hpath.prev_next⟩

theorem Circle.reach_iff (h : k.Circle (a :: t)) : (∃ n, k.next^[n] a = x) ↔ x ∈ a :: t := by
  constructor
  · rintro ⟨n, rfl⟩
    induction n with
    | zero => exact List.mem_cons_self
    | succ n ih =>
      rw [Function.iterate_succ_apply']
      exact (h.mem ih).1
  · exact fun hx => Path.reach h hx

/-! ### The operations -/

section Operations

variable [DecidableEq ι]

private theorem unlink_next (k : Links ι) (e z : ι) :
    (k.unlink e).next z = if z = e then e else if z = k.prev e then k.next e else k.next z := by
  simp [unlink, setNext, setPrev, Function.update_apply]

private theorem unlink_prev (k : Links ι) (e z : ι) :
    (k.unlink e).prev z = if z = e then e else if z = k.next e then k.prev e else k.prev z := by
  simp [unlink, setNext, setPrev, Function.update_apply]

theorem insertAfter_next (k : Links ι) (c x z : ι) :
    (k.insertAfter c x).next z = if z = c then x else if z = x then k.next c else k.next z := by
  simp [insertAfter, setNext, setPrev, Function.update_apply]

private theorem insertAfter_prev (k : Links ι) (c x z : ι) :
    (k.insertAfter c x).prev z = if z = x then c else if z = k.next c then x else k.prev z := by
  simp [insertAfter, setNext, setPrev, Function.update_apply]

theorem insertBefore_next (k : Links ι) (c x z : ι) :
    (k.insertBefore c x).next z = if z = x then c else if z = k.prev c then x else k.next z := by
  simp [insertBefore, setNext, setPrev, Function.update_apply]

private theorem insertBefore_prev (k : Links ι) (c x z : ι) :
    (k.insertBefore c x).prev z = if z = c then x else if z = x then k.prev c else k.prev z := by
  simp [insertBefore, setNext, setPrev, Function.update_apply]

/-- An element that is linked to itself only is taken out of where it is. -/
theorem unlink_eq_self (h : k.next e = e ∧ k.prev e = e) : k.unlink e = k := by
  obtain ⟨hnext, hprev⟩ := h
  refine Links.ext (funext fun z => ?_) (funext fun z => ?_)
  · rw [unlink_next, hprev]
    split_ifs with hz
    · rw [hz, hnext]
    · rfl
  · rw [unlink_prev, hnext]
    split_ifs with hz
    · rw [hz, hprev]
    · rfl

/-- An element that is linked to itself only is put before itself. -/
theorem insertBefore_self (h : k.next e = e ∧ k.prev e = e) : k.insertBefore e e = k := by
  obtain ⟨hnext, hprev⟩ := h
  refine Links.ext (funext fun z => ?_) (funext fun z => ?_)
  · rw [insertBefore_next, hprev]
    split_ifs with hz
    · rw [hz, hnext]
    · rfl
  · rw [insertBefore_prev, hprev]
    split_ifs with hz
    · rw [hz, hprev]
    · rfl

theorem unlink_self (k : Links ι) (e : ι) : (k.unlink e).next e = e ∧ (k.unlink e).prev e = e := by
  rw [unlink_next, unlink_prev, if_pos rfl, if_pos rfl]
  exact ⟨rfl, rfl⟩

/-- The links outside the circle are left alone. -/
theorem Circle.unlink_frame (h : k.Circle l) (he : e ∈ l) {z : ι} (hz : z ∉ l) :
    (k.unlink e).next z = k.next z ∧ (k.unlink e).prev z = k.prev z := by
  obtain ⟨hnext, hprev⟩ := h.mem he
  have hne {y : ι} (hy : y ∈ l) : z ≠ y := fun heq => hz (heq ▸ hy)
  rw [unlink_next, unlink_prev, if_neg (hne he), if_neg (hne hprev), if_neg (hne he), if_neg (hne hnext)]
  exact ⟨rfl, rfl⟩

theorem Circle.unlink (h : k.Circle (e :: t)) (hnodup : (e :: t).Nodup) : (k.unlink e).Circle t := by
  cases t with
  | nil => trivial
  | cons x t =>
    obtain ⟨⟨hex, hxe⟩, hpath⟩ := h
    obtain ⟨he, hnodup⟩ := List.nodup_cons.1 hnodup
    have hlast : k.prev e ≠ e := fun heq => he (heq ▸ hpath.prev_mem)
    have hfirst : x ≠ e := fun heq => he (heq ▸ List.mem_cons_self)
    refine hpath.redirect hnodup ?_ ?_ ?_ ?_
    · rw [unlink_next, if_neg hlast, if_pos rfl, hex]
    · rw [unlink_prev, if_neg hfirst, if_pos hex.symm]
    · intro z hz hne
      rw [unlink_next, if_neg (show z ≠ e from fun heq => he (heq ▸ hz)), if_neg hne]
    · intro z hz
      rw [unlink_prev, if_neg (show z ≠ e from fun heq => he (heq ▸ List.mem_cons_of_mem _ hz)), hex,
        if_neg (show z ≠ x from fun heq => (List.nodup_cons.1 hnodup).1 (heq ▸ hz))]

theorem Circle.insertAfter_frame (h : k.Circle l) (hc : c ∈ l) {z : ι} (hz : z ∉ x :: l) :
    (k.insertAfter c x).next z = k.next z ∧ (k.insertAfter c x).prev z = k.prev z := by
  have hzx : z ≠ x := fun heq => hz (heq ▸ List.mem_cons_self)
  have hne {y : ι} (hy : y ∈ l) : z ≠ y := fun heq => hz (heq ▸ List.mem_cons_of_mem _ hy)
  rw [insertAfter_next, insertAfter_prev, if_neg (hne hc), if_neg hzx, if_neg hzx, if_neg (hne (h.mem hc).1)]
  exact ⟨rfl, rfl⟩

theorem Circle.insertAfter (h : k.Circle (c :: t)) (hnodup : (c :: t).Nodup) (hx : x ∉ c :: t) :
    (k.insertAfter c x).Circle (c :: x :: t) := by
  have hcx : c ≠ x := fun heq => hx (heq ▸ List.mem_cons_self)
  refine ⟨⟨by rw [insertAfter_next, if_pos rfl], by rw [insertAfter_prev, if_pos rfl]⟩, ?_⟩
  have hnext : (k.insertAfter c x).next x = k.next c := by rw [insertAfter_next, if_neg hcx.symm, if_pos rfl]
  cases t with
  | nil =>
    refine ⟨hnext.trans h.1, ?_⟩
    rw [insertAfter_prev, if_neg hcx, if_pos h.1.symm]
  | cons y t =>
    obtain ⟨⟨hcy, hyc⟩, hpath⟩ := h
    obtain ⟨hc, hnodup⟩ := List.nodup_cons.1 hnodup
    have hyx : y ≠ x := fun heq => hx (heq ▸ List.mem_cons_of_mem _ List.mem_cons_self)
    refine ⟨⟨hnext.trans hcy, by rw [insertAfter_prev, if_neg hyx, if_pos hcy.symm]⟩, hpath.congr ?_ ?_⟩
    · intro z hz
      rw [insertAfter_next, if_neg (show z ≠ c from fun heq => hc (heq ▸ hz)),
        if_neg (show z ≠ x from fun heq => hx (heq ▸ List.mem_cons_of_mem _ hz))]
    · intro z hz
      have hzx : z ≠ x := by
        rintro rfl
        obtain rfl | hz := List.mem_cons.1 hz
        · exact hcx rfl
        · exact hx (List.mem_cons_of_mem _ (List.mem_cons_of_mem _ hz))
      have hzy : z ≠ k.next c := by
        rw [hcy]
        rintro rfl
        obtain rfl | hz := List.mem_cons.1 hz
        · exact hc List.mem_cons_self
        · exact (List.nodup_cons.1 hnodup).1 hz
      rw [insertAfter_prev, if_neg hzx, if_neg hzy]

theorem Circle.insertBefore_frame (h : k.Circle l) (hc : c ∈ l) {z : ι} (hz : z ∉ x :: l) :
    (k.insertBefore c x).next z = k.next z ∧ (k.insertBefore c x).prev z = k.prev z := by
  have hzx : z ≠ x := fun heq => hz (heq ▸ List.mem_cons_self)
  have hne {y : ι} (hy : y ∈ l) : z ≠ y := fun heq => hz (heq ▸ List.mem_cons_of_mem _ hy)
  rw [insertBefore_next, insertBefore_prev, if_neg (hne hc), if_neg hzx, if_neg hzx, if_neg (hne (h.mem hc).2)]
  exact ⟨rfl, rfl⟩

theorem Circle.insertBefore (h : k.Circle (c :: t)) (hnodup : (c :: t).Nodup) (hx : x ∉ c :: t) :
    (k.insertBefore c x).Circle (x :: c :: t) := by
  have hcx : c ≠ x := fun heq => hx (heq ▸ List.mem_cons_self)
  have hlast : k.prev c ≠ x := fun heq => hx (heq ▸ Path.prev_mem h)
  refine ⟨⟨by rw [insertBefore_next, if_pos rfl], by rw [insertBefore_prev, if_pos rfl]⟩, ?_⟩
  refine Path.redirect h hnodup ?_ ?_ ?_ ?_
  · rw [insertBefore_next, if_neg hlast, if_pos rfl]
  · rw [insertBefore_prev, if_neg hcx.symm, if_pos rfl]
  · intro z hz hne
    rw [insertBefore_next, if_neg (show z ≠ x from fun heq => hx (heq ▸ hz)), if_neg hne]
  · intro z hz
    rw [insertBefore_prev, if_neg (show z ≠ c from fun heq => (List.nodup_cons.1 hnodup).1 (heq ▸ hz)),
      if_neg (show z ≠ x from fun heq => hx (heq ▸ List.mem_cons_of_mem _ hz))]

end Operations

end Links

end ProcessNetwork
