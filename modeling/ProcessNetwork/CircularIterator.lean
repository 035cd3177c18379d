import Mathlib.Algebra.Order.Group.Int
import Mathlib.Data.Int.ModEq
import Mathlib.Logic.Function.Iterate
import Mathlib.Tactic.Ring
import Mathlib.Tactic.SplitIfs

/-!
# The circular iterator

The iterator of `CircularIterator.h`.  The generic versions of `circular_iterator_increment_impl` and
`circular_iterator_decrement_impl` go step by step and are here functions on any type of positions.  The versions for random
access iterators subtract laps; their positions and differences are integers.

`Range.turn` is what both are for: on a range of positions the jumps by `n` are an action of the integers (`turn_turn`).
The increment for random access iterators leaves the range when it ends a lap other than the first (`jump_eq`).
-/

namespace ProcessNetwork

namespace CircularIterator

/-! ### The generic versions -/

section Generic

variable {α : Type*} [DecidableEq α]

/-- `incr()`. -/
def incr (succ : α → α) (itrStart itrEnd current : α) : α :=
  if succ current = itrEnd then itrStart else succ current

/-- `decr()`. -/
def decr (pred : α → α) (itrStart itrEnd current : α) : α :=
  pred (if current = itrStart then itrEnd else current)

def incrementImpl (succ : α → α) (itrStart itrEnd : α) : ℕ → α → α
  | 0, cur => cur
  | n + 1, cur => incrementImpl succ itrStart itrEnd n (incr succ itrStart itrEnd cur)

def decrementImpl (pred : α → α) (itrStart itrEnd : α) : ℕ → α → α
  | 0, cur => cur
  | n + 1, cur => decrementImpl pred itrStart itrEnd n (decr pred itrStart itrEnd cur)

private theorem incrementImpl_eq (succ : α → α) (itrStart itrEnd : α) (n : ℕ) (cur : α) :
    incrementImpl succ itrStart itrEnd n cur = (incr succ itrStart itrEnd)^[n] cur := by
  induction n generalizing cur with
  | zero => rfl
  | succ n ih => exact ih _

private theorem decrementImpl_eq (pred : α → α) (itrStart itrEnd : α) (n : ℕ) (cur : α) :
    decrementImpl pred itrStart itrEnd n cur = (decr pred itrStart itrEnd)^[n] cur := by
  induction n generalizing cur with
  | zero => rfl
  | succ n ih => exact ih _

end Generic

/-! ### The versions for random access iterators -/

/-- A range of positions that is not empty. -/
structure Range where
  itrStart : ℤ
  itrEnd : ℤ
  nonempty : itrStart < itrEnd

namespace Range

variable (r : Range) {cur x n m : ℤ}

def length : ℤ := r.itrEnd - r.itrStart

private theorem length_pos : 0 < r.length := Int.sub_pos.2 r.nonempty

/-- The loop `while (n > left) n -= left` with `left` the length of the range. -/
def laps (n : ℤ) : ℤ :=
  if r.length < n then laps (n - r.length) else n
termination_by n.toNat
decreasing_by
  have := r.length_pos
  omega

/-- The increment for random access iterators. -/
def jump (n cur : ℤ) : ℤ :=
  if r.itrEnd - cur ≤ n then r.itrStart + r.laps (n - (r.itrEnd - cur)) else cur + n

/-- The decrement for random access iterators. -/
def jumpBack (n cur : ℤ) : ℤ :=
  if cur - r.itrStart < n then r.itrEnd - r.laps (n - (cur - r.itrStart)) else cur - n

/-- The positions that can be read. -/
def Contains (cur : ℤ) : Prop := r.itrStart ≤ cur ∧ cur < r.itrEnd

instance : Decidable (r.Contains cur) := inferInstanceAs (Decidable (_ ∧ _))

/-! ### Positions on a circle -/

/-- The position `n` places further on the circle. -/
def turn (n cur : ℤ) : ℤ := r.itrStart + (cur - r.itrStart + n) % r.length

private theorem contains_turn (n cur : ℤ) : r.Contains (r.turn n cur) := by
  have hpos := r.length_pos
  have hnonneg := Int.emod_nonneg (cur - r.itrStart + n) hpos.ne'
  have hlt := Int.emod_lt_of_pos (cur - r.itrStart + n) hpos
  unfold Contains turn
  constructor
  · omega
  · rw [show r.itrEnd = r.itrStart + r.length by rw [length]; omega]
    omega

variable {r}

/-- A position of the range is found by its residue. -/
theorem turn_eq (hx : r.Contains x) (hd : r.length ∣ cur + n - x) : r.turn n cur = x := by
  have hmod : (cur - r.itrStart + n) % r.length = (x - r.itrStart) % r.length := by
    refine Int.emod_eq_emod_iff_emod_sub_eq_zero.2 (Int.emod_eq_zero_of_dvd ?_)
    rw [show cur - r.itrStart + n - (x - r.itrStart) = cur + n - x by ring]
    exact hd
  obtain ⟨hle, hlt⟩ := hx
  unfold turn
  rw [hmod, Int.emod_eq_of_lt (by omega) (by rw [length]; omega)]
  omega

private theorem dvd_turn (r : Range) (n cur : ℤ) : r.length ∣ cur + n - r.turn n cur := by
  unfold turn
  rw [show cur + n - (r.itrStart + (cur - r.itrStart + n) % r.length) =
    cur - r.itrStart + n - (cur - r.itrStart + n) % r.length by ring]
  exact Int.dvd_self_sub_emod

private theorem turn_zero (h : r.Contains cur) : r.turn 0 cur = cur :=
  turn_eq h ⟨0, by ring⟩

private theorem turn_turn (r : Range) (m n cur : ℤ) : r.turn m (r.turn n cur) = r.turn (n + m) cur := by
  refine (turn_eq (r.contains_turn _ _) ?_).symm
  obtain ⟨a, ha⟩ := r.dvd_turn n cur
  obtain ⟨b, hb⟩ := r.dvd_turn m (r.turn n cur)
  exact ⟨a + b, by rw [mul_add, ← ha, ← hb]; ring⟩

private theorem incr_eq (h : r.Contains cur) : incr (· + 1) r.itrStart r.itrEnd cur = r.turn 1 cur := by
  obtain ⟨hle, hlt⟩ := h
  unfold incr
  dsimp only
  split_ifs with heq
  · exact (turn_eq ⟨le_refl _, r.nonempty⟩ ⟨1, by rw [length]; omega⟩).symm
  · exact (turn_eq ⟨by omega, by omega⟩ ⟨0, by ring⟩).symm

private theorem decr_eq (h : r.Contains cur) : decr (· - 1) r.itrStart r.itrEnd cur = r.turn (-1) cur := by
  obtain ⟨hle, hlt⟩ := h
  unfold decr
  dsimp only
  split_ifs with heq
  · exact (turn_eq ⟨by omega, by omega⟩ ⟨-1, by rw [length]; omega⟩).symm
  · exact (turn_eq ⟨by omega, by omega⟩ ⟨0, by ring⟩).symm

private theorem incr_iterate (h : r.Contains cur) (n : ℕ) :
    (incr (· + 1) r.itrStart r.itrEnd)^[n] cur = r.turn n cur := by
  induction n with
  | zero => exact (turn_zero h).symm
  | succ n ih =>
    rw [Function.iterate_succ_apply', ih, incr_eq (r.contains_turn _ _), turn_turn]
    rfl

private theorem decr_iterate (h : r.Contains cur) (n : ℕ) :
    (decr (· - 1) r.itrStart r.itrEnd)^[n] cur = r.turn (-n) cur := by
  induction n with
  | zero => exact (turn_zero h).symm
  | succ n ih =>
    rw [Function.iterate_succ_apply', ih, decr_eq (r.contains_turn _ _), turn_turn]
    congr 1
    push_cast
    ring

/-! ### The jumps -/

/-- What is left after the laps is more than nothing, at most a lap, and the same on the circle. -/
theorem laps_spec (r : Range) (hn : 0 < n) : 0 < r.laps n ∧ r.laps n ≤ r.length ∧ r.length ∣ n - r.laps n := by
  induction n using laps.induct r with
  | case1 n hlt ih =>
    obtain ⟨hpos, hle, hd⟩ := ih (by omega)
    rw [laps, if_pos hlt]
    refine ⟨hpos, hle, ?_⟩
    rw [show n - r.laps (n - r.length) = n - r.length - r.laps (n - r.length) + r.length by ring]
    exact Int.dvd_add hd (dvd_refl _)
  | case2 n hge =>
    rw [laps, if_neg hge]
    exact ⟨hn, not_lt.1 hge, ⟨0, by ring⟩⟩

private theorem laps_zero (r : Range) : r.laps 0 = 0 := by
  rw [laps, if_neg r.length_pos.not_gt]

/-- The jump ends at the end of the second or a later lap. -/
def EndsLap (r : Range) (n cur : ℤ) : Prop :=
  2 * r.length ≤ cur - r.itrStart + n ∧ r.length ∣ cur - r.itrStart + n

instance (n cur : ℤ) : Decidable (r.EndsLap n cur) := inferInstanceAs (Decidable (_ ∧ _))

private theorem EndsLap.second (h : r.EndsLap n cur) (hcur : r.Contains cur) : r.itrEnd - cur < n := by
  obtain ⟨hlap, -⟩ := h
  obtain ⟨hle, hlt⟩ := hcur
  have := r.nonempty
  rw [length] at hlap
  omega

/-- A jump past the end ends a lap if the loop stops at a full lap. -/
private theorem endsLap_iff (hn : r.itrEnd - cur < n) :
    r.EndsLap n cur ↔ r.laps (n - (r.itrEnd - cur)) = r.length := by
  have hlength : r.length = r.itrEnd - r.itrStart := rfl
  obtain ⟨hpos, hle, hd⟩ := r.laps_spec (Int.sub_pos.2 hn)
  constructor
  · rintro ⟨-, hends⟩
    have hdl := Int.dvd_sub hends hd
    rw [show cur - r.itrStart + n - (n - (r.itrEnd - cur) - r.laps (n - (r.itrEnd - cur))) =
      r.length + r.laps (n - (r.itrEnd - cur)) by omega] at hdl
    exact le_antisymm hle (Int.le_of_dvd hpos ((Int.dvd_add_right (dvd_refl _)).1 hdl))
  · intro hfull
    have hge : r.length ≤ n - (r.itrEnd - cur) := by
      by_contra hlt
      rw [laps, if_neg (by omega)] at hfull
      omega
    rw [hfull] at hd
    refine ⟨by omega, ?_⟩
    rw [show cur - r.itrStart + n = n - (r.itrEnd - cur) - r.length + 2 * r.length by omega]
    exact Int.dvd_add hd (Dvd.intro_left 2 rfl)

private theorem jump_eq (h : r.Contains cur) (hn : 0 ≤ n) :
    r.jump n cur = if r.EndsLap n cur then r.itrEnd else r.turn n cur := by
  have hlength : r.length = r.itrEnd - r.itrStart := rfl
  have hcur := h
  obtain ⟨hle, hlt⟩ := h
  unfold jump
  rcases lt_trichotomy (r.itrEnd - cur) n with hpast | hend | hshort
  · obtain ⟨hpos, hlaps, hd⟩ := r.laps_spec (Int.sub_pos.2 hpast)
    rw [if_pos hpast.le]
    by_cases hends : r.EndsLap n cur
    · rw [if_pos hends, (endsLap_iff hpast).1 hends]
      omega
    · have hne := mt (endsLap_iff hpast).2 hends
      rw [if_neg hends]
      refine (turn_eq ⟨by omega, by omega⟩ ?_).symm
      rw [show cur + n - (r.itrStart + r.laps (n - (r.itrEnd - cur))) =
        n - (r.itrEnd - cur) - r.laps (n - (r.itrEnd - cur)) + r.length by omega]
      exact Int.dvd_add hd (dvd_refl _)
  · rw [if_pos hend.le, if_neg fun hends => (hends.second hcur).ne hend, hend, sub_self, laps_zero, add_zero]
    exact (turn_eq ⟨le_refl _, r.nonempty⟩ ⟨1, by omega⟩).symm
  · rw [if_neg hshort.not_ge, if_neg fun hends => (hends.second hcur).asymm hshort]
    exact (turn_eq ⟨by omega, by omega⟩ ⟨0, by ring⟩).symm

/-- The decrement stays in the range, and comes back to it from the end. -/
theorem jumpBack_eq (h : cur < r.itrEnd + n) : r.jumpBack n cur = r.turn (-n) cur := by
  have hlength : r.length = r.itrEnd - r.itrStart := rfl
  unfold jumpBack
  by_cases hfirst : cur - r.itrStart < n
  · rw [if_pos hfirst]
    obtain ⟨hpos, hlaps, hd⟩ := r.laps_spec (show 0 < n - (cur - r.itrStart) by omega)
    refine (turn_eq ⟨by omega, by omega⟩ ?_).symm
    rw [show cur + -n - (r.itrEnd - r.laps (n - (cur - r.itrStart))) =
      -(n - (cur - r.itrStart) - r.laps (n - (cur - r.itrStart)) + r.length) by omega]
    exact Int.dvd_neg.2 (Int.dvd_add hd (dvd_refl _))
  · rw [if_neg hfirst]
    exact (turn_eq ⟨by omega, by omega⟩ ⟨0, by ring⟩).symm

end Range

end CircularIterator

/-- `circular_iterator` over a random access iterator. -/
structure CircularIterator extends CircularIterator.Range where
  current : ℤ

namespace CircularIterator

/-- `operator+`. -/
def add (it : CircularIterator) (n : ℤ) : CircularIterator := { it with current := it.jump n it.current }

/-- `operator-`. -/
def sub (it : CircularIterator) (n : ℤ) : CircularIterator := { it with current := it.jumpBack n it.current }

private theorem add_sub_cancel (it : CircularIterator) (h : it.Contains it.current) (n : ℕ) : (it.add n).sub n = it := by
  suffices hback : it.jumpBack n (it.jump n it.current) = it.current by
    unfold add sub
    dsimp only
    rw [hback]
  rw [Range.jump_eq h (Int.natCast_nonneg n)]
  split_ifs with hends
  · have hn := hends.second h
    obtain ⟨hle, hlt⟩ := h
    obtain ⟨-, k, hk⟩ := hends
    rw [Range.jumpBack_eq (by omega)]
    refine Range.turn_eq ⟨hle, hlt⟩ ⟨1 - k, ?_⟩
    rw [mul_sub, ← hk, Range.length]
    ring
  · obtain ⟨-, hlt⟩ := it.contains_turn n it.current
    rw [Range.jumpBack_eq (by omega), Range.turn_turn, add_neg_cancel, Range.turn_zero h]

/-- The jumps of `circular_iterator` are steps unless the increment ends a lap other than the first. -/
theorem jumps_eq_steps_iff (it : CircularIterator) (h : it.Contains it.current) (n : ℕ) :
    (it.jump n it.current = incrementImpl (· + 1) it.itrStart it.itrEnd n it.current ∧
      it.jump n it.current = (incr (· + 1) it.itrStart it.itrEnd)^[n] it.current ∧
      it.jumpBack n it.current = decrementImpl (· - 1) it.itrStart it.itrEnd n it.current ∧
      it.jumpBack n it.current = (decr (· - 1) it.itrStart it.itrEnd)^[n] it.current ∧
      it.jump n it.current ≠ it.itrEnd ∧ it.jumpBack n it.current ≠ it.itrEnd ∧ (it.add n).sub n = it) ↔
    ¬ it.EndsLap n it.current := by
  have hjump := Range.jump_eq h (Int.natCast_nonneg n)
  have hback := Range.jumpBack_eq (show it.current < it.itrEnd + n by have := h.2; omega)
  rw [incrementImpl_eq, decrementImpl_eq, Range.incr_iterate h, Range.decr_iterate h]
  constructor
  · rintro ⟨-, -, -, -, hne, -⟩ hends
    rw [hjump, if_pos hends] at hne
    exact hne rfl
  · intro hends
    rw [if_neg hends] at hjump
    rw [hjump, hback]
    exact ⟨rfl, rfl, rfl, rfl, (it.contains_turn _ _).2.ne, (it.contains_turn _ _).2.ne, it.add_sub_cancel h n⟩

/-- Three positions with the first one current. -/
def three : CircularIterator := ⟨⟨0, 3, by decide⟩, 0⟩

/-- Five places on from the first of three positions. -/
theorem jumps_eq_steps_iff_three : three.jump 5 three.current = incrementImpl (· + 1) 0 3 5 0 :=
  ((jumps_eq_steps_iff three (by decide) 5).2 (by decide)).1

/-- Two laps from the first of three positions lead to the end. -/
theorem not_forall_jumps : ¬ ∀ (it : CircularIterator) (n : ℕ), it.Contains it.current →
    it.jump n it.current = incrementImpl (· + 1) it.itrStart it.itrEnd n it.current ∧
      it.jumpBack n it.current = decrementImpl (· - 1) it.itrStart it.itrEnd n it.current ∧
      it.jump n it.current ≠ it.itrEnd ∧ it.jumpBack n it.current ≠ it.itrEnd ∧ (it.add n).sub n = it := by
  intro h
  obtain ⟨-, -, hne, -⟩ := h three 6 (by decide)
  refine hne ?_
  rw [Range.jump_eq (by decide) (by decide), if_pos (by decide)]

end CircularIterator

end ProcessNetwork
