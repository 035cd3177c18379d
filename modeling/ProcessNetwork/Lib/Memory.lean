import Mathlib.Tactic

/-!
# Flat memory and ring positions

A block of memory is a function from offsets to cells.  `memcpy` copies between blocks, `slice` reads a region, and
`forChannels` is the loop over the channels of a block that is divided into strides: a body that reads and writes
only the stride of its own channel acts on every channel as it acts alone (`forChannels_stride`).

Positions of a ring of `n` cells are remainders modulo `n`.  Every index that occurs stays below `2 * n`, so a
remainder is one comparison and one subtraction (`mod_of_lt_two_mul`, `add_mod_ring`), and questions about ring
positions become linear arithmetic.
-/

namespace ProcessNetwork

section Memory

variable {α : Type}

/-- `memcpy(dst + d, src + s, n)`. -/
def memcpy (dst : Nat → α) (d : Nat) (src : Nat → α) (s n : Nat) : Nat → α :=
  fun a => if d ≤ a ∧ a < d + n then src (s + (a - d)) else dst a

theorem memcpy_inside {dst src : Nat → α} {d s n i : Nat} (h : i < n) :
    memcpy dst d src s n (d + i) = src (s + i) := by
  unfold memcpy
  rw [if_pos ⟨by omega, by omega⟩, Nat.add_sub_cancel_left]

theorem memcpy_outside {dst src : Nat → α} {d s n a : Nat} (h : a < d ∨ d + n ≤ a) :
    memcpy dst d src s n a = dst a := by
  unfold memcpy
  rw [if_neg (by omega)]

/-- The `n` cells from offset `a` on. -/
def slice (m : Nat → α) (a n : Nat) : List α := (List.range n).map fun i => m (a + i)

@[simp] theorem length_slice (m : Nat → α) (a n : Nat) : (slice m a n).length = n := by
  simp [slice]

@[simp] theorem getElem_slice {m : Nat → α} {a n i : Nat} (h : i < (slice m a n).length) :
    (slice m a n)[i] = m (a + i) := by
  simp [slice]

theorem slice_congr {m m' : Nat → α} {a a' n : Nat} (h : ∀ i < n, m (a + i) = m' (a' + i)) :
    slice m a n = slice m' a' n := by
  apply List.ext_getElem
  · simp
  · intro i hi _
    simpa using h i (by simpa using hi)

theorem take_slice {m : Nat → α} {a n k : Nat} (h : k ≤ n) : (slice m a n).take k = slice m a k := by
  apply List.ext_getElem
  · simp [h]
  · intro i _ _
    simp

/-- The stores of what there is in `w 0, …, w (n - 1)`, to `p 0, …, p (n - 1)`, one after the other. -/
def scatter (p : Nat → Nat) (w : Nat → Option α) : Nat → (Nat → α) → Nat → α
  | 0, m, a => m a
  | n + 1, m, a => if a = p n then (w n).getD (scatter p w n m a) else scatter p w n m a

theorem scatter_outside {p : Nat → Nat} {w : Nat → Option α} {n a : Nat} (h : ∀ i < n, p i ≠ a) (m : Nat → α) :
    scatter p w n m a = m a := by
  induction n with
  | zero => rfl
  | succ n ih => rw [scatter, if_neg (Ne.symm (h n (by omega))), ih fun i hi => h i (by omega)]

/-- Stores to different places. -/
theorem scatter_inside {p : Nat → Nat} {w : Nat → Option α} {n i : Nat} (hi : i < n) (h : ∀ j < n, p j = p i → j = i)
    (m : Nat → α) : scatter p w n m (p i) = (w i).getD (m (p i)) := by
  induction n with
  | zero => omega
  | succ n ih =>
    rw [scatter]
    by_cases hin : i = n
    · subst hin
      rw [if_pos rfl, scatter_outside fun j hj he => by have := h j (by omega) he; omega]
    · rw [if_neg fun he => hin (h n (by omega) he.symm).symm]
      exact ih (by omega) fun j hj => h j (by omega)

/-- The loop `for (chan = 0; chan < n; chan++) m = body chan m`. -/
def forChannels (n : Nat) (body : Nat → (Nat → α) → Nat → α) (m : Nat → α) : Nat → α :=
  (List.range n).foldl (fun m c => body c m) m

private theorem forChannels_succ (n : Nat) (body : Nat → (Nat → α) → Nat → α) (m : Nat → α) :
    forChannels (n + 1) body m = body n (forChannels n body m) := by
  simp [forChannels, List.range_succ]

theorem forChannels_congr {n : Nat} {body body' : Nat → (Nat → α) → Nat → α} (h : ∀ c < n, ∀ m, body c m = body' c m)
    (m : Nat → α) : forChannels n body m = forChannels n body' m := by
  induction n with
  | zero => rfl
  | succ n ih => rw [forChannels_succ, forChannels_succ, ih fun c hc => h c (by omega), h n (by omega)]

/-- The body of channel `c` leaves every cell outside the stride of `c` alone, and what it writes depends only on
the cells inside. -/
structure ActsOnStride (stride : Nat) (body : Nat → (Nat → α) → Nat → α) : Prop where
  outside : ∀ c m a, a < c * stride ∨ (c + 1) * stride ≤ a → body c m a = m a
  inside : ∀ c m m', (∀ x < stride, m (c * stride + x) = m' (c * stride + x)) →
    ∀ x < stride, body c m (c * stride + x) = body c m' (c * stride + x)

/-- The strides of different channels are disjoint. -/
theorem stride_disjoint {stride c d x : Nat} (hx : x < stride) (hcd : c ≠ d) :
    c * stride + x < d * stride ∨ (d + 1) * stride ≤ c * stride + x := by
  rcases Nat.lt_or_gt_of_ne hcd with h | h
  · left
    have := Nat.mul_le_mul_right stride (show c + 1 ≤ d from h)
    rw [Nat.add_mul] at this
    omega
  · right
    have := Nat.mul_le_mul_right stride (show d + 1 ≤ c from h)
    omega

/-- On the stride of channel `c` the whole loop does what its body for `c` does alone. -/
theorem forChannels_stride {stride : Nat} {body : Nat → (Nat → α) → Nat → α} (hb : ActsOnStride stride body)
    (m : Nat → α) {c x : Nat} (hx : x < stride) (n : Nat) :
    forChannels n body m (c * stride + x) = if c < n then body c m (c * stride + x) else m (c * stride + x) := by
  induction n generalizing x with
  | zero => simp [forChannels]
  | succ n ih =>
    rw [forChannels_succ]
    by_cases hc : c = n
    · subst hc
      rw [if_pos (by omega)]
      -- the passes before this one have not touched the stride
      exact hb.inside c _ _ (fun y hy => by rw [ih hy, if_neg (by omega)]) x hx
    · rw [hb.outside n _ _ (stride_disjoint hx hc), ih hx]
      by_cases h : c < n
      · rw [if_pos h, if_pos (by omega)]
      · rw [if_neg h, if_neg (by omega)]

end Memory

/-! ### Ring positions -/

theorem mod_of_lt_two_mul {a n : Nat} (h : a < 2 * n) : a % n = if a < n then a else a - n := by
  by_cases ha : a < n
  · rw [if_pos ha, Nat.mod_eq_of_lt ha]
  · obtain ⟨b, rfl⟩ : ∃ b, a = b + n := ⟨a - n, by omega⟩
    rw [if_neg ha, Nat.add_mod_right, Nat.mod_eq_of_lt (by omega), Nat.add_sub_cancel]

/-- The ring position `i` cells after `h`. -/
theorem add_mod_ring {h i n : Nat} (hn : 0 < n) (hi : i ≤ n) :
    (h + i) % n = if h % n + i < n then h % n + i else h % n + i - n := by
  have := Nat.mod_lt h hn
  rw [← Nat.mod_add_mod, mod_of_lt_two_mul (by omega)]

/-- The number of elements between two indices that run modulo `2 * n`, so that a full ring and an empty one differ. -/
theorem ring_count {n head tail k : Nat} (hk : k ≤ n) (hhead : head < 2 * n) (htail : tail = (head + k) % (2 * n)) :
    (if (2 * n - head + tail) % n ≠ 0 then (2 * n - head + tail) % n else if head = tail then 0 else n) = k := by
  rw [mod_of_lt_two_mul (by omega)] at htail
  have hmod : (2 * n - head + tail) % n = k % n := by
    split at htail
    · rw [show 2 * n - head + tail = k + n * 2 by omega, Nat.add_mul_mod_self_left]
    · rw [show 2 * n - head + tail = k by omega]
  simp only [hmod]
  rcases Nat.lt_or_eq_of_le hk with h | h
  · rw [Nat.mod_eq_of_lt h]
    by_cases h0 : k = 0
    · rw [if_neg (by omega), if_pos (by split at htail <;> omega), h0]
    · rw [if_pos h0]
  · rw [h, Nat.mod_self, if_neg (by omega), if_neg (by split at htail <;> omega)]

end ProcessNetwork
