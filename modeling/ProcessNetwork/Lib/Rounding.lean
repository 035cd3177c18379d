import Mathlib.Tactic

/-!
# Rounding to a number of significant bits

`roundTo p x` is the number with at most `p` significant bits that is nearest to `x`, and of two nearest ones the even one:
what the arithmetic of floating-point numbers of precision `p` makes of an exact result `x`.  Numbers that have at most `p`
bits are kept, and no number is rounded past one of them, so rounding is monotone.
-/

namespace ProcessNetwork

/-! ### Multiples -/

/-- The multiple of `u` that is nearest to `x`, the even one of two. -/
def nearest (u x : Nat) : Nat :=
  if 2 * (x % u) < u ∨ 2 * (x % u) = u ∧ x / u % 2 = 0 then x / u * u else (x / u + 1) * u

variable {u v x x' p e y : Nat}

/-- The multiple below or the one above. -/
theorem nearest_cases (u x : Nat) :
    nearest u x = x / u * u ∧ 2 * (x % u) ≤ u ∨ nearest u x = (x / u + 1) * u ∧ u ≤ 2 * (x % u) := by
  unfold nearest
  split_ifs with h
  · exact .inl ⟨rfl, by omega⟩
  · exact .inr ⟨rfl, by omega⟩

private theorem nearest_one (x : Nat) : nearest 1 x = x := by
  simp [nearest, Nat.mod_one]

private theorem nearest_le (hu : 0 < u) (hv : u ∣ v) (h : x ≤ v) : nearest u x ≤ v := by
  obtain ⟨m, rfl⟩ := hv
  have hdiv : x / u ≤ m := Nat.div_le_of_le_mul h
  have hx : x / u * u + x % u = x := Nat.div_add_mod' x u
  rw [Nat.mul_comm u m] at h ⊢
  obtain ⟨heq, -⟩ | ⟨heq, hhalf⟩ := nearest_cases u x
  · rw [heq]
    exact Nat.mul_le_mul_right u hdiv
  · rw [heq]
    refine Nat.mul_le_mul_right u (Nat.lt_of_le_of_ne hdiv fun hm => ?_)
    rw [hm] at hx
    omega

private theorem le_nearest (hu : 0 < u) (hv : u ∣ v) (h : v ≤ x) : v ≤ nearest u x := by
  obtain ⟨m, rfl⟩ := hv
  have hdiv : m ≤ x / u := (Nat.le_div_iff_mul_le hu).2 (by rwa [Nat.mul_comm])
  rw [Nat.mul_comm u m]
  obtain ⟨heq, -⟩ | ⟨heq, -⟩ := nearest_cases u x
  · rw [heq]
    exact Nat.mul_le_mul_right u hdiv
  · rw [heq]
    exact Nat.mul_le_mul_right u (hdiv.trans (Nat.le_succ _))

private theorem two_mul_nearest_le (u x : Nat) : 2 * nearest u x ≤ 2 * x + u := by
  have hx : x / u * u + x % u = x := Nat.div_add_mod' x u
  obtain ⟨heq, -⟩ | ⟨heq, hhalf⟩ := nearest_cases u x
  · omega
  · rw [Nat.add_mul, Nat.one_mul] at heq
    omega

private theorem nearest_mono (hu : 0 < u) (h : x ≤ x') : nearest u x ≤ nearest u x' := by
  have hx : x / u * u + x % u = x := Nat.div_add_mod' x u
  have hx' : x' / u * u + x' % u = x' := Nat.div_add_mod' x' u
  obtain heq | hlt : x / u = x' / u ∨ x / u < x' / u := (Nat.div_le_div_right h).eq_or_lt
  · -- the same two multiples, and `x'` is not further from the upper one
    rw [heq] at hx
    have hmod : x % u ≤ x' % u := by omega
    have hle : x' / u * u ≤ (x' / u + 1) * u := Nat.mul_le_mul_right u (Nat.le_succ _)
    unfold nearest
    rw [heq]
    split_ifs with h1 h2 h2
    · exact Nat.le_refl _
    · exact hle
    · exact absurd h1 (not_not.2 (by omega))
    · exact Nat.le_refl _
  · calc nearest u x ≤ x' / u * u := nearest_le hu (Nat.dvd_mul_left _ _)
          ((Nat.lt_div_mul_add hu).le.trans (by
            have hmul : (x / u + 1) * u ≤ x' / u * u := Nat.mul_le_mul_right u hlt
            rw [Nat.add_mul, Nat.one_mul] at hmul
            exact hmul))
      _ ≤ nearest u x' := le_nearest hu (Nat.dvd_mul_left _ _) (Nat.div_mul_le_self _ _)

/-! ### Significant bits -/

/-- The bits of `x` after the first `p` are rounded away. -/
def roundTo (p x : Nat) : Nat := nearest (2 ^ (Nat.log2 x + 1 - p)) x

private theorem roundTo_of_lt (h : x < 2 ^ p) : roundTo p x = x := by
  obtain rfl | hx := Nat.eq_zero_or_pos x
  · simp [roundTo, nearest]
  · have hlog : Nat.log2 x < p := (Nat.log2_lt hx.ne').2 h
    rw [roundTo, Nat.sub_eq_zero_of_le hlog, Nat.pow_zero, nearest_one]

/-- A number of more than `p` bits is rounded to a multiple of a power of two. -/
theorem roundTo_of_le (h : 2 ^ p ≤ x) :
    ∃ s, roundTo p x = nearest (2 ^ (s + 1)) x ∧ 2 ^ (p + s) ≤ x ∧ x < 2 ^ (p + s + 1) := by
  have hx : x ≠ 0 := fun h0 => absurd (h0 ▸ h) (Nat.not_le.2 (Nat.two_pow_pos p))
  have hlog : p ≤ Nat.log2 x := (Nat.le_log2 hx).2 h
  refine ⟨Nat.log2 x - p, ?_, ?_, ?_⟩
  · rw [roundTo, Nat.sub_add_comm hlog]
  · rw [Nat.add_sub_cancel' hlog]
    exact Nat.log2_self_le hx
  · rw [Nat.add_sub_cancel' hlog]
    exact Nat.lt_log2_self

/-- Nothing is rounded up past a number of `p` bits. -/
theorem roundTo_le (hp : 0 < p) (hy : y ≤ 2 ^ p) (h : x ≤ y * 2 ^ e) : roundTo p x ≤ y * 2 ^ e := by
  obtain hlt | hle := Nat.lt_or_ge x (2 ^ p)
  · rwa [roundTo_of_lt hlt]
  obtain ⟨s, heq, hlow, -⟩ := roundTo_of_le hle
  rw [heq]
  obtain hse | hes := Nat.lt_or_ge s e
  · exact nearest_le (Nat.two_pow_pos _) (Nat.dvd_mul_left_of_dvd (Nat.pow_dvd_pow 2 hse) y) h
  · -- `x` is the number itself, the first one with so many bits
    have htop : y * 2 ^ e ≤ 2 ^ (p + s) := by
      rw [Nat.pow_add]
      exact Nat.mul_le_mul hy (Nat.pow_le_pow_right (by decide) hes)
    have hx : x = y * 2 ^ e := le_antisymm h (htop.trans hlow)
    have hpow : y * 2 ^ e = 2 ^ (p + s) := le_antisymm htop (hx ▸ hlow)
    rw [hpow] at hx ⊢
    exact nearest_le (Nat.two_pow_pos _) (Nat.pow_dvd_pow 2 (by omega)) hx.le

theorem le_roundTo (hp : 0 < p) (hy : y ≤ 2 ^ p) (h : y * 2 ^ e ≤ x) : y * 2 ^ e ≤ roundTo p x := by
  obtain hlt | hle := Nat.lt_or_ge x (2 ^ p)
  · rwa [roundTo_of_lt hlt]
  obtain ⟨s, heq, hlow, -⟩ := roundTo_of_le hle
  rw [heq]
  obtain hse | hes := Nat.lt_or_ge s e
  · exact le_nearest (Nat.two_pow_pos _) (Nat.dvd_mul_left_of_dvd (Nat.pow_dvd_pow 2 hse) y) h
  · calc y * 2 ^ e ≤ 2 ^ (p + s) := by
          rw [Nat.pow_add]
          exact Nat.mul_le_mul hy (Nat.pow_le_pow_right (by decide) hes)
      _ ≤ nearest (2 ^ (s + 1)) x := le_nearest (Nat.two_pow_pos _) (Nat.pow_dvd_pow 2 (by omega)) hlow

theorem roundTo_mono (hp : 0 < p) (h : x ≤ x') : roundTo p x ≤ roundTo p x' := by
  obtain hlt | hle := Nat.lt_or_ge x' (2 ^ p)
  · rwa [roundTo_of_lt hlt, roundTo_of_lt (h.trans_lt hlt)]
  obtain hlt | hle := Nat.lt_or_ge x (2 ^ p)
  · rw [roundTo_of_lt hlt]
    have hpow : 2 ^ p * 2 ^ 0 ≤ roundTo p x' := le_roundTo hp (Nat.le_refl _) (by rwa [Nat.pow_zero, Nat.mul_one])
    rw [Nat.pow_zero, Nat.mul_one] at hpow
    exact hlt.le.trans hpow
  obtain ⟨s, heq, hlow, htop⟩ := roundTo_of_le hle
  obtain ⟨s', heq', hlow', htop'⟩ := roundTo_of_le (hle.trans h)
  obtain rfl | hne := eq_or_ne s s'
  · rw [heq, heq']
    exact nearest_mono (Nat.two_pow_pos _) h
  · -- a power of two lies between the two numbers
    have hss : s < s' := by
      by_contra hnot
      have hpow : 2 ^ (p + s' + 1) ≤ 2 ^ (p + s) := Nat.pow_le_pow_right (by decide) (by omega)
      omega
    have hpow : 2 ^ p * 2 ^ (s + 1) ≤ x' := by
      rw [← Nat.pow_add]
      exact (Nat.pow_le_pow_right (by decide) (by omega)).trans hlow'
    calc roundTo p x ≤ 2 ^ p * 2 ^ (s + 1) := by
          refine roundTo_le hp (Nat.le_refl _) ?_
          rw [← Nat.pow_add]
          exact htop.le
      _ ≤ roundTo p x' := le_roundTo hp (Nat.le_refl _) hpow

/-- The error is at most half of the last bit. -/
theorem roundTo_error (p x : Nat) : 2 ^ p * roundTo p x ≤ 2 ^ p * x + x := by
  obtain hlt | hle := Nat.lt_or_ge x (2 ^ p)
  · rw [roundTo_of_lt hlt]
    exact Nat.le_add_right _ _
  obtain ⟨s, heq, hlow, -⟩ := roundTo_of_le hle
  have hhalf := two_mul_nearest_le (2 ^ (s + 1)) x
  have hpow : 2 ^ (s + 1) = 2 ^ s * 2 := Nat.pow_succ 2 s
  calc 2 ^ p * roundTo p x ≤ 2 ^ p * (x + 2 ^ s) := Nat.mul_le_mul_left _ (by omega)
    _ = 2 ^ p * x + 2 ^ (p + s) := by rw [Nat.mul_add, Nat.pow_add]
    _ ≤ 2 ^ p * x + x := Nat.add_le_add_left hlow _

/-- Ten times the double next to `7 / 10` is rounded up to `7`. -/
example : roundTo 53 (10 * 3152519739159347) = 7 * 2 ^ 52 := by decide

end ProcessNetwork
