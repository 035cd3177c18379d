import ProcessNetwork.SieveEntries

/-!
# The multiples of an entry

The entry for `p` goes through the products of `p` with the numbers from 2 on for `p = 2`, with the odd numbers from 3 on for
`p = 3`, and with the numbers from 5 on that are prime to 6 for the other primes (`iterate_create`).  So it stops a composite
number of which `p` is the least prime factor (`exists_factor`).  The values wrap; they do not before the first one
that is not
below a candidate `c` with `5 * c < 2 ^ 64`.
-/

namespace ProcessNetwork

private theorem u64_add (a b : ℕ) : u64 (u64 a + u64 b) = u64 (a + b) := (Nat.add_mod a b _).symm

private theorem u64_add_left (a b : ℕ) : u64 (u64 a + b) = u64 (a + b) := Nat.mod_add_mod a _ b

namespace PrimeSieveEntry

variable {p n m c : ℕ}

/-- The `n`-th number by which the entry for `p` multiplies. -/
def factor (p n : ℕ) : ℕ := if p ≤ 2 then n + 2 else if p = 3 then 2 * n + 3 else 3 * n + 5 - n % 2

private theorem factor_succ_le (p n : ℕ) : factor p n < factor p (n + 1) ∧ factor p (n + 1) ≤ factor p n + 4 := by
  unfold factor
  split_ifs <;> omega

private theorem factor_zero_le (p : ℕ) : 2 ≤ factor p 0 ∧ factor p 0 ≤ 5 := by
  unfold factor
  split_ifs <;> omega

private theorem factor_strictMono (p : ℕ) :
    StrictMono (factor p) := strictMono_nat_of_lt_succ fun n => (factor_succ_le p n).1

private theorem le_factor (p n : ℕ) : n + 2 ≤ factor p n := by
  induction n with
  | zero => exact (factor_zero_le p).1
  | succ n ih =>
    have := (factor_succ_le p n).1
    omega

/-- The advancers of the entry for `p` after `n` steps. -/
def advancerAt (p n : ℕ) : ℕ × ℕ :=
  if p ≤ 2 then (p, p) else if p = 3 then (u64 (p * 2), u64 (p * 2))
  else if n % 2 = 0 then (u64 (p * 2), u64 (p * 4)) else (u64 (p * 4), u64 (p * 2))

theorem factor_wheel (hp : 3 < p) (n : ℕ) : factor p n = 3 * n + 5 - n % 2 := by
  rw [factor, if_neg (by omega), if_neg (by omega)]

private theorem advancerAt_wheel (hp : 3 < p) (n : ℕ) :
    advancerAt p n = if n % 2 = 0 then (u64 (p * 2), u64 (p * 4)) else (u64 (p * 4), u64 (p * 2)) := by
  rw [advancerAt, if_neg (by omega), if_neg (by omega)]

theorem iterate_create (p n : ℕ) : advance^[n] (create p) = ⟨u64 (p * factor p n), advancerAt p n⟩ := by
  rcases Nat.lt_or_ge 3 p with hp | hp
  · rw [factor_wheel hp, advancerAt_wheel hp]
    induction n with
    | zero =>
      have hfirst : p + p * 4 = p * 5 := by ring
      rw [Function.iterate_zero_apply, create, if_pos hp, advance, Nat.add_comm, u64_add_left, Nat.add_comm, hfirst]
      rfl
    | succ n ih =>
      rw [Function.iterate_succ_apply', ih, advance]
      rcases Nat.mod_two_eq_zero_or_one n with hn | hn
      · have hnext : p * (3 * n + 5 - n % 2) + p * 2 = p * (3 * (n + 1) + 5 - (n + 1) % 2) := by
          rw [← Nat.mul_add]
          congr 1
          omega
        rw [if_pos hn, if_neg (by omega)]
        dsimp only [Prod.swap]
        rw [u64_add, hnext]
      · have hnext : p * (3 * n + 5 - n % 2) + p * 4 = p * (3 * (n + 1) + 5 - (n + 1) % 2) := by
          rw [← Nat.mul_add]
          congr 1
          omega
        rw [if_neg (by omega), if_pos (by omega)]
        dsimp only [Prod.swap]
        rw [u64_add, hnext]
  · rcases Nat.lt_or_ge 2 p with hp2 | hp2
    · obtain rfl : p = 3 := by omega
      induction n with
      | zero => rfl
      | succ n ih =>
        have hnext : 3 * (2 * n + 3) + 3 * 2 = 3 * (2 * (n + 1) + 3) := by ring
        rw [Function.iterate_succ_apply', ih, advance]
        show (⟨u64 (u64 (3 * (2 * n + 3)) + u64 (3 * 2)), _⟩ : PrimeSieveEntry) = ⟨u64 (3 * (2 * (n + 1) + 3)), _⟩
        rw [u64_add, hnext]
        rfl
    · have hfactor (m : ℕ) : factor p m = m + 2 := if_pos hp2
      have hadv (m : ℕ) : advancerAt p m = (p, p) := if_pos hp2
      rw [hfactor, hadv]
      induction n with
      | zero =>
        rw [Function.iterate_zero_apply, create, if_neg (by omega), if_neg (by omega), advance, ← Nat.mul_two]
        rfl
      | succ n ih =>
        have hnext : p * (n + 2) + p = p * (n + 1 + 2) := by ring
        rw [Function.iterate_succ_apply', ih, advance]
        dsimp only [Prod.swap]
        rw [u64_add_left, hnext]

/-- From 5 on the factors are the numbers that are prime to 6. -/
theorem exists_factor_eq (hp : 3 < p) (hm : 5 ≤ m) (hodd : m % 2 ≠ 0) (hthree : m % 3 ≠ 0) : ∃ n, factor p n = m := by
  obtain ⟨j, hj | hj⟩ : ∃ j, m = 6 * j + 5 ∨ m = 6 * j + 7 := ⟨(m - 5) / 6, by omega⟩
  · refine ⟨2 * j, ?_⟩
    rw [factor_wheel hp]
    omega
  · refine ⟨2 * j + 1, ?_⟩
    rw [factor_wheel hp]
    omega

/-! ### Without a wrap -/

/-- The first multiple that is not below `c` is found before the values wrap. -/
theorem exists_first (hp : 0 < p) (hpc : p ≤ c) (hc : 5 * c < 2 ^ 64) :
    ∃ n, c ≤ p * factor p n ∧ (∀ m < n, p * factor p m < c) ∧
      FirstFrom c (create p) (advance^[n] (create p)) ∧ (advance^[n] (create p)).multiple = p * factor p n := by
  have hex : ∃ n, c ≤ p * factor p n := ⟨c, (Nat.le_mul_of_pos_left c hp).trans (Nat.mul_le_mul_left p (by
    have := le_factor p c
    omega))⟩
  classical
  refine ⟨Nat.find hex, Nat.find_spec hex, fun m hm => not_le.1 (Nat.find_min hex hm), ?_⟩
  have hsmall : p * factor p (Nat.find hex) < 2 ^ 64 := by
    cases hn : Nat.find hex with
    | zero =>
      have := Nat.mul_le_mul_left p (factor_zero_le p).2
      omega
    | succ n =>
      have hlt : p * factor p n < c := not_le.1 (Nat.find_min hex (by omega))
      have := Nat.mul_le_mul_left p (factor_succ_le p n).2
      rw [Nat.mul_add] at this
      omega
  have hmultiple (m : ℕ) (hm : m ≤ Nat.find hex) : (advance^[m] (create p)).multiple = p * factor p m := by
    rw [iterate_create]
    exact u64_of_lt (lt_of_le_of_lt (Nat.mul_le_mul_left p ((factor_strictMono p).monotone hm)) hsmall)
  refine ⟨⟨_, rfl, ?_, fun m hm => ?_⟩, hmultiple _ le_rfl⟩
  · rw [hmultiple _ le_rfl]
    exact Nat.find_spec hex
  · rw [hmultiple m hm.le]
    exact not_le.1 (Nat.find_min hex hm)

end PrimeSieveEntry

namespace PrimeSieve

open PrimeSieveEntry

variable {p q c : ℕ} {P : List ℕ}

theorem ends_of_small (hp : 0 < p) (hpc : p ≤ c) (hc : 5 * c < 2 ^ 64) : Ends p c := by
  obtain ⟨n, -, -, hfirst, -⟩ := exists_first hp hpc hc
  exact ⟨_, hfirst⟩

/-- The entry for `p` stops the products of `p` with its factors. -/
theorem hits_iff (hp : 0 < p) (hpc : p ≤ c) (hc : 5 * c < 2 ^ 64) : Hits p c ↔ ∃ n, c = p * factor p n := by
  obtain ⟨n, hle, hlt, hfirst, hmultiple⟩ := exists_first hp hpc hc
  constructor
  · rintro ⟨e, he, heq⟩
    rw [← hfirst.unique he, hmultiple] at heq
    exact ⟨n, heq.symm⟩
  · rintro ⟨m, rfl⟩
    refine ⟨_, hfirst, ?_⟩
    have hnm : n ≤ m := by
      by_contra hmn
      exact (hlt m (not_le.1 hmn)).false
    rw [hmultiple]
    exact le_antisymm (Nat.mul_le_mul_left p ((factor_strictMono p).monotone hnm)) hle

/-- A composite number is the product of its least prime factor with one of the factors of that. -/
theorem exists_factor (h2 : 2 ≤ c) (hc : ¬ c.Prime) : ∃ n, c = c.minFac * factor c.minFac n := by
  have hprime : c.minFac.Prime := Nat.minFac_prime (by omega)
  obtain ⟨m, hm⟩ := Nat.minFac_dvd c
  have hle : c.minFac ≤ m := by
    have hsq := Nat.minFac_sq_le_self (by omega) hc
    rw [pow_two] at hsq
    exact Nat.le_of_mul_le_mul_left (hm ▸ hsq) hprime.pos
  -- a smaller prime does not divide the other factor
  have hother (q : ℕ) (hq : q.Prime) (hqlt : q < c.minFac) : m % q ≠ 0 := fun hmod => by
    have hdvd : q ∣ c := hm ▸ (Nat.dvd_of_mod_eq_zero hmod).mul_left c.minFac
    exact absurd (Nat.minFac_le_of_dvd hq.two_le hdvd) (not_le.2 hqlt)
  rcases lt_trichotomy c.minFac 3 with h3 | h3 | h3
  · have hp : c.minFac = 2 := by
      have := hprime.two_le
      omega
    refine ⟨m - 2, hm.trans ?_⟩
    rw [hp] at hle ⊢
    rw [show factor 2 (m - 2) = m - 2 + 2 from rfl, Nat.sub_add_cancel hle]
  · have hodd := hother 2 Nat.prime_two (by omega)
    refine ⟨(m - 3) / 2, hm.trans ?_⟩
    rw [h3] at hle ⊢
    rw [show factor 3 ((m - 3) / 2) = 2 * ((m - 3) / 2) + 3 from rfl]
    omega
  · have hodd := hother 2 Nat.prime_two (by omega)
    have hthree := hother 3 Nat.prime_three h3
    have h4 : c.minFac ≠ 4 := fun h4 => by
      rw [h4] at hprime
      exact absurd hprime (by decide)
    have hm5 : 5 ≤ m := by omega
    obtain ⟨n, hn⟩ := exists_factor_eq h3 hm5 hodd hthree
    exact ⟨n, by rw [hn, ← hm]⟩

/-- With the primes up to some place, a sieve stops the candidates that one of its primes divides. -/
theorem exists_hits_iff_dvd (hP : ∀ p ∈ P, p.Prime ∧ p < c) (hinit : ∀ p ∈ P, ∀ q, q.Prime → q ≤ p → q ∈ P)
    (h2 : 2 ≤ c) (hc : 5 * c < 2 ^ 64) : (∃ p ∈ P, Hits p c) ↔ ∃ p ∈ P, p ∣ c := by
  constructor
  · rintro ⟨p, hp, hhit⟩
    obtain ⟨n, rfl⟩ := (hits_iff (hP p hp).1.pos (hP p hp).2.le hc).1 hhit
    exact ⟨p, hp, Nat.dvd_mul_right _ _⟩
  · rintro ⟨p, hp, hdvd⟩
    obtain ⟨hprime, hlt⟩ := hP p hp
    have hcomposite : ¬ c.Prime := fun hc' => by
      obtain h | h := (Nat.dvd_prime hc').1 hdvd
      · exact hprime.ne_one h
      · exact hlt.ne h
    have hle : c.minFac ≤ p := Nat.minFac_le_of_dvd hprime.two_le hdvd
    have hmem : c.minFac ∈ P := hinit p hp _ (Nat.minFac_prime (by omega)) hle
    exact ⟨c.minFac, hmem, (hits_iff (Nat.minFac_pos c) (hle.trans hlt.le) hc).2 (exists_factor h2 hcomposite)⟩

end PrimeSieve

end ProcessNetwork
