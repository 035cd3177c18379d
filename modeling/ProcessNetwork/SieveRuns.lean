import ProcessNetwork.SieveMultiples
import Mathlib.NumberTheory.PrimeCounting

/-!
# The sieve finds the primes

The candidates are strictly ascending from 2 on and contain each prime up to the last of them, and the multiples do not wrap.
Then the primes in a sieve are the first ones there are, up to its bound, and a candidate is stopped exactly if one of them
divides it (`verdict_firstPrimes`).
-/

namespace ProcessNetwork

namespace PrimeSieve

open PrimeSieveEntry (less)
open Heap (IsHeap)

variable {M k c lo : ℕ} {cs : List ℕ}

/-- The first `k` primes. -/
noncomputable def firstPrimes (k : ℕ) : List ℕ := (List.range k).map (Nat.nth Nat.Prime)

/-- The number of primes in a sieve with the bound `M` when `k` primes have been tried. -/
def bounded (M k : ℕ) : ℕ := if M = 0 then k else min M k

/-- What `TryCandidate` should return: up to the `M`-th prime whether the candidate is prime, and then whether one of
the first
`M` primes divides it. -/
noncomputable def result (M c : ℕ) : ℤ :=
  if M = 0 ∨ c ≤ Nat.nth Nat.Prime (M - 1) then if c.Prime then 1 else 0
  else if ∃ i < M, Nat.nth Nat.Prime i ∣ c then 0 else -1

theorem mem_firstPrimes {p : ℕ} : p ∈ firstPrimes k ↔ p.Prime ∧ Nat.count Nat.Prime p < k := by
  unfold firstPrimes
  rw [List.mem_map]
  constructor
  · rintro ⟨i, hi, rfl⟩
    rw [Nat.count_nth_of_infinite Nat.infinite_setOfPred_prime]
    exact ⟨Nat.prime_nth_prime i, List.mem_range.1 hi⟩
  · rintro ⟨hp, hk⟩
    exact ⟨_, List.mem_range.2 hk, Nat.nth_count hp⟩

theorem firstPrimes_succ (hc : c.Prime) (hk : Nat.count Nat.Prime c = k) : firstPrimes (k + 1) = firstPrimes k ++ [c] := by
  unfold firstPrimes
  rw [List.range_succ, List.map_append, List.map_singleton, ← hk, Nat.nth_count hc]

/-- The sieve with the first primes, when all smaller primes have been tried. -/
theorem exists_hits_firstPrimes (hk : k ≤ Nat.count Nat.Prime c) (h2 : 2 ≤ c) (hc : 5 * c < 2 ^ 64) :
    (∃ p ∈ firstPrimes k, Hits p c) ↔ ∃ i < k, Nat.nth Nat.Prime i ∣ c := by
  rw [exists_hits_iff_dvd]
  · constructor
    · rintro ⟨p, hp, hdvd⟩
      obtain ⟨i, hi, rfl⟩ := List.mem_map.1 hp
      exact ⟨i, List.mem_range.1 hi, hdvd⟩
    · rintro ⟨i, hi, hdvd⟩
      exact ⟨_, List.mem_map_of_mem (List.mem_range.2 hi), hdvd⟩
  · intro p hp
    obtain ⟨hprime, hlt⟩ := mem_firstPrimes.1 hp
    exact ⟨hprime, Nat.lt_of_count_lt_count (hlt.trans_le hk)⟩
  · intro p hp q hq hle
    obtain ⟨hprime, hlt⟩ := mem_firstPrimes.1 hp
    exact mem_firstPrimes.2 ⟨hq, (Nat.count_monotone _ hle).trans_lt hlt⟩
  · exact h2
  · exact hc

/-- With all smaller primes one of them divides a candidate that is not prime. -/
theorem exists_dvd_iff (h2 : 2 ≤ c) : (∃ i < Nat.count Nat.Prime c, Nat.nth Nat.Prime i ∣ c) ↔ ¬ c.Prime := by
  constructor
  · rintro ⟨i, hi, hdvd⟩ hc
    have hlt : Nat.nth Nat.Prime i < c := Nat.nth_lt_of_lt_count hi
    obtain h | h := (Nat.dvd_prime hc).1 hdvd
    · exact (Nat.prime_nth_prime i).ne_one h
    · exact hlt.ne h
  · intro hc
    have hprime : c.minFac.Prime := Nat.minFac_prime (by omega)
    have hlt : c.minFac < c := (Nat.not_prime_iff_minFac_lt h2).1 hc
    refine ⟨Nat.count Nat.Prime c.minFac, Nat.count_strict_mono hprime hlt, ?_⟩
    rw [Nat.nth_count hprime]
    exact Nat.minFac_dvd c

theorem bounded_le (M k : ℕ) : bounded M k ≤ k := by
  unfold bounded
  split_ifs
  · exact le_rfl
  · exact min_le_right _ _

theorem count_of_few (hfew : M = 0 ∨ c ≤ Nat.nth Nat.Prime (M - 1)) (hM : M ≠ 0) : Nat.count Nat.Prime c < M := by
  have hmono := Nat.count_monotone Nat.Prime (hfew.resolve_left hM)
  rw [Nat.count_nth_of_infinite Nat.infinite_setOfPred_prime] at hmono
  omega

theorem count_of_many (hc : Nat.nth Nat.Prime (M - 1) < c) : M ≤ Nat.count Nat.Prime c := by
  have hmono := Nat.count_strict_mono (Nat.prime_nth_prime (M - 1)) hc
  rw [Nat.count_nth_of_infinite Nat.infinite_setOfPred_prime] at hmono
  omega

/-- The result of a call and the primes after it, when all smaller primes have been tried. -/
theorem verdict_firstPrimes (h2 : 2 ≤ c) (hc : 5 * c < 2 ^ 64) :
    verdict M (firstPrimes (bounded M (Nat.count Nat.Prime c))) c = result M c ∧
      grow M (firstPrimes (bounded M (Nat.count Nat.Prime c))) c =
        firstPrimes (bounded M (Nat.count Nat.Prime (c + 1))) := by
  have hlength (k : ℕ) : (firstPrimes k).length = k := by rw [firstPrimes, List.length_map, List.length_range]
  unfold grow verdict result
  by_cases hfew : M = 0 ∨ c ≤ Nat.nth Nat.Prime (M - 1)
  · have hbounded : bounded M (Nat.count Nat.Prime c) = Nat.count Nat.Prime c := by
      unfold bounded
      split_ifs with hM
      · rfl
      · exact min_eq_right (count_of_few hfew hM).le
    have hroom : ¬ (M ≠ 0 ∧ M ≤ Nat.count Nat.Prime c) := by
      rintro ⟨hM, hle⟩
      exact (count_of_few hfew hM).not_ge hle
    have hhits := (exists_hits_firstPrimes le_rfl h2 hc).trans (exists_dvd_iff h2)
    rw [hbounded, if_pos hfew, hlength, if_neg hroom]
    by_cases hprime : c.Prime
    · rw [if_neg (fun h => hhits.1 h hprime), if_pos rfl, if_pos hprime, ← firstPrimes_succ hprime rfl]
      refine ⟨rfl, ?_⟩
      rw [Nat.count_succ, if_pos hprime, bounded]
      split_ifs with hM
      · rfl
      · rw [min_eq_right (count_of_few hfew hM)]
    · rw [if_pos (hhits.2 hprime), if_neg hprime, if_neg zero_ne_one, Nat.count_succ, if_neg hprime, add_zero, hbounded]
      exact ⟨rfl, rfl⟩
  · obtain ⟨hM, hlt⟩ := not_or.1 hfew
    have hle := count_of_many (not_le.1 hlt)
    have hbounded (k : ℕ) (hk : M ≤ k) : bounded M k = M := by rw [bounded, if_neg hM, min_eq_left hk]
    have hhits := exists_hits_firstPrimes hle h2 hc
    have hfull : M ≠ 0 ∧ M ≤ M := ⟨hM, le_rfl⟩
    rw [hbounded _ hle, hbounded _ (hle.trans (Nat.count_monotone _ (Nat.le_succ c))), if_neg hfew, hlength,
      if_pos hfull]
    by_cases hdvd : ∃ i < M, Nat.nth Nat.Prime i ∣ c
    · rw [if_pos (hhits.2 hdvd), if_pos hdvd, if_neg zero_ne_one]
      exact ⟨rfl, rfl⟩
    · rw [if_neg (fun h => hdvd (hhits.1 h)), if_neg hdvd, if_neg (by decide)]
      exact ⟨rfl, rfl⟩

/-! ### Runs -/

/-- The list contains each prime from `lo` up to the last element. -/
def HasPrimes (lo : ℕ) (cs : List ℕ) : Prop := ∀ p, p.Prime → lo ≤ p → (∃ c ∈ cs, p ≤ c) → p ∈ cs

/-- No prime is left out between the candidates. -/
private theorem HasPrimes.count_eq (h : HasPrimes lo (c :: cs)) (hcs : (c :: cs).Pairwise (· < ·)) (hlo : lo ≤ c) :
    Nat.count Nat.Prime lo = Nat.count Nat.Prime c := by
  refine le_antisymm (Nat.count_monotone _ hlo) ?_
  by_contra hmore
  have hp : Nat.nth Nat.Prime (Nat.count Nat.Prime lo) < c := Nat.nth_lt_of_lt_count (not_le.1 hmore)
  have hmem := h _ (Nat.prime_nth_prime _) (Nat.le_nth_count Nat.infinite_setOfPred_prime lo)
    ⟨c, List.mem_cons_self, hp.le⟩
  obtain heq | hmem := List.mem_cons.1 hmem
  · exact hp.ne heq
  · exact lt_asymm hp ((List.pairwise_cons.1 hcs).1 _ hmem)

private theorem HasPrimes.tail (h : HasPrimes lo (c :: cs)) (hlo : lo ≤ c) : HasPrimes (c + 1) cs := by
  rintro p hp hlt ⟨c', hc', hle⟩
  have hmem := h p hp (by omega) ⟨c', List.mem_cons_of_mem _ hc', hle⟩
  exact (List.mem_cons.1 hmem).resolve_left (by omega)

/-- A run of a sieve with the first primes, when all primes below `lo` have been tried. -/
theorem sieveRun_firstPrimes (hcs : cs.Pairwise (· < ·)) (hlo : ∀ c ∈ cs, lo ≤ c) (h2 : 2 ≤ lo)
    (hprimes : HasPrimes lo cs) (hwrap : ∀ c ∈ cs, 5 * c < 2 ^ 64) :
    RunEnds M (firstPrimes (bounded M (Nat.count Nat.Prime lo))) cs ∧
      (sieveRun M (firstPrimes (bounded M (Nat.count Nat.Prime lo))) cs).1 = cs.map (result M) := by
  induction cs generalizing lo with
  | nil => exact ⟨trivial, rfl⟩
  | cons c cs ih =>
    obtain ⟨hlt, hcs'⟩ := List.pairwise_cons.1 hcs
    have hc := hlo c List.mem_cons_self
    have hwrap' := hwrap c List.mem_cons_self
    obtain ⟨hverdict, hgrow⟩ := verdict_firstPrimes (M := M) (h2.trans hc) hwrap'
    obtain ⟨hends, hrun⟩ := ih hcs' (fun x hx => hlt x hx) (by omega) (hprimes.tail hc)
      (fun x hx => hwrap x (List.mem_cons_of_mem _ hx))
    rw [hprimes.count_eq hcs hc]
    unfold RunEnds sieveRun
    rw [hgrow, hverdict]
    refine ⟨⟨fun p hp => ?_, hends⟩, ?_⟩
    · obtain ⟨hprime, hk⟩ := mem_firstPrimes.1 hp
      have hpc : p < c := Nat.lt_of_count_lt_count (hk.trans_le (bounded_le M _))
      exact ends_of_small hprime.pos hpc.le hwrap'
    · rw [hrun, List.map_cons]

private theorem tryAll_prefix {n : ℕ} {s s' : PrimeSieve} {rs : List ℤ} {pre : List ℕ} (h : tryAll n s cs = some (rs, s'))
    (hpre : pre <+: cs) : ∃ rs' t, tryAll n s pre = some (rs', t) := by
  obtain ⟨post, rfl⟩ := hpre
  rw [tryAll_append, Option.bind_eq_some_iff] at h
  obtain ⟨⟨rs', t⟩, ht, -⟩ := h
  exact ⟨rs', t, ht⟩

/-- The sieve finds exactly the primes: with enough rounds each call returns, and with the result that it should have. 
Between
the calls the vector is a heap with a smallest multiple at its front. -/
theorem tryAll_finds_primes (M : ℕ) (cs : List ℕ) (hcs : cs.Pairwise (· < ·)) (htwo : ∀ c ∈ cs, 2 ≤ c)
    (hprimes : ∀ p, p.Prime → (∃ c ∈ cs, p ≤ c) → p ∈ cs) (hwrap : ∀ c ∈ cs, 5 * c < 2 ^ 64) :
    ∃ n, ∀ m, n ≤ m → ∀ pre, pre <+: cs → ∃ s, tryAll m (create M) pre = some (pre.map (result M), s) ∧
      IsHeap less s.primeSieve ∧ ∀ e ∈ s.primeSieve, s.smallestSieveMultiple ≤ e.multiple := by
  have hzero : firstPrimes (bounded M (Nat.count Nat.Prime 2)) = [] := by
    have hcount : Nat.count Nat.Prime 2 = 0 := by decide
    have hle := bounded_le M (Nat.count Nat.Prime 2)
    rw [Nat.le_zero.1 (hle.trans hcount.le)]
    rfl
  have hrun {l : List ℕ} (hl : l <+: cs) :
      RunEnds M [] l ∧ (sieveRun M [] l).1 = l.map (result M) := by
    have hmem {x : ℕ} (hx : x ∈ l) : x ∈ cs := hl.subset hx
    rw [← hzero]
    refine sieveRun_firstPrimes (hcs.sublist hl.sublist) (fun x hx => htwo x (hmem hx)) le_rfl ?_
      (fun x hx => hwrap x (hmem hx))
    rintro p hp - ⟨c, hc, hle⟩
    have hpcs := hprimes p hp ⟨c, hmem hc, hle⟩
    obtain ⟨post, rfl⟩ := hl
    obtain hp' | hp' := List.mem_append.1 hpcs
    · exact hp'
    · have hlt := (List.pairwise_append.1 hcs).2.2 c hc p hp'
      exact absurd hlt (not_lt.2 hle)
  have hsorted {l : List ℕ} (hl : l <+: cs) : (0 :: l).Pairwise (· ≤ ·) :=
    List.pairwise_cons.2 ⟨fun x _ => Nat.zero_le x, (hcs.sublist hl.sublist).imp fun h => h.le⟩
  obtain ⟨n, hn⟩ := exists_tryAll (stands_create M) (hsorted (List.prefix_refl cs)) (hrun (List.prefix_refl cs)).1
  refine ⟨n, fun m hm pre hpre => ?_⟩
  obtain ⟨⟨rs, s'⟩, hall⟩ := hn m hm
  obtain ⟨rs', t, ht⟩ := tryAll_prefix hall hpre
  obtain ⟨-, hrs, -, hstands⟩ := tryAll_spec (stands_create M) (hsorted hpre) ht
  refine ⟨t, ?_, hstands.heap, fun e he => smallest_le hstands.heap he⟩
  rw [ht, hrs, show (create M).maxNumPrimes = M from rfl, (hrun hpre).2]

/-- A sieve for two primes. -/
theorem tryAll_finds_primes_two : ∃ n, ∀ m, n ≤ m → ∃ s,
    tryAll m (create 2) [2, 3, 4, 5, 6, 7] = some ([2, 3, 4, 5, 6, 7].map (result 2), s) := by
  have hprime (p : ℕ) (hp : p.Prime) (h : ∃ c ∈ [2, 3, 4, 5, 6, 7], p ≤ c) : p ∈ [2, 3, 4, 5, 6, 7] := by
    have h2 := hp.two_le
    obtain ⟨c, hc, hle⟩ := h
    simp only [List.mem_cons, List.not_mem_nil, or_false] at hc ⊢
    omega
  obtain ⟨n, hn⟩ := tryAll_finds_primes 2 [2, 3, 4, 5, 6, 7] (by decide) (by decide) hprime (by decide)
  exact ⟨n, fun m hm => (hn m hm _ (List.prefix_refl _)).imp fun s hs => hs.1⟩

end PrimeSieve

end ProcessNetwork
